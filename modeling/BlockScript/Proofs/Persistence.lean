import BlockScript.Proofs.StoreLemmas
import BlockScript.Proofs.Discipline
import BlockScript.Session

/-!
# Bindings persist and constants keep their values

Scopes are shared by running blocks and function values, and every evaluation
can reach those of its caller. Whatever it does there, and whether or not it
succeeds, parents stay, bound names stay bound with their constness, and a
constant keeps its value.
-/

namespace BlockScript

def Value.scope? : Value → Option ScopeId
  | .function f => f.scope?
  | _ => none

def Value.HeldBy (h : Store) (v : Value) : Prop := ∀ s, v.scope? = some s → s < h.size

namespace Store

/-- Parents are older than their children, and the scopes of bound functions exist. That constants are bound needs no
mention, since being constant is part of a binding. -/
structure WellFormed (h : Store) : Prop where
  parent_lt {s p : ScopeId} : h.parent? s = some p → p < s
  held : h.Holds (Value.HeldBy h)

/-- What `h` has is still there in `h'`: scopes with their parents, names with their constness, and the values of
constants. -/
structure Extends (h h' : Store) : Prop where
  size_le : h.size ≤ h'.size
  parent_eq {s : ScopeId} : s < h.size → h'.parent? s = h.parent? s
  binding {s : ScopeId} {name : Name} {b : Binding} : h.binding? s name = some b →
    ∃ b', h'.binding? s name = some b' ∧ b'.constant = b.constant ∧ (b.constant = true → b'.value = b.value)

namespace Extends

theorem refl (h : Store) : h.Extends h := ⟨Nat.le_refl _, fun _ => rfl, fun {_ _ b} hb => ⟨b, hb, rfl, fun _ => rfl⟩⟩

theorem trans {h₁ h₂ h₃ : Store} (h₁₂ : h₁.Extends h₂) (h₂₃ : h₂.Extends h₃) : h₁.Extends h₃ := by
  refine ⟨Nat.le_trans h₁₂.size_le h₂₃.size_le, ?_, ?_⟩
  · intro s hs
    rw [h₂₃.parent_eq (Nat.lt_of_lt_of_le hs h₁₂.size_le), h₁₂.parent_eq hs]
  · intro s name b hb
    obtain ⟨b', hb', hc, hv⟩ := h₁₂.binding hb
    obtain ⟨b'', hb'', hc', hv'⟩ := h₂₃.binding hb'
    exact ⟨b'', hb'', hc'.trans hc, fun h => (hv' (hc.trans h)).trans (hv h)⟩

theorem add (h : Store) (parent : Option ScopeId) : h.Extends (h.add (.empty parent)) := by
  refine ⟨?_, ?_, ?_⟩
  · rw [size_add]; omega
  · intro s hs
    rw [parent?_add, if_neg (Nat.ne_of_lt hs)]
  · intro s name b hb
    exact ⟨b, by rw [binding?_add_empty, hb], rfl, fun _ => rfl⟩

theorem bind (h : Store) (s : ScopeId) (name : Name) (b : Binding) : h.Extends (h.bind s name b) := by
  refine ⟨Nat.le_of_eq (size_bind ..).symm, fun _ => parent?_bind .., ?_⟩
  intro t m b' hb'
  exact ⟨b', by rw [binding?_bind, hb', Option.some_or], rfl, fun _ => rfl⟩

theorem overwrite {h : Store} {s : ScopeId} {name : Name} {b : Binding} (hb : h.binding? s name = some b)
    (hc : b.constant = false) (v : Value) : h.Extends (h.overwrite s name v) := by
  refine ⟨Nat.le_of_eq (size_overwrite ..).symm, fun _ => parent?_overwrite .., ?_⟩
  intro t m b' hb'
  refine ⟨_, by rw [binding?_overwrite, hb', Option.map_some], ?_⟩
  by_cases htm : t = s ∧ m = name
  · obtain ⟨rfl, rfl⟩ := htm
    cases hb.symm.trans hb'
    simp [hc]
  · simp [htm]

end Extends

end Store

theorem Value.HeldBy.mono {h h' : Store} {v : Value} (hv : v.HeldBy h) (he : h.Extends h') : v.HeldBy h' :=
  fun s hs => Nat.lt_of_lt_of_le (hv s hs) he.size_le

theorem Value.HeldBy.of_plain {h : Store} {v : Value} (hv : v.isPlain = true) : v.HeldBy h := by
  intro s hs
  cases v <;> simp [Value.isPlain, Value.scope?] at hv hs

theorem Store.initial_plain : Store.initial.Holds (·.isPlain = true) := by
  intro s name b hb
  rcases Nat.eq_zero_or_pos s with rfl | hs
  · have hm : (name, b) ∈ Scope.globals.bindings := Operator.mem_of_lookup hb
    simp only [Scope.globals, List.mem_cons, Prod.mk.injEq, List.not_mem_nil, or_false] at hm
    rcases hm with ⟨-, rfl⟩ | ⟨-, rfl⟩ | ⟨-, rfl⟩ <;> rfl
  · exact absurd (lt_size_of_binding? hb) (Nat.not_lt.mpr hs)

namespace Store.WellFormed

variable {h : Store} {s : ScopeId}

theorem add (hw : h.WellFormed) {parent : Option ScopeId} (hp : ∀ p, parent = some p → p < h.size) :
    (h.add (.empty parent)).WellFormed := by
  refine ⟨?_, ?_⟩
  · intro s p hs
    rw [parent?_add] at hs
    split at hs
    · rename_i he; subst he; exact hp p hs
    · exact hw.parent_lt hs
  · exact (hw.held.mono fun _ hv => hv.mono (.add h parent)).add parent

theorem bind (hw : h.WellFormed) (s : ScopeId) (name : Name) {b : Binding} (hb : b.value.HeldBy h) :
    (h.bind s name b).WellFormed := by
  have hext := Extends.bind h s name b
  refine ⟨fun hp => hw.parent_lt (by rwa [parent?_bind] at hp), ?_⟩
  exact (hw.held.mono fun _ hv => hv.mono hext).bind (hb.mono hext) s name b.constant

theorem overwrite (hw : h.WellFormed) (s : ScopeId) (name : Name) {v : Value} (hv : v.HeldBy h) :
    (h.overwrite s name v).WellFormed := by
  have hsize : ∀ u : Value, u.HeldBy h → u.HeldBy (h.overwrite s name v) := fun u hu t ht => by
    rw [size_overwrite]; exact hu t ht
  refine ⟨fun hp => hw.parent_lt (by rwa [parent?_overwrite] at hp), ?_⟩
  exact (hw.held.mono hsize).overwrite (hsize v hv) s name

theorem initial : Store.initial.WellFormed := by
  refine ⟨?_, initial_plain.mono fun _ => .of_plain⟩
  intro s p hp
  rcases Nat.eq_zero_or_pos s with rfl | hs
  · cases hp
  · simp [parent?, show Store.initial.get? s = none from get?_eq_none hs] at hp

end Store.WellFormed

/-! ## Whole evaluations -/

def persistence : Discipline where
  Context := Unit
  inner _ := ()
  declared _ _ := ()
  expr _ _ := True
  stmt _ _ := True
  inv := Store.WellFormed
  value h v := v.HeldBy h
  scope h s _ := s < h.size
  grows := Store.Extends
  growsIn _ := Store.Extends
  stops _ := True
  expr_assign _ := trivial
  expr_binary _ := ⟨trivial, trivial⟩
  expr_logical _ := ⟨trivial, trivial⟩
  expr_unary _ := trivial
  expr_call _ := ⟨trivial, fun _ _ => trivial⟩
  stmt_program _ := Statics.block_of_forall _ (fun _ _ => trivial) ..
  stmt_declare _ := trivial
  stmt_ifElse _ := ⟨fun _ _ => ⟨trivial, Statics.block_of_forall _ (fun _ _ => trivial) ..⟩,
    fun _ _ => Statics.block_of_forall _ (fun _ _ => trivial) ..⟩
  stmt_while _ := ⟨trivial, Statics.block_of_forall _ (fun _ _ => trivial) ..⟩
  stmt_expr _ := trivial
  grows_refl := .refl
  grows_trans := .trans
  growsIn_of_grows := id
  growsIn_trans := .trans
  scope_mono he hs := Nat.lt_of_lt_of_le hs he.size_le
  value_mono he hv := hv.mono he
  value_plain := .of_plain
  enter {h s _} hi hs _ := by
    refine ⟨hi.add ?_, ?_⟩
    · intro p hp; cases hp; exact hs
    · exact Store.size_lt_size_add ..
  leave {h parent h'} he := .trans (.add h parent) he
  call {h f} hi hv := ⟨hi.add fun p hp => hv p hp, (), Store.size_lt_size_add ..,
    Statics.block_of_forall _ (fun _ _ => trivial) ..⟩
  lookup {h s _ name} hi _ _ := by
    cases hl : h.lookup s name with
    | error e => trivial
    | ok v =>
      obtain ⟨t, b, -, hb, rfl⟩ := Store.lookup_eq_ok hl
      exact hi.held hb
  assign {h s _ name e v} hi _ _ hv := by
    cases ha : h.assignable s name with
    | error e => trivial
    | ok t =>
      obtain ⟨b, hb, hc⟩ := Store.assignable_eq_ok ha
      exact ⟨hi.overwrite t name hv, .overwrite hb hc v⟩
  declare {h s _ kind name e v} hi hs _ hv := by
    cases h.declarable s name with
    | error e => trivial
    | ok _ => exact ⟨hi.bind s name hv, .bind .., Nat.lt_of_lt_of_eq hs (Store.size_bind ..).symm⟩
  function {h s _ name parameters body} hi hs _ := by
    have hv : (Value.function ⟨name, parameters, .declaredIn s, body⟩).HeldBy h := by
      intro t ht; cases ht; exact hs
    cases h.declarable s name with
    | error e => trivial
    | ok _ =>
      exact ⟨hi.bind s name hv, .bind .., Nat.lt_of_lt_of_eq hs (Store.size_bind ..).symm, hv.mono (.bind ..)⟩
  stops_condition _ _ := trivial
  stops_operand _ _ := trivial
  stops_callee _ _ := trivial
  stops_arity _ _ _ := trivial
  stops_binary _ _ _ _ := trivial
  stops_unary _ _ _ := trivial
  stops_logical _ _ := trivial
  stops_missing _ := trivial
  stops_foreign _ := trivial

theorem Discipline.Ensures.result {D : Discipline} {σ α : Type} {rel : Store → Store → Prop} {m : Eval σ α}
    {w : World σ} {P : α → Store → Prop} (hm : D.Ensures rel m w P) :
    D.inv (m.result w).2.store ∧ rel w.store (m.result w).2.store := by
  unfold Ensures at hm
  unfold Eval.result
  cases hrun : m.run w <;> simp only [hrun] at hm <;> exact ⟨hm.1, hm.2.1⟩

theorem Discipline.run_sound {D : Discipline} {Γ : D.Context} {program : Program} (hi : D.inv Store.initial)
    (hs : D.scope Store.initial globalScope Γ) (hb : D.block Γ program) (bound : Nat) :
    D.inv (program.run bound).2.store ∧
      (∀ v, (program.run bound).1 = .ok v → D.value (program.run bound).2.store v) ∧
      ∀ e, (program.run bound).1 = .error (.failed e) → D.stops e := by
  unfold Program.run Eval.evaluate
  cases bound with
  | zero => exact ⟨hi, fun v h => (by cases h), fun e h => (by cases h)⟩
  | succ bound =>
    have hsound := runIn_sound (w := World.initial) (exec_sound (evalExpr_sound (bound + 1)) bound) program hi hs hb
    rw [Eval.exec]
    unfold Ensures at hsound
    unfold Eval.result
    cases hrun : (Eval.runIn (Eval.exec (Eval.evalExpr (bound + 1)) bound) program globalScope).run World.initial with
    | ok v w =>
      simp only [hrun] at hsound
      refine ⟨hsound.1, fun u h => ?_, fun e h => (by cases h)⟩
      cases h
      exact hsound.2.2.1
    | error halt w =>
      simp only [hrun] at hsound
      exact ⟨hsound.1, fun v h => (by cases h), fun e h => hsound.2.2 e (Except.error.inj h)⟩

theorem Eval.declare_binds {σ : Type} {w w' : World σ} {s : ScopeId} {name : Name} {v u : Value} {constant : Bool}
    (hs : s < w.store.size) (hrun : (declare s name v constant).run w = .ok u w') :
    u = v ∧ w'.store.binding? s name = some ⟨v, constant⟩ := by
  rw [run_declare] at hrun
  cases hd : w.store.declarable s name with
  | error e => simp [hd] at hrun
  | ok _ =>
    simp only [hd, EStateM.Result.ok.injEq] at hrun
    obtain ⟨rfl, rfl⟩ := hrun
    exact ⟨rfl, Store.binding?_bind_self hs (Store.declarable_eq_ok hd) _⟩

theorem DeclKind.isConstant_eq_true_iff {kind : DeclKind} : kind.isConstant = true ↔ kind ≠ .var := by
  cases kind <;> decide

theorem evaluate_declare_binds {σ : Type} {bound : Nat} {w w' : World σ} {s : ScopeId} {kind : DeclKind} {name : Name}
    {value : Option Expr} {v : Value} (hw : w.store.WellFormed) (hs : s < w.store.size)
    (hrun : (Eval.evaluate bound (.declare kind name value) s).run w = .ok v w') :
    w'.store.binding? s name = some ⟨v, kind.isConstant⟩ := by
  cases bound with
  | zero => cases hrun
  | succ bound =>
    have hinit := Discipline.initialValue_sound (Discipline.evalExpr_sound (σ := σ) (bound + 1)) value hw
      (show persistence.scope w.store s () from hs) fun _ _ => trivial
    rw [Eval.evaluate, Eval.exec, Eval.run_bind] at hrun
    unfold Discipline.Ensures at hinit
    cases hv : (Eval.initialValue (Eval.evalExpr (bound + 1)) value s).run w with
    | error halt w₁ => simp [hv] at hrun
    | ok u w₁ =>
      simp only [hv] at hinit hrun
      have hs₁ : s < w₁.store.size := Nat.lt_of_lt_of_le hs hinit.2.1.size_le
      obtain ⟨rfl, hb⟩ := Eval.declare_binds
        (w := { w₁ with trace := w₁.trace.push (.declare name kind (w₁.store.depth s)) }) hs₁ hrun
      exact hb

theorem evaluate_function_binds {σ : Type} {bound : Nat} {w w' : World σ} {s : ScopeId} {name : Name}
    {parameters : List Name} {body : Block} {v : Value} (hs : s < w.store.size)
    (hrun : (Eval.evaluate bound (.function name parameters body) s).run w = .ok v w') :
    w'.store.binding? s name = some ⟨v, true⟩ := by
  cases bound with
  | zero => cases hrun
  | succ bound =>
    obtain ⟨rfl, hb⟩ := Eval.declare_binds
      (w := { w with trace := w.trace.push (.declareFunction name (w.store.depth s)) }) hs hrun
    exact hb

def Store.PersistsIn (h h' : Store) : Prop := h'.WellFormed ∧ h.Extends h'

/-- Whatever is evaluated in a well-formed store, and however it ends, the store stays well-formed and what it binds
persists: for statements, blocks, calls and lines of a session. Constant are the names that the global scope begins
with, those of `const` and `final`, and those of functions. -/
theorem bindings_persist (bound : Nat) :
    (∀ {σ : Type} (w : World σ), w.store.WellFormed →
      (∀ stmt s, s < w.store.size → w.store.PersistsIn ((Eval.evaluate bound stmt s).result w).2.store) ∧
      (∀ body s, s < w.store.size →
        w.store.PersistsIn ((Eval.runBlock (Eval.evaluate bound) body s).result w).2.store) ∧
      (∀ f arguments, (Value.function f).HeldBy w.store → (∀ v ∈ arguments, Value.HeldBy w.store v) →
        w.store.PersistsIn ((Eval.invoke (Eval.evaluate bound) f arguments).result w).2.store) ∧
      (∀ s kind name value v w', s < w.store.size →
        (Eval.evaluate bound (.declare kind name value) s).run w = .ok v w' →
          ∃ constant, w'.store.binding? s name = some ⟨v, constant⟩ ∧ (constant = true ↔ kind ≠ .var)) ∧
      (∀ s name parameters body v w', s < w.store.size →
        (Eval.evaluate bound (.function name parameters body) s).run w = .ok v w' →
          w'.store.binding? s name = some ⟨v, true⟩)) ∧
    (∀ source terminator (session : Session), session.world.store.WellFormed →
      globalScope < session.world.store.size →
        session.world.store.PersistsIn (session.eval bound source terminator).2.world.store) ∧
    (Store.initial.WellFormed ∧ ∀ name ∈ [ascii "true", ascii "false", ascii "null"],
      (Store.initial.binding? globalScope name).any Binding.constant = true) := by
  have hstmt : ∀ {σ : Type} (w : World σ), w.store.WellFormed → ∀ stmt s, s < w.store.size →
      w.store.PersistsIn ((Eval.evaluate bound stmt s).result w).2.store := fun w hw stmt s hs =>
    (Discipline.evaluate_sound (D := persistence) bound () stmt s w hw hs trivial).result
  refine ⟨?_, ?_, .initial, by decide⟩
  · intro σ w hw
    refine ⟨hstmt w hw, ?_, ?_, ?_, ?_⟩
    · intro body s hs
      exact (Discipline.runBlock_sound (D := persistence) (Discipline.evaluate_sound bound) body hw
        (show persistence.scope w.store s () from hs) (Statics.block_of_forall _ (fun _ _ => trivial) ..)).result
    · intro f arguments hf ha
      exact (Discipline.invoke_sound (D := persistence) (Discipline.evaluate_sound bound) hw hf ha).result
    · intro s kind name value v w' hs hrun
      exact ⟨kind.isConstant, evaluate_declare_binds hw hs hrun, DeclKind.isConstant_eq_true_iff⟩
    · intro s name parameters body v w' hs hrun
      exact evaluate_function_binds hs hrun
  · intro source terminator session hw hs
    unfold Session.eval
    cases Program.ofSource source terminator with
    | error e => exact ⟨hw, .refl _⟩
    | ok program =>
      have := hstmt session.world hw (.program program) globalScope hs
      rcases hr : (Eval.evaluate bound (.program program) globalScope).result session.world with ⟨outcome, world⟩
      rw [hr] at this
      cases outcome <;> simpa only [hr] using this

def Closure.spoiler : Closure :=
  ⟨ascii "spoil", [ascii "x"], .declaredIn globalScope, [.expr (.assign (ascii "true") (.identifier (ascii "x")))]⟩

theorem bindings_persist_spoiler :
    Store.initial.WellFormed ∧ globalScope < Store.initial.size ∧ (Value.function .spoiler).HeldBy Store.initial ∧
    (∀ v ∈ [Value.function .spoiler], v.HeldBy Store.initial) ∧
    Store.initial.PersistsIn
      ((Eval.invoke (Eval.evaluate 9) .spoiler [.function .spoiler]).result World.initial).2.store ∧
    Store.initial.PersistsIn ((Eval.runBlock (Eval.evaluate 9) Closure.spoiler.body globalScope).result World.initial).2.store ∧
    Store.initial.PersistsIn ((Eval.evaluate 9 (.program Closure.spoiler.body) globalScope).result World.initial).2.store ∧
    Store.initial.PersistsIn (Session.start.eval 9 (ascii "true = 1;") []).2.world.store ∧
    (∀ kind, ∃ w', (Eval.evaluate 9 (.declare kind (ascii "x") none) globalScope).run World.initial = .ok .null w' ∧
      ∃ constant, w'.store.binding? globalScope (ascii "x") = some ⟨.null, constant⟩ ∧ (constant = true ↔ kind ≠ .var)) ∧
    (∃ v w', (Eval.evaluate 9 (.function (ascii "f") [] []) globalScope).run World.initial = .ok v w' ∧
      w'.store.binding? globalScope (ascii "f") = some ⟨v, true⟩) := by
  have hs : globalScope < Store.initial.size := by decide
  have hf : (Value.function .spoiler).HeldBy Store.initial := by
    intro s h; cases h; exact hs
  have ha : ∀ v ∈ [Value.function .spoiler], v.HeldBy Store.initial := by
    intro v hv; rw [List.mem_singleton.mp hv]; exact hf
  obtain ⟨hstmt, hblock, hcall, hdeclare, hfunction⟩ := (bindings_persist 9).1 World.initial .initial
  exact ⟨.initial, hs, hf, ha, hcall _ _ hf ha, hblock _ _ hs, hstmt _ _ hs,
    (bindings_persist 9).2.1 _ _ Session.start .initial hs, fun kind => ⟨_, rfl, hdeclare _ kind _ none _ _ hs rfl⟩,
    _, _, rfl, hfunction _ _ [] [] _ _ hs rfl⟩

end BlockScript
