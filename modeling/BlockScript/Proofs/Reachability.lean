import BlockScript.Proofs.Coupling
import BlockScript.Proofs.Persistence
import BlockScript.Proofs.Relocation

/-!
# Evaluation stays within reach

From a scope one gets to its parents and to the scopes of the functions that
they bind. While a statement runs the bindings change, and with them what can
be reached; yet a run never gets out of what was within reach when it began,
except to scopes that it has created itself. So it leaves all other scopes
alone, and it does not matter what they hold.
-/

namespace BlockScript

namespace Store

inductive Reaches (h : Store) (s : ScopeId) : ScopeId → Prop
  | refl : Reaches h s s
  | parent {t p : ScopeId} : Reaches h s t → h.parent? t = some p → Reaches h s p
  | captured {t c : ScopeId} {name : Name} {b : Binding} : Reaches h s t → h.binding? t name = some b →
      b.value.scope? = some c → Reaches h s c

structure Closed (h : Store) (A : ScopeId → Prop) : Prop where
  parent {t p : ScopeId} : A t → h.parent? t = some p → A p
  captured {t c : ScopeId} {name : Name} {b : Binding} : A t → h.binding? t name = some b →
    b.value.scope? = some c → A c

structure AgreeOn (A : ScopeId → Prop) (h h' : Store) : Prop where
  size_eq : h'.size = h.size
  get?_eq {t : ScopeId} : A t → h'.get? t = h.get? t

variable {A : ScopeId → Prop} {h h' : Store} {s : ScopeId} {name : Name} {v : Value}

theorem Reaches.mem_of_closed {t : ScopeId} (hr : h.Reaches s t) (hc : h.Closed A) (hs : A s) : A t := by
  induction hr with
  | refl => exact hs
  | parent _ hp ih => exact hc.parent ih hp
  | captured _ hb hv ih => exact hc.captured ih hb hv

/-! ## Looking along a chain -/

theorem Closed.mem_of_mem_chain (hc : h.Closed A) (hs : A s) : ∀ t ∈ h.chain s, A t := by
  induction s using Nat.strongRecOn with
  | ind s ih =>
    intro t ht
    rcases Nat.lt_or_ge s h.size with hlt | hge
    · rw [chain_of_lt_size hlt, List.mem_cons] at ht
      rcases ht with rfl | ht
      · exact hs
      · cases hp : h.parent? s with
        | none => simp [hp] at ht
        | some p =>
          by_cases hps : p < s
          · simp only [hp, hps, ite_true] at ht
            exact ih p hps (hc.parent hs hp) t ht
          · simp [hp, hps] at ht
    · rw [chain_of_size_le hge] at ht
      cases ht

theorem mem_chain_of_assignable {t : ScopeId} (ha : h.assignable s name = .ok t) : t ∈ h.chain s := by
  unfold assignable at ha
  split at ha
  · cases ha
  · rename_i u ho
    split at ha
    · cases ha
    · cases ha
      exact (owner?_eq_some ho).1

namespace AgreeOn

theorem refl (A : ScopeId → Prop) (h : Store) : AgreeOn A h h := ⟨rfl, fun _ => rfl⟩

theorem parent?_eq (ha : AgreeOn A h h') (hs : A s) : h'.parent? s = h.parent? s := by
  rw [parent?, parent?, ha.get?_eq hs]

theorem binding?_eq (ha : AgreeOn A h h') (hs : A s) (name : Name) : h'.binding? s name = h.binding? s name := by
  rw [binding?, binding?, ha.get?_eq hs]

theorem chain_eq (ha : AgreeOn A h h') (hc : h.Closed A) (hs : A s) : h'.chain s = h.chain s := by
  induction s using Nat.strongRecOn with
  | ind s ih =>
    rcases Nat.lt_or_ge s h.size with hlt | hge
    · rw [chain_of_lt_size hlt, chain_of_lt_size (ha.size_eq ▸ hlt), ha.parent?_eq hs]
      cases hp : h.parent? s with
      | none => rfl
      | some p =>
        by_cases hps : p < s
        · simp only [hps, ite_true, ih p hps (hc.parent hs hp)]
        · simp only [hps, ite_false]
    · rw [chain_of_size_le hge, chain_of_size_le (ha.size_eq ▸ hge)]

theorem owner?_eq (ha : AgreeOn A h h') (hc : h.Closed A) (hs : A s) (name : Name) :
    h'.owner? s name = h.owner? s name := by
  have hmem := hc.mem_of_mem_chain hs
  rw [owner?, owner?, ha.chain_eq hc hs]
  generalize h.chain s = chain at hmem
  induction chain with
  | nil => rfl
  | cons t chain ih =>
    rw [List.find?_cons, List.find?_cons, ha.binding?_eq (hmem t List.mem_cons_self)]
    split
    · rfl
    · exact ih fun u hu => hmem u (List.mem_cons_of_mem t hu)

theorem lookup_eq (ha : AgreeOn A h h') (hc : h.Closed A) (hs : A s) (name : Name) :
    h'.lookup s name = h.lookup s name := by
  unfold lookup
  rw [ha.owner?_eq hc hs]
  cases ho : h.owner? s name with
  | none => rfl
  | some t =>
    have ht := hc.mem_of_mem_chain hs t (owner?_eq_some ho).1
    rw [Option.bind_some, Option.bind_some, ha.binding?_eq ht]

theorem assignable_eq (ha : AgreeOn A h h') (hc : h.Closed A) (hs : A s) (name : Name) :
    h'.assignable s name = h.assignable s name := by
  unfold assignable
  rw [ha.owner?_eq hc hs]
  cases ho : h.owner? s name with
  | none => rfl
  | some t =>
    have ht := hc.mem_of_mem_chain hs t (owner?_eq_some ho).1
    simp only [ha.binding?_eq ht]

theorem declarable_eq (ha : AgreeOn A h h') (hs : A s) (name : Name) : h'.declarable s name = h.declarable s name := by
  rw [declarable, declarable, ha.binding?_eq hs]

end AgreeOn

/-! ## Changes within reach -/

/-- How two runs stand that began with `h₀` in the first store: they agree within `A`, where all scopes to come belong,
and the first has changed nothing outside of it. -/
structure Within (A : ScopeId → Prop) (h₀ h h' : Store) : Prop where
  agree : AgreeOn A h h'
  closed : h.Closed A
  fresh {t : ScopeId} : h.size ≤ t → A t
  outside {t : ScopeId} : ¬ A t → h.get? t = h₀.get? t

variable {h₀ : Store}

theorem Within.add (hw : Within A h₀ h h') {parent : Option ScopeId} (hp : ∀ p, parent = some p → A p) :
    Within A h₀ (h.add (.empty parent)) (h'.add (.empty parent)) := by
  have hnew : A h.size := hw.fresh (Nat.le_refl _)
  refine ⟨⟨?_, fun {t} ht => ?_⟩, ⟨fun {t p} ht htp => ?_, fun {t c name b} ht hb => ?_⟩, fun {t} ht => ?_,
    fun {t} ht => ?_⟩
  · rw [size_add, size_add, hw.agree.size_eq]
  · rw [get?_add, get?_add, hw.agree.size_eq, hw.agree.get?_eq ht]
  · rw [parent?_add] at htp
    split at htp
    · exact hp p htp
    · exact hw.closed.parent ht htp
  · rw [binding?_add_empty] at hb
    exact hw.closed.captured ht hb
  · rw [size_add] at ht
    exact hw.fresh (Nat.le_of_succ_le ht)
  · have hne : t ≠ h.size := fun e => ht (e ▸ hnew)
    rw [get?_add, if_neg hne]
    exact hw.outside ht

theorem Within.modify (hw : Within A h₀ h h') (hs : A s) {f : Scope → Scope} (hclosed : (h.modify s f).Closed A) :
    Within A h₀ (h.modify s f) (h'.modify s f) := by
  have hsize : ∀ k : Store, (k.modify s f).size = k.size := fun k => Array.size_modify
  refine ⟨⟨?_, fun {t} ht => ?_⟩, hclosed, fun {t} ht => ?_, fun {t} ht => ?_⟩
  · rw [hsize, hsize, hw.agree.size_eq]
  · rw [get?_modify, get?_modify, hw.agree.get?_eq ht]
  · rw [hsize] at ht
    exact hw.fresh ht
  · have hne : s ≠ t := fun e => ht (e ▸ hs)
    rw [get?_modify, if_neg hne]
    exact hw.outside ht

theorem Closed.bind (hc : h.Closed A) (hv : ∀ c, v.scope? = some c → A c) (s : ScopeId) (name : Name)
    (constant : Bool) : (h.bind s name ⟨v, constant⟩).Closed A := by
  refine ⟨fun {t p} ht hp => ?_, fun {t c m b} ht hb hbc => ?_⟩
  · rw [parent?_bind] at hp
    exact hc.parent ht hp
  · rcases eq_or_eq_of_binding?_bind hb with hb | rfl
    · exact hc.captured ht hb hbc
    · exact hv c hbc

theorem Closed.overwrite (hc : h.Closed A) (hv : ∀ c, v.scope? = some c → A c) (s : ScopeId) (name : Name) :
    (h.overwrite s name v).Closed A := by
  refine ⟨fun {t p} ht hp => ?_, fun {t c m b} ht hb hbc => ?_⟩
  · rw [parent?_overwrite] at hp
    exact hc.parent ht hp
  · rcases eq_or_eq_of_binding?_overwrite hb with hb | rfl
    · exact hc.captured ht hb hbc
    · exact hv c hbc

end Store

/-! ## Moving nothing -/

namespace Transcription

mutual

theorem expr_moved_id : ∀ e : Expr, (moved id).expr e = e
  | .number _ | .string _ | .identifier _ | .missing | .foreign _ => by simp [expr]
  | .assign _ value => by simp [expr, expr_moved_id value]
  | .binary _ left right | .logical _ left right => by simp [expr, Token.move, expr_moved_id left, expr_moved_id right]
  | .unary _ operand => by simp [expr, Token.move, expr_moved_id operand]
  | .call callee arguments => by simp [expr, expr_moved_id callee, exprs_moved_id arguments]

theorem exprs_moved_id : ∀ es : List Expr, (moved id).exprs es = es
  | [] => by simp [exprs]
  | e :: es => by simp [exprs, expr_moved_id e, exprs_moved_id es]

end

mutual

theorem stmt_moved_id : ∀ s : Stmt, (moved id).stmt s = s
  | .program body => by simp [stmt, block_moved_id body]
  | .declare _ _ none => by simp [stmt]
  | .declare _ _ (some e) => by simp [stmt, expr_moved_id e]
  | .function _ _ body => by simp [stmt, block_moved_id body]
  | .ifElse check body elseIfs rest => by
    simp [stmt, expr_moved_id check, block_moved_id body, arms_moved_id elseIfs, otherwise_moved_id rest]
  | .whileLoop check body => by simp [stmt, expr_moved_id check, block_moved_id body]
  | .expr e => by simp [stmt, expr_moved_id e]
  | .missing | .foreign _ => by simp [stmt]

theorem block_moved_id : ∀ ss : List Stmt, (moved id).block ss = ss
  | [] => by simp [block]
  | s :: ss => by simp [block, stmt_moved_id s, block_moved_id ss]

theorem arms_moved_id : ∀ elseIfs : List (Expr × List Stmt), (moved id).arms elseIfs = elseIfs
  | [] => by simp [arms]
  | (check, body) :: rest => by simp [arms, expr_moved_id check, block_moved_id body, arms_moved_id rest]

theorem otherwise_moved_id : ∀ rest : Option (List Stmt), (moved id).otherwise rest = rest
  | none => by simp [otherwise]
  | some body => by simp [otherwise, block_moved_id body]

end

end Transcription

/-! ## The coupling -/

namespace Reachability

def Inside (A : ScopeId → Prop) (s s' : ScopeId) : Prop := A s ∧ s' = s

variable {A : ScopeId → Prop} {h₀ h h' : Store} {s s' t t' : ScopeId} {v v' : Value}

theorem related_iff : v.Related (.moved id) (Inside A) v' ↔ v' = v ∧ ∀ c, v.scope? = some c → A c := by
  constructor
  · intro h
    cases h with
    | plain hv =>
      refine ⟨rfl, fun c hc => ?_⟩
      cases v with
      | function => cases hv
      | _ => cases hc
    | @function f g hf =>
      obtain ⟨name, parameters, origin, body⟩ := f
      obtain ⟨name', parameters', origin', body'⟩ := g
      obtain ⟨hname, hparameters, horigin, hbody⟩ := hf
      simp only [Transcription.name_moved, List.map_id, id_eq, Transcription.block_moved_id] at hname hparameters hbody
      subst hname hparameters hbody
      cases horigin with
      | declaredIn hs =>
        obtain ⟨hs, rfl⟩ := hs
        refine ⟨rfl, fun c hc => ?_⟩
        cases hc
        exact hs
      | supplied tag => exact ⟨rfl, fun c hc => by cases hc⟩
  · rintro ⟨rfl, hv⟩
    cases v' with
    | function f =>
      obtain ⟨name, parameters, origin, body⟩ := f
      refine .function ⟨rfl, (List.map_id _).symm, ?_, (Transcription.block_moved_id body).symm⟩
      cases origin with
      | declaredIn s => exact .declaredIn ⟨hv s rfl, rfl⟩
      | supplied tag => exact .supplied tag
    | _ => exact .plain rfl

theorem inside_inj (hs : Inside A s s') (ht : Inside A t t') : s' = t' ↔ s = t := by
  rw [hs.2, ht.2]

theorem error_moved_id (e : RuntimeError) : (Transcription.moved id).error e = e := by
  cases e <;> rfl

theorem enter_within {p p' : Option ScopeId} (hw : Store.Within A h₀ h h') (hp : Option.Rel (Inside A) p p') :
    ∃ _ : Unit, True ∧ Store.Within A h₀ (h.add (.empty p)) (h'.add (.empty p')) ∧ Inside A h.size h'.size := by
  have hnew : Inside A h.size h'.size := ⟨hw.fresh (Nat.le_refl _), hw.agree.size_eq⟩
  refine ⟨(), trivial, ?_, hnew⟩
  cases hp with
  | none => exact hw.add (by simp)
  | some hs =>
    obtain ⟨hs, rfl⟩ := hs
    exact hw.add (by simpa using hs)

theorem lookup_within (name : Name) (hw : Store.Within A h₀ h h') (hs : Inside A s s') :
    match h.lookup s name, h'.lookup s' ((Transcription.moved id).name name) with
    | .ok v, .ok v' => v.Related (.moved id) (Inside A) v'
    | .error e, .error e' => e' = (Transcription.moved id).error e
    | _, _ => False := by
  obtain ⟨hs, rfl⟩ := hs
  rw [Transcription.name_moved, id, hw.agree.lookup_eq hw.closed hs]
  cases hl : h.lookup s' name with
  | error e => exact (error_moved_id e).symm
  | ok v =>
    obtain ⟨t, b, ht, hb, rfl⟩ := Store.lookup_eq_ok hl
    have hin := hw.closed.mem_of_mem_chain hs t ht
    exact related_iff.mpr ⟨rfl, fun c hc => hw.closed.captured hin hb hc⟩

theorem assign_within (name : Name) (hw : Store.Within A h₀ h h') (hs : Inside A s s')
    (hv : v.Related (.moved id) (Inside A) v') :
    match h.assignable s name, h'.assignable s' ((Transcription.moved id).name name) with
    | .ok t, .ok t' => Store.Within A h₀ (h.overwrite t name v) (h'.overwrite t' ((Transcription.moved id).name name) v')
    | .error e, .error e' => e' = (Transcription.moved id).error e
    | _, _ => False := by
  obtain ⟨hs, rfl⟩ := hs
  obtain ⟨rfl, hv⟩ := related_iff.mp hv
  rw [Transcription.name_moved, id, hw.agree.assignable_eq hw.closed hs]
  cases ha : h.assignable s' name with
  | error e => exact (error_moved_id e).symm
  | ok t =>
    have ht := hw.closed.mem_of_mem_chain hs t (Store.mem_chain_of_assignable ha)
    exact hw.modify ht (hw.closed.overwrite hv t name)

theorem declare_within (name : Name) (constant : Bool) (hw : Store.Within A h₀ h h') (hs : Inside A s s')
    (hv : v.Related (.moved id) (Inside A) v') :
    match h.declarable s name, h'.declarable s' ((Transcription.moved id).name name) with
    | .ok (), .ok () => Store.Within A h₀ (h.bind s name ⟨v, constant⟩)
        (h'.bind s' ((Transcription.moved id).name name) ⟨v', constant⟩)
    | .error e, .error e' => e' = (Transcription.moved id).error e
    | _, _ => False := by
  obtain ⟨hs, rfl⟩ := hs
  obtain ⟨rfl, hv⟩ := related_iff.mp hv
  rw [Transcription.name_moved, id, hw.agree.declarable_eq hs]
  cases h.declarable s' name with
  | error e => exact (error_moved_id e).symm
  | ok _ => exact hw.modify hs (hw.closed.bind hv s' name constant)

def coupling (A : ScopeId → Prop) (h₀ : Store) : Coupling where
  transcription := .moved id
  Match := Unit
  grows _ _ := True
  scope _ := Inside A
  store _ := Store.Within A h₀
  grows_refl _ := trivial
  grows_trans _ _ := trivial
  scope_mono _ hs := hs
  scope_inj := inside_inj
  enter := enter_within
  lookup := lookup_within
  assign := assign_within
  declare := declare_within

end Reachability

/-! ## Runs -/

section

variable {σ τ : Type} {h : Store} {s : ScopeId}

/-- What a run that begins in `s` may ever come to: what it can reach, and all scopes to come. -/
def Store.Attainable (h : Store) (s t : ScopeId) : Prop := h.Reaches s t ∨ h.size ≤ t

theorem Store.closed_attainable (h : Store) (s : ScopeId) : h.Closed (h.Attainable s) := by
  refine ⟨fun {t p} ht hp => ?_, fun {t c name b} ht hb hc => ?_⟩
  · rcases ht with ht | ht
    · exact .inl (ht.parent hp)
    · rw [parent?, get?_eq_none ht] at hp
      cases hp
  · rcases ht with ht | ht
    · exact .inl (ht.captured hb hc)
    · rw [binding?, get?_eq_none ht] at hb
      cases hb

theorem Store.AgreeOn.attainable {h' : Store} (ha : AgreeOn (h.Reaches s) h h') : AgreeOn (h.Attainable s) h h' := by
  refine ⟨ha.size_eq, fun {t} ht => ?_⟩
  rcases ht with ht | ht
  · exact ha.get?_eq ht
  · rw [get?_eq_none ht, get?_eq_none (ha.size_eq ▸ ht)]

theorem Eval.result_within (bound : Nat) (stmt : Stmt) (s : ScopeId) (w : World σ) (w' : World τ)
    (ha : Store.AgreeOn (w.store.Reaches s) w.store w'.store) :
    ((evaluate bound stmt s).result w').1 = ((evaluate bound stmt s).result w).1 ∧
      Store.Within (w.store.Attainable s) w.store ((evaluate bound stmt s).result w).2.store
        ((evaluate bound stmt s).result w').2.store := by
  have hstart : Store.Within (w.store.Attainable s) w.store w.store w'.store :=
    ⟨ha.attainable, w.store.closed_attainable s, .inr, fun _ => rfl⟩
  have hrun := Coupling.evaluate_coupled (C := Reachability.coupling (w.store.Attainable s) w.store) (σ := σ) (τ := τ)
    bound () stmt s s ⟨.inl .refl, rfl⟩ w w' hstart
  have hstmt : (Reachability.coupling (w.store.Attainable s) w.store).transcription.stmt stmt = stmt :=
    Transcription.stmt_moved_id stmt
  rw [hstmt] at hrun
  unfold result
  revert hrun
  generalize (evaluate bound stmt s).run w = r
  generalize (evaluate bound stmt s).run w' = r'
  intro hrun
  cases hrun with
  | ok _ hs hv => exact ⟨congrArg Except.ok (Reachability.related_iff.mp hv).1, hs⟩
  | error _ hs => exact ⟨congrArg Except.error (Transcription.halt_moved id _), hs⟩

end

/-- Whatever the outcome, scopes out of reach stay exactly as they are. In any other store that has the same scopes
within reach, the outcome, the scopes within reach and all new scopes are the same. -/
theorem evaluate_stays_within_reach {σ τ : Type} (bound : Nat) (stmt : Stmt) (s : ScopeId) (w : World σ) :
    (∀ t < w.store.size, ¬ w.store.Reaches s t →
      ((Eval.evaluate bound stmt s).result w).2.store.get? t = w.store.get? t) ∧
    ∀ w' : World τ, Store.AgreeOn (w.store.Reaches s) w.store w'.store →
      ((Eval.evaluate bound stmt s).result w').1 = ((Eval.evaluate bound stmt s).result w).1 ∧
      Store.AgreeOn (fun t => w.store.Reaches s t ∨ w.store.size ≤ t) ((Eval.evaluate bound stmt s).result w).2.store
        ((Eval.evaluate bound stmt s).result w').2.store := by
  constructor
  · intro t hlt hreach
    obtain ⟨-, hwithin⟩ := Eval.result_within bound stmt s w w (.refl _ _)
    refine hwithin.outside fun ht => ?_
    rcases ht with ht | ht
    · exact hreach ht
    · exact absurd hlt (Nat.not_lt.mpr ht)
  · intro w' ha
    obtain ⟨hout, hwithin⟩ := Eval.result_within bound stmt s w w' ha
    exact ⟨hout, hwithin.agree⟩

namespace Reachability

/-- Two scopes are nested in the global one. The second binds a function that was declared in the global scope and
changes `x` there; the third has an `x` of its own. -/
def siblings (hidden : Value) : World Unit where
  store := ⟨#[⟨none, [(ascii "x", ⟨.boolean true, false⟩)]⟩,
    ⟨some 0, [(ascii "f", ⟨.function ⟨ascii "f", [], .declaredIn 0,
      [.expr (.assign (ascii "x") (.string (ascii "y")))]⟩, true⟩)]⟩,
    ⟨some 0, [(ascii "x", ⟨hidden, false⟩)]⟩]⟩
  trace := #[]
  host := ()

def callF : Stmt := .expr (.call (.identifier (ascii "f")) [])

theorem siblings_closed (hidden : Value) : (siblings hidden).store.Closed (· < 2) := by
  refine ⟨fun {t p} ht hp => ?_, fun {t c name b} ht hb hc => ?_⟩
  · match t, ht with
    | 0, _ => cases hp
    | 1, _ => cases hp; decide
  · match t, ht with
    | 0, _ =>
      obtain ⟨-, rfl⟩ := Prod.mk.inj (List.mem_singleton.mp (Operator.mem_of_lookup hb))
      cases hc
    | 1, _ =>
      obtain ⟨-, rfl⟩ := Prod.mk.inj (List.mem_singleton.mp (Operator.mem_of_lookup hb))
      cases hc
      decide

theorem siblings_agree (a b : Value) :
    Store.AgreeOn ((siblings a).store.Reaches 1) (siblings a).store (siblings b).store := by
  refine ⟨rfl, fun {t} ht => ?_⟩
  have hlt := ht.mem_of_closed (siblings_closed a) (by decide)
  match t, hlt with
  | 0, _ => rfl
  | 1, _ => rfl

theorem evaluate_siblings :
    ¬ (siblings .null).store.Reaches 1 2 ∧
    ((Eval.evaluate 9 callF 1).result (siblings .null)).2.store.get? 2 = (siblings .null).store.get? 2 ∧
    ((Eval.evaluate 9 callF 1).result (siblings .absent)).1 = ((Eval.evaluate 9 callF 1).result (siblings .null)).1 ∧
    ((Eval.evaluate 9 callF 1).result (siblings .absent)).2.store.get? 0 =
      ((Eval.evaluate 9 callF 1).result (siblings .null)).2.store.get? 0 := by
  have hreach : ¬ (siblings .null).store.Reaches 1 2 :=
    fun hr => absurd (hr.mem_of_closed (siblings_closed .null) (by decide)) (by decide)
  obtain ⟨hframe, hagree⟩ := evaluate_stays_within_reach (τ := Unit) 9 callF 1 (siblings .null)
  obtain ⟨hout, hstores⟩ := hagree (siblings .absent) (siblings_agree .null .absent)
  have hglobal : (siblings .null).store.Reaches 1 0 := .parent .refl rfl
  exact ⟨hreach, hframe 2 (by decide) hreach, hout, hstores.get?_eq (.inl hglobal)⟩

end Reachability

end BlockScript
