import BlockScript.Proofs.Repetition

/-!
# Declarations stay in their block

An expression may call functions, and these may declare whatever they like;
conditions and loops run blocks. All of it happens in scopes made for the
occasion. Of the scopes that exist already, only the one that a statement
stands in gains names by it, and only those that the statement declares itself.
-/

namespace BlockScript

/-! ## The names of a scope -/

def Scope.names (scope : Scope) : List Name := scope.bindings.map Prod.fst

theorem Scope.names_insert (scope : Scope) (name : Name) (b : Binding) :
    (scope.insert name b).names = scope.names ++ [name] := by
  simp [names, insert]

theorem Scope.names_update (scope : Scope) (name : Name) (v : Value) : (scope.update name v).names = scope.names := by
  unfold names update
  rw [List.map_map]
  refine List.map_congr_left fun p _ => ?_
  obtain ⟨n, b⟩ := p
  by_cases h : n = name <;> simp [h]

theorem Scope.mem_names {scope : Scope} {name : Name} : name ∈ scope.names ↔ (scope.find? name).isSome := by
  unfold names find?
  induction scope.bindings with
  | nil => simp
  | cons p bindings ih =>
    obtain ⟨n, b⟩ := p
    by_cases h : name = n
    · simp [h]
    · simp [List.lookup_cons, beq_false_of_ne h, h, ih]

namespace Store

def names (h : Store) (s : ScopeId) : List Name := ((h.get? s).map Scope.names).getD []

theorem mem_names {h : Store} {s : ScopeId} {name : Name} : name ∈ h.names s ↔ (h.binding? s name).isSome := by
  unfold names binding?
  cases h.get? s with
  | none => simp
  | some scope => exact Scope.mem_names

theorem names_add_empty (h : Store) (parent : Option ScopeId) (s : ScopeId) :
    (h.add (.empty parent)).names s = h.names s := by
  unfold names
  rw [get?_add]
  by_cases hs : s = h.size
  · rw [hs, if_pos rfl, get?_eq_none (Nat.le_refl _)]
    rfl
  · rw [if_neg hs]

theorem names_overwrite (h : Store) (s t : ScopeId) (name : Name) (v : Value) :
    (h.overwrite s name v).names t = h.names t := by
  unfold names overwrite
  rw [get?_modify]
  split
  · cases h.get? t with
    | none => rfl
    | some scope => exact Scope.names_update scope name v
  · rfl

theorem names_bind_of_ne {h : Store} {s t : ScopeId} (hts : t ≠ s) (name : Name) (b : Binding) :
    (h.bind s name b).names t = h.names t := by
  unfold names bind
  rw [get?_modify, if_neg hts.symm]

theorem names_bind_self {h : Store} {s : ScopeId} (hs : s < h.size) (name : Name) (b : Binding) :
    (h.bind s name b).names s = h.names s ++ [name] := by
  obtain ⟨scope, hscope⟩ : ∃ scope, h.get? s = some scope := ⟨_, Array.getElem?_eq_getElem hs⟩
  unfold names bind
  rw [get?_modify, if_pos rfl, hscope]
  exact Scope.names_insert scope name b

/-! ## Names that stay as they are -/

/-- The scopes of `h` are still there, with their parents, and those in `A` with exactly their names. -/
structure KeepsNames (A : ScopeId → Prop) (h h' : Store) : Prop where
  size_le : h.size ≤ h'.size
  parent_eq {t : ScopeId} : t < h.size → h'.parent? t = h.parent? t
  names_eq {t : ScopeId} : A t → t < h.size → h'.names t = h.names t

def Anywhere (_ : ScopeId) : Prop := True

variable {A : ScopeId → Prop} {h h₁ h₂ h₃ : Store} {s : ScopeId}

theorem KeepsNames.refl (A : ScopeId → Prop) (h : Store) : KeepsNames A h h :=
  ⟨Nat.le_refl _, fun _ => rfl, fun _ _ => rfl⟩

theorem KeepsNames.trans (h₁₂ : KeepsNames A h₁ h₂) (h₂₃ : KeepsNames A h₂ h₃) : KeepsNames A h₁ h₃ := by
  refine ⟨Nat.le_trans h₁₂.size_le h₂₃.size_le, fun {t} ht => ?_, fun {t} hA ht => ?_⟩
  · rw [h₂₃.parent_eq (Nat.lt_of_lt_of_le ht h₁₂.size_le), h₁₂.parent_eq ht]
  · rw [h₂₃.names_eq hA (Nat.lt_of_lt_of_le ht h₁₂.size_le), h₁₂.names_eq hA ht]

theorem KeepsNames.mono {B : ScopeId → Prop} (hAB : ∀ t, t < h₁.size → B t → A t) (h : KeepsNames A h₁ h₂) :
    KeepsNames B h₁ h₂ := ⟨h.size_le, h.parent_eq, fun hB ht => h.names_eq (hAB _ ht hB) ht⟩

theorem keepsNames_add (A : ScopeId → Prop) (h : Store) (parent : Option ScopeId) :
    KeepsNames A h (h.add (.empty parent)) := by
  refine ⟨Nat.le_of_lt (size_lt_size_add ..), fun {t} ht => ?_, fun _ _ => names_add_empty ..⟩
  rw [parent?_add, if_neg (Nat.ne_of_lt ht)]

theorem keepsNames_overwrite (A : ScopeId → Prop) (h : Store) (s : ScopeId) (name : Name) (v : Value) :
    KeepsNames A h (h.overwrite s name v) :=
  ⟨Nat.le_of_eq (size_overwrite ..).symm, fun _ => parent?_overwrite .., fun _ _ => names_overwrite ..⟩

theorem keepsNames_bind (h : Store) (s : ScopeId) (name : Name) (b : Binding) :
    KeepsNames (· ≠ s) h (h.bind s name b) :=
  ⟨Nat.le_of_eq (size_bind ..).symm, fun _ => parent?_bind .., fun ht _ => names_bind_of_ne ht name b⟩

/-! ## Names that are gained -/

/-- From `h` to `h'` the scope `s` gains these names, none of which it had, and no other scope gains or loses any. -/
structure Gains (h : Store) (s : ScopeId) (names : List Name) (h' : Store) : Prop where
  elsewhere : KeepsNames (· ≠ s) h h'
  here : h'.names s = h.names s ++ names
  fresh : ∀ name ∈ names, name ∉ h.names s
  nodup : names.Nodup

theorem KeepsNames.gains_nil (hs : s < h₁.size) (h : KeepsNames Anywhere h₁ h₂) : Gains h₁ s [] h₂ where
  elsewhere := h.mono fun _ _ _ => trivial
  here := by rw [h.names_eq trivial hs, List.append_nil]
  fresh := by simp
  nodup := .nil

theorem gains_bind (hs : s < h.size) {name : Name} (hname : h.binding? s name = none) (b : Binding) :
    Gains h s [name] (h.bind s name b) where
  elsewhere := keepsNames_bind h s name b
  here := names_bind_self hs name b
  fresh := by
    intro m hm
    rw [List.mem_singleton.mp hm, mem_names, hname]
    simp
  nodup := List.nodup_singleton name

theorem Gains.trans {names more : List Name} (h₁₂ : Gains h₁ s names h₂) (h₂₃ : Gains h₂ s more h₃) :
    Gains h₁ s (names ++ more) h₃ := by
  -- what is new the second time was not among the names of the first
  have hmore : ∀ name ∈ more, name ∉ h₁.names s ∧ name ∉ names := by
    intro name hname
    have hfresh := h₂₃.fresh name hname
    rw [h₁₂.here, List.mem_append] at hfresh
    exact not_or.mp hfresh
  refine ⟨h₁₂.elsewhere.trans h₂₃.elsewhere, ?_, ?_, ?_⟩
  · rw [h₂₃.here, h₁₂.here, List.append_assoc]
  · intro name hname
    rcases List.mem_append.mp hname with hname | hname
    · exact h₁₂.fresh name hname
    · exact (hmore name hname).1
  · refine List.nodup_append.mpr ⟨h₁₂.nodup, h₂₃.nodup, ?_⟩
    rintro name hname _ hname' rfl
    exact (hmore name hname').2 hname

end Store

/-! ## Expressions and blocks -/

def containment : Discipline where
  toStatics := persistence.toStatics
  inv _ := True
  value _ _ := True
  scope _ _ _ := True
  grows := Store.KeepsNames Store.Anywhere
  growsIn s := Store.KeepsNames (· ≠ s)
  stops _ := True
  expr_assign := persistence.expr_assign
  expr_binary := persistence.expr_binary
  expr_logical := persistence.expr_logical
  expr_unary := persistence.expr_unary
  expr_call := persistence.expr_call
  stmt_program := persistence.stmt_program
  stmt_declare := persistence.stmt_declare
  stmt_ifElse := persistence.stmt_ifElse
  stmt_while := persistence.stmt_while
  stmt_expr := persistence.stmt_expr
  grows_refl := .refl _
  grows_trans := .trans
  growsIn_of_grows h := h.mono fun _ _ _ => trivial
  growsIn_trans := .trans
  scope_mono _ hs := hs
  value_mono _ hv := hv
  value_plain _ := trivial
  enter _ _ _ := ⟨trivial, trivial⟩
  leave {h parent h'} hg := by
    -- the scope that is left is not one of `h`
    have hadd := Store.keepsNames_add (· ≠ h.size) h parent
    exact (hadd.trans hg).mono fun t ht _ => Nat.ne_of_lt ht
  call _ _ := ⟨trivial, (), trivial, Statics.block_of_forall _ (fun _ _ => trivial) ..⟩
  lookup {h s _ name} _ _ _ := by cases h.lookup s name <;> trivial
  assign {h s _ name e v} _ _ _ _ := by
    cases h.assignable s name with
    | error e => trivial
    | ok t => exact ⟨trivial, Store.keepsNames_overwrite ..⟩
  declare {h s _ kind name e v} _ _ _ _ := by
    cases h.declarable s name with
    | error e => trivial
    | ok _ => exact ⟨trivial, Store.keepsNames_bind .., trivial⟩
  function {h s _ name parameters body} _ _ _ := by
    cases h.declarable s name with
    | error e => trivial
    | ok _ => exact ⟨trivial, Store.keepsNames_bind .., trivial, trivial⟩
  stops_condition _ _ := trivial
  stops_operand _ _ := trivial
  stops_callee _ _ := trivial
  stops_arity _ _ _ := trivial
  stops_binary _ _ _ _ := trivial
  stops_unary _ _ _ := trivial
  stops_logical _ _ := trivial
  stops_missing _ := trivial
  stops_foreign _ := trivial

namespace Containment

open Discipline

variable {σ : Type} {exprs : ExprEvaluator σ} {s : ScopeId} {w : World σ}

abbrev Confined {α : Type} (m : Eval σ α) (w : World σ) : Prop :=
  containment.Ensures (Store.KeepsNames Store.Anywhere) m w fun _ _ => True

theorem Confined.mono {α : Type} {m : Eval σ α} {P : α → Store → Prop}
    (hm : containment.Ensures containment.grows m w P) : Confined m w :=
  Ensures.mono hm (fun _ h => h) fun _ _ _ _ _ => trivial

theorem runBlock_confined {eval : StmtEvaluator σ} (heval : containment.StmtSound eval) (body : Block) (s : ScopeId)
    (w : World σ) : Confined (Eval.runBlock eval body s) w :=
  .mono (runBlock_sound heval body trivial (Γ := ()) trivial (Statics.block_of_forall _ (fun _ _ => trivial) ..))

theorem condition_confined (hexprs : containment.ExprSound exprs) (construct : Construct) (check : Expr) (s : ScopeId)
    (w : World σ) : Confined (Eval.condition exprs construct check s) w :=
  condition_sound hexprs construct trivial (Γ := ()) trivial trivial

theorem chooseBranch_confined (hexprs : containment.ExprSound exprs) (otherwise : Option Block)
    (arms : List (Expr × Block)) (s : ScopeId) (w : World σ) : Confined (Eval.chooseBranch exprs s otherwise arms) w :=
  .mono (chooseBranch_sound (Γ := ()) hexprs (fun _ _ => Statics.block_of_forall _ (fun _ _ => trivial) ..) arms
    (fun _ _ => ⟨trivial, Statics.block_of_forall _ (fun _ _ => trivial) ..⟩) trivial trivial)

theorem runBranch_confined {eval : StmtEvaluator σ} (heval : containment.StmtSound eval) (branch : Option Block)
    (s : ScopeId) (w : World σ) : Confined (Eval.runBranch eval branch s) w :=
  .mono (runBranch_sound (Γ := ()) heval trivial trivial
    (fun _ _ => Statics.block_of_forall _ (fun _ _ => trivial) ..) trivial)

/-! ## Statements -/

theorem exec_confined (hexprs : containment.ExprSound exprs) {stmt : Stmt} (hp : stmt.isProgram = false)
    (hd : stmt.declares = []) (bound : Nat) (s : ScopeId) (w : World σ) : Confined (Eval.exec exprs bound stmt s) w := by
  -- only a loop runs itself again
  induction bound generalizing w with
  | zero => exact .exhausted trivial (.refl _ _)
  | succ bound ih =>
    have heval := exec_sound hexprs bound
    cases stmt with
    | program body => cases hp
    | declare kind name value => cases hd
    | function name parameters body => cases hd
    | ifElse check body arms otherwise =>
      refine .bind Store.KeepsNames.trans (chooseBranch_confined hexprs otherwise ((check, body) :: arms) s w) ?_
      intro branch w' _ _ _
      exact runBranch_confined heval branch s w'
    | whileLoop check body =>
      refine .bind Store.KeepsNames.trans (condition_confined hexprs .loop check s w) ?_
      intro b w' _ _ _
      cases b with
      | false => exact .pure trivial (.refl _ _) trivial
      | true =>
        refine .bind Store.KeepsNames.trans (runBlock_confined heval body s w') ?_
        intro _ w'' _ _ _
        exact ih w''
    | expr e => exact .mono (hexprs () e s w trivial trivial trivial)
    | missing => exact .fail trivial (.refl _ _) trivial
    | foreign type => exact .fail trivial (.refl _ _) trivial

def Ends (s : ScopeId) (names : List Name) (w : World σ) : EStateM.Result Halt (World σ) Value → Prop
  | .ok _ w' => w.store.Gains s names w'.store
  | .error _ w' => w.store.Gains s [] w'.store

theorem declare_ends (hs : s < w.store.size) (name : Name) (v : Value) (constant : Bool) :
    Ends s [name] w ((Eval.declare s name v constant).run w) := by
  rw [Eval.run_declare]
  cases hd : w.store.declarable s name with
  | ok _ => exact Store.gains_bind hs (Store.declarable_eq_ok hd) _
  | error e => exact (Store.KeepsNames.refl _ _).gains_nil hs

theorem Confined.ends {m : Eval σ Value} (hm : Confined m w) (hs : s < w.store.size) : Ends s [] w (m.run w) := by
  unfold Confined Ensures at hm
  unfold Ends
  cases hrun : m.run w <;> simp only [hrun] at hm <;> exact hm.2.1.gains_nil hs

theorem Confined.bind_ends {α : Type} {m : Eval σ α} {k : α → Eval σ Value} {names : List Name} (hm : Confined m w)
    (hs : s < w.store.size) (hk : ∀ a w', s < w'.store.size → Ends s names w' ((k a).run w')) :
    Ends s names w ((m >>= k).run w) := by
  unfold Confined Ensures at hm
  rw [Eval.run_bind]
  cases hrun : m.run w with
  | error halt w' =>
    simp only [hrun] at hm
    exact hm.2.1.gains_nil hs
  | ok a w' =>
    simp only [hrun] at hm
    have hfirst := hm.2.1.gains_nil hs
    have hsecond := hk a w' (Nat.lt_of_lt_of_le hs hm.2.1.size_le)
    simp only []
    unfold Ends at hsecond ⊢
    cases hrun' : (k a).run w' <;> simp only [hrun'] at hsecond <;> exact hfirst.trans hsecond

theorem exec_ends (hexprs : containment.ExprSound exprs) {stmt : Stmt} (hp : stmt.isProgram = false)
    (hs : s < w.store.size) (bound : Nat) : Ends s stmt.declares w ((Eval.exec exprs bound stmt s).run w) := by
  cases bound with
  | zero => exact (Store.KeepsNames.refl _ _).gains_nil hs
  | succ bound =>
    cases stmt with
    | declare kind name value =>
      have hinit : Confined (Eval.initialValue exprs value s) w :=
        .mono (initialValue_sound (Γ := ()) hexprs value trivial trivial fun _ _ => trivial)
      refine hinit.bind_ends hs ?_
      intro v w' hs'
      exact declare_ends (w := { w' with trace := w'.trace.push (.declare name kind (w'.store.depth s)) }) hs' name v _
    | function name parameters body =>
      exact declare_ends (w := { w with trace := w.trace.push (.declareFunction name (w.store.depth s)) }) hs name _ _
    | _ => exact (exec_confined hexprs hp rfl (bound + 1) s w).ends hs

/-! ## Lists of statements -/

structure FailsAt (eval : StmtEvaluator σ) (s : ScopeId) (last : Value) (body : Block) (w : World σ) (halt : Halt)
    (w' : World σ) (done : Block) (stmt : Stmt) (rest : Block) : Prop where
  parts : body = done ++ stmt :: rest
  fails : ∃ v w₁, (Eval.sequence eval s last done).run w = .ok v w₁ ∧ (eval stmt s).run w₁ = .error halt w'
  gains : w.store.Gains s (done.flatMap Stmt.declares) w'.store

theorem FailsAt.cons {eval : StmtEvaluator σ} {last v : Value} {first stmt : Stmt} {body done rest : Block}
    {w₁ w' : World σ} {halt : Halt} (hfirst : (eval first s).run w = .ok v w₁)
    (hgains : w.store.Gains s first.declares w₁.store) (h : FailsAt eval s v body w₁ halt w' done stmt rest) :
    FailsAt eval s last (first :: body) w halt w' (first :: done) stmt rest := by
  obtain ⟨hparts, ⟨u, w₂, hdone, hstmt⟩, hrest⟩ := h
  refine ⟨by rw [hparts, List.cons_append], ⟨u, w₂, ?_, hstmt⟩, ?_⟩
  · rw [Eval.sequence, Eval.run_bind, hfirst]
    exact hdone
  · rw [List.flatMap_cons]
    exact hgains.trans hrest

theorem sequence_gains (eval : StmtEvaluator σ) {body : Block}
    (heval : ∀ stmt ∈ body, ∀ w : World σ, s < w.store.size → Ends s stmt.declares w ((eval stmt s).run w))
    (hs : s < w.store.size) (last : Value) :
    match (Eval.sequence eval s last body).run w with
    | .ok _ w' => w.store.Gains s (body.flatMap Stmt.declares) w'.store
    | .error halt w' => ∃ done stmt rest, FailsAt eval s last body w halt w' done stmt rest := by
  induction body generalizing w last with
  | nil => exact (Store.KeepsNames.refl _ _).gains_nil hs
  | cons first body ih =>
    have hfirst := heval first List.mem_cons_self w hs
    unfold Ends at hfirst
    rw [Eval.sequence, Eval.run_bind]
    cases hrun : (eval first s).run w with
    | error halt w' =>
      simp only [hrun] at hfirst
      exact ⟨[], first, body, rfl, ⟨last, w, rfl, hrun⟩, hfirst⟩
    | ok v w₁ =>
      simp only [hrun] at hfirst
      have hs₁ := Nat.lt_of_lt_of_le hs hfirst.elsewhere.size_le
      have hbody := ih (fun stmt h => heval stmt (List.mem_cons_of_mem _ h)) hs₁ v
      simp only []
      cases hrun' : (Eval.sequence eval s v body).run w₁ with
      | ok u w' =>
        simp only [hrun'] at hbody
        rw [List.flatMap_cons]
        exact hfirst.trans hbody
      | error halt w' =>
        simp only [hrun'] at hbody
        obtain ⟨done, stmt, rest, hfails⟩ := hbody
        exact ⟨first :: done, stmt, rest, hfails.cons hrun hfirst⟩

end Containment

/-- In every store, and however the evaluation ends: an expression, a condition or a loop changes the names of no scope
that exists. A list of statements, none of which is a program, adds names to the scope it runs in and to no other one:
those of its declarations if it succeeds, and those of the declarations in front of the statement that fails. -/
theorem declarations_stay_in_their_block {σ : Type} (depth bound : Nat) (s : ScopeId) (w : World σ) :
    let eval : StmtEvaluator σ := Eval.exec (Eval.evalExpr depth) bound
    (∀ e, Store.KeepsNames Store.Anywhere w.store ((Eval.evalExpr depth e s).result w).2.store) ∧
    (∀ stmt, stmt.opensScope = true →
      Store.KeepsNames Store.Anywhere w.store ((eval stmt s).result w).2.store) ∧
    (∀ body, s < w.store.size → (∀ stmt ∈ body, stmt.isProgram = false) →
      (∀ v w', (Eval.runIn eval body s).run w = .ok v w' →
        w.store.Gains s (body.flatMap Stmt.declares) w'.store) ∧
      ∀ halt w', (Eval.runIn eval body s).run w = .error halt w' →
        ∃ done stmt rest v w₁, body = done ++ stmt :: rest ∧ (Eval.runIn eval done s).run w = .ok v w₁ ∧
          (eval stmt s).run w₁ = .error halt w' ∧ w.store.Gains s (done.flatMap Stmt.declares) w'.store) := by
  intro eval
  have hexprs : containment.ExprSound (Eval.evalExpr depth : ExprEvaluator σ) := Discipline.evalExpr_sound depth
  refine ⟨?_, ?_, ?_⟩
  · intro e
    exact (hexprs () e s w trivial trivial trivial).result.2
  · intro stmt hopens
    have hp : stmt.isProgram = false := by cases stmt <;> first | rfl | cases hopens
    have hd : stmt.declares = [] := by cases stmt <;> first | rfl | cases hopens
    exact (Containment.exec_confined hexprs hp hd bound s w).result.2
  · intro body hs hflat
    have hlist := Containment.sequence_gains eval
      (w := { w with trace := w.trace.push (.enterBlock (w.store.depth s)) })
      (fun stmt h _ hs => Containment.exec_ends hexprs (hflat stmt h) hs bound) hs .null
    constructor
    · intro v w' hrun
      change (Eval.sequence eval s .null body).run _ = _ at hrun
      rw [hrun] at hlist
      exact hlist
    · intro halt w' hrun
      change (Eval.sequence eval s .null body).run _ = _ at hrun
      rw [hrun] at hlist
      obtain ⟨done, stmt, rest, hparts, ⟨v, w₁, hdone, hstmt⟩, hgains⟩ := hlist
      exact ⟨done, stmt, rest, v, w₁, hparts, hdone, hstmt, hgains⟩

namespace Containment

/-- The function declares names wherever it is called, its own among them. It is called twice, the second time in the
initial value of a declaration that fails. -/
def busy : Block :=
  [.function (ascii "f") [] [.declare .var (ascii "x") none, .program [.function (ascii "f") [] []]],
   .declare .var (ascii "a") (some (.call (.identifier (ascii "f")) [])),
   .ifElse (.identifier (ascii "true")) [.declare .const (ascii "b") (some (.identifier (ascii "f")))] [] none,
   .declare .final (ascii "a") (some (.call (.identifier (ascii "f")) [])),
   .declare .var (ascii "c") none]

theorem exists_of_ok {σ : Type} {m : Eval σ Value} {w : World σ} (h : (m.result w).1.map (fun _ => ()) = .ok ()) :
    ∃ v w', m.run w = .ok v w' := by
  unfold Eval.result at h
  cases hrun : m.run w with
  | ok v w' => exact ⟨v, w', rfl⟩
  | error halt w' =>
    rw [hrun] at h
    cases h

theorem exists_of_error {σ : Type} {m : Eval σ Value} {w : World σ} {halt : Halt}
    (h : (m.result w).1.map (fun _ => ()) = .error halt) : ∃ w', m.run w = .error halt w' := by
  unfold Eval.result at h
  cases hrun : m.run w with
  | ok v w' =>
    rw [hrun] at h
    cases h
  | error halt w' =>
    rw [hrun] at h
    injection h with h
    exact ⟨w', by rw [h]⟩

theorem run_busy :
    (∀ stmt ∈ busy, stmt.isProgram = false) ∧ globalScope < Store.initial.size ∧
    (∃ v w', (Eval.runIn (Eval.exec (Eval.evalExpr 9) 9) (busy.take 3) globalScope).run World.initial = .ok v w' ∧
      Store.initial.Gains globalScope [ascii "f", ascii "a"] w'.store) ∧
    (∃ w', (Eval.runIn (Eval.exec (Eval.evalExpr 9) 9) busy globalScope).run World.initial =
        .error (.failed (.duplicateDeclaration (ascii "a"))) w' ∧
      ∃ done stmt rest, busy = done ++ stmt :: rest ∧
        Store.initial.Gains globalScope (done.flatMap Stmt.declares) w'.store) ∧
    Store.KeepsNames Store.Anywhere Store.initial
      ((Eval.exec (Eval.evalExpr 9) 9 (.ifElse (.identifier (ascii "true")) busy [] none) globalScope).result
        World.initial).2.store := by
  obtain ⟨-, hopens, hlist⟩ := declarations_stay_in_their_block 9 9 globalScope World.initial
  have hflat : ∀ stmt ∈ busy, stmt.isProgram = false := by decide
  have hs : globalScope < Store.initial.size := by decide
  refine ⟨hflat, hs, ?_, ?_, hopens _ rfl⟩
  · have hok : ((Eval.runIn (Eval.exec (Eval.evalExpr 9) 9) (busy.take 3) globalScope).result World.initial).1.map
        (fun _ => ()) = .ok () := by decide +kernel
    obtain ⟨v, w', hrun⟩ := exists_of_ok hok
    exact ⟨v, w', hrun, (hlist (busy.take 3) hs fun stmt h => hflat stmt (List.mem_of_mem_take h)).1 v w' hrun⟩
  · have hfails : ((Eval.runIn (Eval.exec (Eval.evalExpr 9) 9) busy globalScope).result World.initial).1.map
        (fun _ => ()) = .error (.failed (.duplicateDeclaration (ascii "a"))) := by decide +kernel
    obtain ⟨w', hrun⟩ := exists_of_error hfails
    obtain ⟨done, stmt, rest, -, -, hparts, -, -, hgains⟩ := (hlist busy hs hflat).2 _ w' hrun
    exact ⟨w', hrun, done, stmt, rest, hparts, hgains⟩

end Containment

end BlockScript
