import Mathlib.Data.List.Nodup
import BlockScript.Proofs.Passages

/-!
# A name declared twice is written twice

Every run of a block and every call has a scope of its own, and nothing else
declares names in a scope that is in use. So what a scope binds while a
passage runs in it are the names that the passage has declared so far, and a
declaration can only fail where the same passage declares the name twice. How
often loops and calls repeat a passage does not matter.
-/

namespace BlockScript

/-! ## Repeated names -/

def Program.Repeats (program : Program) (name : Name) : Prop :=
  ∃ p ∈ program.passages, 2 ≤ p.declares.count name

def Stmt.isProgram : Stmt → Bool
  | .program _ => true
  | _ => false

def Program.isFlat (program : Program) : Bool := program.passages.all fun p => p.body.all fun stmt => !stmt.isProgram

theorem Stmt.StandsIn.isProgram_eq {program : Program} (hflat : program.isFlat = true) {depth : Nat} {stmt : Stmt}
    (h : stmt.StandsIn program depth) : stmt.isProgram = false := by
  obtain ⟨p, hp, -, hs⟩ := h
  have hbody := List.all_eq_true.mp hflat p hp
  simpa using List.all_eq_true.mp hbody stmt hs

/-! ## Names that are added -/

namespace Store

/-- Of the scopes in `A`, none binds a name that it did not bind before. -/
structure AddsNoNames (A : ScopeId → Prop) (h h' : Store) : Prop where
  size_le : h.size ≤ h'.size
  bound {s : ScopeId} {name : Name} : A s → s < h.size → (h'.binding? s name).isSome → (h.binding? s name).isSome

variable {A : ScopeId → Prop} {h h₁ h₂ h₃ : Store}

theorem AddsNoNames.refl (A : ScopeId → Prop) (h : Store) : AddsNoNames A h h := ⟨Nat.le_refl _, fun _ _ hb => hb⟩

theorem AddsNoNames.trans (h₁₂ : AddsNoNames A h₁ h₂) (h₂₃ : AddsNoNames A h₂ h₃) : AddsNoNames A h₁ h₃ := by
  refine ⟨Nat.le_trans h₁₂.size_le h₂₃.size_le, ?_⟩
  intro s name hs hlt hb
  exact h₁₂.bound hs hlt (h₂₃.bound hs (Nat.lt_of_lt_of_le hlt h₁₂.size_le) hb)

theorem AddsNoNames.mono {B : ScopeId → Prop} (hAB : ∀ s, s < h₁.size → B s → A s) (h : AddsNoNames A h₁ h₂) :
    AddsNoNames B h₁ h₂ := ⟨h.size_le, fun hs hlt hb => h.bound (hAB _ hlt hs) hlt hb⟩

theorem addsNoNames_add (A : ScopeId → Prop) (h : Store) (parent : Option ScopeId) :
    AddsNoNames A h (h.add (.empty parent)) := by
  refine ⟨Nat.le_of_lt (size_lt_size_add ..), ?_⟩
  intro s name _ _ hb
  rwa [binding?_add_empty] at hb

theorem addsNoNames_overwrite (A : ScopeId → Prop) (h : Store) (s : ScopeId) (name : Name) (v : Value) :
    AddsNoNames A h (h.overwrite s name v) := by
  refine ⟨Nat.le_of_eq (size_overwrite ..).symm, ?_⟩
  intro t m _ _ hb
  rwa [binding?_overwrite, Option.isSome_map] at hb

theorem addsNoNames_bind (h : Store) (s : ScopeId) (name : Name) (b : Binding) :
    AddsNoNames (· ≠ s) h (h.bind s name b) := by
  refine ⟨Nat.le_of_eq (size_bind ..).symm, ?_⟩
  intro t m ht _ hb
  have hcond : ¬ (t = s ∧ t < h.size ∧ m = name) := fun hc => ht hc.1
  rwa [binding?_bind, if_neg hcond, Option.or_none] at hb

def BindsOnly (h : Store) (s : ScopeId) (names : List Name) : Prop :=
  s < h.size ∧ ∀ name, (h.binding? s name).isSome → name ∈ names

theorem BindsOnly.mono {s : ScopeId} {names : List Name} (hs : h₁.BindsOnly s names) (hA : A s)
    (h : AddsNoNames A h₁ h₂) : h₂.BindsOnly s names :=
  ⟨Nat.lt_of_lt_of_le hs.1 h.size_le, fun name hb => hs.2 name (h.bound hA hs.1 hb)⟩

theorem bindsOnly_add (h : Store) (parent : Option ScopeId) : (h.add (.empty parent)).BindsOnly h.size [] := by
  refine ⟨size_lt_size_add .., ?_⟩
  intro name hb
  rw [binding?_add_empty, binding?, get?_eq_none (Nat.le_refl _)] at hb
  cases hb

theorem BindsOnly.bind {s : ScopeId} {names : List Name} (hs : h.BindsOnly s names) (name : Name) (b : Binding) :
    (h.bind s name b).BindsOnly s (name :: names) := by
  refine ⟨Nat.lt_of_lt_of_eq hs.1 (size_bind ..).symm, ?_⟩
  intro m hb
  rw [binding?_bind] at hb
  by_cases hm : m = name
  · exact hm ▸ List.mem_cons_self
  · have hcond : ¬ (s = s ∧ s < h.size ∧ m = name) := fun hc => hm hc.2.2
    rw [if_neg hcond, Option.or_none] at hb
    exact List.mem_cons_of_mem _ (hs.2 m hb)

end Store

/-! ## What a passage declares -/

def Value.IsDeclaredIn (program : Program) (v : Value) : Prop :=
  ∀ f, v = .function f → ∃ depth, (Stmt.function f.name f.parameters f.body).StandsIn program depth

theorem Value.isDeclaredIn_of_plain {program : Program} {v : Value} (hv : v.isPlain = true) : v.IsDeclaredIn program := by
  intro f hf
  subst hf
  cases hv

/-- A context lists the names that the scope binds. A statement may declare one of them again only where the program
repeats it. -/
def repetitionStatics (program : Program) : Statics where
  Context := List Name
  inner _ := []
  declared names name := name :: names
  expr _ _ := True
  stmt names stmt := (∃ depth, stmt.IsAllowed program depth) ∧ ∀ name ∈ stmt.declares, name ∈ names → program.Repeats name

section

variable {program : Program}

theorem repetition_after (names : List Name) {stmt : Stmt} (h : stmt.isProgram = false) :
    (repetitionStatics program).after names stmt = stmt.declares ++ names := by
  cases stmt with
  | program body => cases h
  | _ => simp [Statics.after, Stmt.declares, repetitionStatics]

theorem isProgram_of_isAllowed (hflat : program.isFlat = true) {depth : Nat} {stmt : Stmt}
    (h : stmt.IsAllowed program depth) : stmt.isProgram = false := by
  rcases h with ⟨kind, name, value, rfl⟩ | h
  · rfl
  · exact h.isProgram_eq hflat

theorem repetition_block (hflat : program.isFlat = true) (done : Block) {rest : Block} {names : List Name}
    (hrest : ∀ stmt ∈ rest, ∃ depth, stmt.IsAllowed program depth)
    (hdone : ∀ name ∈ names, name ∈ done.flatMap Stmt.declares)
    (htwice : ∀ name, 2 ≤ ((done ++ rest).flatMap Stmt.declares).count name → program.Repeats name) :
    (repetitionStatics program).block names rest := by
  -- On what is left to run: `done` has run already, and what it declares is all that is bound.
  induction rest generalizing done names with
  | nil => trivial
  | cons stmt rest ih =>
    have hstmt := hrest stmt List.mem_cons_self
    refine ⟨⟨hstmt, ?_⟩, ?_⟩
    · intro name hdeclares hname
      have hbefore := List.count_pos_iff.mpr (hdone name hname)
      have hhere := List.count_pos_iff.mpr hdeclares
      apply htwice
      simp only [List.flatMap_append, List.flatMap_cons, List.count_append]
      omega
    · obtain ⟨depth, hallowed⟩ := hstmt
      rw [repetition_after names (isProgram_of_isAllowed hflat hallowed)]
      refine ih (done ++ [stmt]) (fun s hs => hrest s (List.mem_cons_of_mem _ hs)) ?_ ?_
      · intro name hname
        rw [List.flatMap_append, List.flatMap_singleton]
        rcases List.mem_append.mp hname with hname | hname
        · exact List.mem_append_right _ hname
        · exact List.mem_append_left _ (hdone name hname)
      · rwa [List.append_assoc, List.singleton_append]

theorem flatMap_declares_parameters (names : List Name) :
    (names.map fun name => Stmt.declare .var name none).flatMap Stmt.declares = names := by
  induction names with
  | nil => rfl
  | cons name names ih => rw [List.map_cons, List.flatMap_cons, ih, Stmt.declares, List.singleton_append]

theorem repetition_whole (hflat : program.isFlat = true) {p : Passage} (hp : p ∈ program.passages) :
    (repetitionStatics program).block ([] : List Name) ((p.given.map fun name => .declare .var name none) ++ p.body) := by
  refine repetition_block hflat [] ?_ (by simp) ?_
  · intro stmt hs
    rcases List.mem_append.mp hs with hs | hs
    · obtain ⟨name, -, rfl⟩ := List.mem_map.mp hs
      exact ⟨0, .inl ⟨.var, name, none, rfl⟩⟩
    · exact ⟨p.depth, .inr (.of_mem hp hs)⟩
  · intro name htwice
    rw [List.nil_append, List.flatMap_append, flatMap_declares_parameters] at htwice
    exact ⟨p, hp, htwice⟩

theorem repetition_body (hflat : program.isFlat = true) {depth : Nat} {body : Block}
    (hp : ⟨depth, [], body⟩ ∈ program.passages) : (repetitionStatics program).block ([] : List Name) body :=
  repetition_whole hflat hp

theorem repetition_top (hflat : program.isFlat = true) : (repetitionStatics program).block globalNames program := by
  have htop : ⟨0, globalNames, program⟩ ∈ program.passages := List.mem_cons_self
  refine repetition_block hflat (globalNames.map fun name => .declare .var name none) ?_ ?_ ?_
  · intro stmt hs
    exact ⟨0, .inr (.of_mem htop hs)⟩
  · intro name hname
    rwa [flatMap_declares_parameters]
  · intro name htwice
    rw [List.flatMap_append, flatMap_declares_parameters] at htwice
    exact ⟨_, htop, htwice⟩

end

/-! ## The discipline -/

def RuntimeError.IsWarranted (program : Program) (e : RuntimeError) : Prop :=
  ∀ name, e = .duplicateDeclaration name → program.Repeats name

theorem Store.isWarranted_of_declarable {program : Program} {h : Store} {s : ScopeId} {names : List Name} {name : Name}
    {e : RuntimeError} (hs : h.BindsOnly s names) (hrepeats : name ∈ names → program.Repeats name)
    (hd : h.declarable s name = .error e) : e.IsWarranted program := by
  have he := declarable_eq_error hd
  have hbound : (h.binding? s name).isSome := by
    unfold declarable at hd
    split at hd
    · simp [*]
    · cases hd
  subst he
  intro m hm
  cases hm
  exact hrepeats (hs.2 name hbound)

def singleDeclaration (program : Program) (hflat : program.isFlat = true) : Discipline where
  toStatics := repetitionStatics program
  inv h := h.Holds (Value.IsDeclaredIn program)
  value _ v := v.IsDeclaredIn program
  scope h s := fun names : List Name => h.BindsOnly s names
  grows := Store.AddsNoNames fun _ => True
  growsIn s := Store.AddsNoNames (· ≠ s)
  stops := RuntimeError.IsWarranted program
  expr_assign _ := trivial
  expr_binary _ := ⟨trivial, trivial⟩
  expr_logical _ := ⟨trivial, trivial⟩
  expr_unary _ := trivial
  expr_call _ := ⟨trivial, fun _ _ => trivial⟩
  stmt_program hs := by
    obtain ⟨depth, hallowed⟩ := hs.1
    cases isProgram_of_isAllowed hflat hallowed
  stmt_declare _ := trivial
  stmt_ifElse hs := by
    obtain ⟨depth, hallowed⟩ := hs.1
    have hstands := hallowed.standsIn (by simp)
    refine ⟨fun arm ha => ⟨trivial, repetition_body hflat (hstands.arm ha)⟩, ?_⟩
    rintro rest rfl
    exact repetition_body hflat hstands.otherwise
  stmt_while hs := by
    obtain ⟨depth, hallowed⟩ := hs.1
    exact ⟨trivial, repetition_body hflat (hallowed.standsIn (by simp)).whileLoop⟩
  stmt_expr _ := trivial
  grows_refl := .refl _
  grows_trans := .trans
  growsIn_of_grows h := h.mono fun _ _ _ => trivial
  growsIn_trans := .trans
  scope_mono h hs := hs.mono trivial h
  value_mono _ hv := hv
  value_plain := Value.isDeclaredIn_of_plain
  enter hi _ _ := ⟨hi.add _, Store.bindsOnly_add ..⟩
  leave {h parent h'} hg := by
    -- Only the scope that is left got new names, and before the block there was no such scope.
    have hadd := Store.addsNoNames_add (· ≠ h.size) h parent
    exact (hadd.trans hg).mono fun s hs _ => Nat.ne_of_lt hs
  call {h f} hi hv := by
    obtain ⟨depth, hstands⟩ := hv f rfl
    exact ⟨hi.add _, [], Store.bindsOnly_add .., repetition_whole hflat hstands.function⟩
  lookup {h s _ name} hi _ _ := by
    cases hl : h.lookup s name with
    | error e =>
      rw [Store.lookup_eq_error hl]
      intro m hm
      cases hm
    | ok v =>
      obtain ⟨t, b, -, hb, rfl⟩ := Store.lookup_eq_ok hl
      exact hi hb
  assign {h s _ name e v} hi _ _ hv := by
    cases ha : h.assignable s name with
    | error e =>
      intro m hm
      rcases Store.assignable_eq_error ha with rfl | rfl <;> cases hm
    | ok t => exact ⟨hi.overwrite hv t name, Store.addsNoNames_overwrite ..⟩
  declare {h s names kind name e v} hi hs hstmt hv := by
    cases hd : h.declarable s name with
    | error e => exact Store.isWarranted_of_declarable hs (hstmt.2 name (by simp [Stmt.declares])) hd
    | ok _ => exact ⟨hi.bind hv s name kind.isConstant, Store.addsNoNames_bind .., hs.bind name _⟩
  function {h s names name parameters body} hi hs hstmt := by
    have hv : (Value.function ⟨name, parameters, .declaredIn s, body⟩).IsDeclaredIn program := by
      rintro f ⟨⟩
      obtain ⟨depth, hallowed⟩ := hstmt.1
      exact ⟨depth, hallowed.standsIn (by simp)⟩
    cases hd : h.declarable s name with
    | error e => exact Store.isWarranted_of_declarable hs (hstmt.2 name (by simp [Stmt.declares])) hd
    | ok _ => exact ⟨hi.bind hv s name true, Store.addsNoNames_bind .., hs.bind name _, hv⟩
  stops_condition _ _ := by intro m hm; cases hm
  stops_operand _ _ := by intro m hm; cases hm
  stops_callee _ _ := by intro m hm; cases hm
  stops_arity _ _ _ := by intro m hm; cases hm
  stops_binary _ _ _ he := by rw [Operator.applyBinary_eq_error he]; intro m hm; cases hm
  stops_unary _ _ he := by rw [Operator.applyUnary_eq_error he]; intro m hm; cases hm
  stops_logical _ _ := by intro m hm; cases hm
  stops_missing _ := by intro m hm; cases hm
  stops_foreign _ := by intro m hm; cases hm

theorem initial_bindsOnly : Store.initial.BindsOnly globalScope globalNames := by
  refine ⟨by decide, ?_⟩
  intro name hb
  obtain ⟨b, hb⟩ := Option.isSome_iff_exists.mp hb
  have hmem : (name, b) ∈ Scope.globals.bindings := Operator.mem_of_lookup hb
  simp only [Scope.globals, List.mem_cons, Prod.mk.injEq, List.not_mem_nil, or_false] at hmem
  rcases hmem with ⟨rfl, -⟩ | ⟨rfl, -⟩ | ⟨rfl, -⟩ <;> simp [globalNames]

/-- If a run fails because a name is declared already, some passage of the program declares that name twice. So a
program without such a passage never fails for this reason. -/
theorem run_duplicateDeclaration_repeats (program : Program) (hflat : program.isFlat = true) :
    (∀ bound name, (program.run bound).1 = .error (.failed (.duplicateDeclaration name)) →
      ∃ p ∈ program.passages, 2 ≤ p.declares.count name) ∧
    ((∀ p ∈ program.passages, p.declares.Nodup) →
      ∀ bound name, (program.run bound).1 ≠ .error (.failed (.duplicateDeclaration name))) := by
  have hinit : Store.initial.Holds (Value.IsDeclaredIn program) :=
    Store.initial_plain.mono fun _ => Value.isDeclaredIn_of_plain
  have hrepeats : ∀ bound name, (program.run bound).1 = .error (.failed (.duplicateDeclaration name)) →
      program.Repeats name := by
    intro bound name h
    obtain ⟨-, -, hstops⟩ := Discipline.run_sound (D := singleDeclaration program hflat) hinit initial_bindsOnly
      (repetition_top hflat) bound
    exact hstops _ h name rfl
  refine ⟨hrepeats, ?_⟩
  intro hnodup bound name h
  obtain ⟨p, hp, htwice⟩ := hrepeats bound name h
  have honce := List.nodup_iff_count_le_one.mp (hnodup p hp) name
  omega

namespace Repetition

def twins : Program :=
  [.function (ascii "f") [ascii "a", ascii "a"] [],
   .expr (.call (.identifier (ascii "f")) [.identifier (ascii "true"), .identifier (ascii "true")])]

/-- The body of a loop runs twice, and a function calls itself from a condition. All of them declare the same name. -/
def apart : Program :=
  [.declare .var (ascii "more") (some (.identifier (ascii "true"))),
   .declare .var (ascii "last") (some (.identifier (ascii "true"))),
   .whileLoop (.identifier (ascii "more"))
     [.declare .final (ascii "x") none, .expr (.assign (ascii "more") (.identifier (ascii "last"))),
      .expr (.assign (ascii "last") (.identifier (ascii "false")))],
   .function (ascii "f") [ascii "x"]
     [.ifElse (.identifier (ascii "x"))
       [.declare .var (ascii "x") (some (.call (.identifier (ascii "f")) [.identifier (ascii "false")]))] [] none],
   .expr (.call (.identifier (ascii "f")) [.identifier (ascii "true")])]

theorem run_twins_apart :
    (twins.isFlat = true ∧ (twins.run 20).1.map (fun _ => ()) = .error (.failed (.duplicateDeclaration (ascii "a"))) ∧
      ∃ p ∈ twins.passages, 2 ≤ p.declares.count (ascii "a")) ∧
    apart.isFlat = true ∧ (∀ p ∈ apart.passages, p.declares.Nodup) ∧ (apart.run 40).2.store.size = 6 ∧
      ∀ name, (apart.run 40).1 ≠ .error (.failed (.duplicateDeclaration name)) := by
  have htwins : twins.isFlat = true := by decide +kernel
  have hapart : apart.isFlat = true := by decide +kernel
  have hnodup : ∀ p ∈ apart.passages, p.declares.Nodup := by decide +kernel
  have hfails : (twins.run 20).1.map (fun _ => ()) = .error (.failed (.duplicateDeclaration (ascii "a"))) := by
    decide +kernel
  refine ⟨⟨htwins, hfails, ?_⟩, hapart, hnodup, by decide +kernel, ?_⟩
  · refine (run_duplicateDeclaration_repeats twins htwins).1 20 _ ?_
    cases hrun : (twins.run 20).1 with
    | ok v =>
      rw [hrun] at hfails
      cases hfails
    | error halt =>
      rw [hrun] at hfails
      injection hfails with hhalt
      rw [hhalt]
  · exact (run_duplicateDeclaration_repeats apart hapart).2 hnodup 40

end Repetition

end BlockScript
