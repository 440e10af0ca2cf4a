import BlockScript.Proofs.Persistence

/-!
# Soundness of lexical scoping

A program is well-scoped if every name it uses is declared where the text says
so: earlier in the same list of statements, or around it. The scope that a
statement runs in then always finds the names that the text makes visible,
however the functions declared on the way are stored, passed on and called.
-/

namespace BlockScript

/-! ## Well-scoped programs -/

namespace Expr

mutual

def wellScoped (visible : List Name) : Expr → Bool
  | .identifier name => visible.contains name
  | .assign name value => visible.contains name && value.wellScoped visible
  | .binary _ left right => left.wellScoped visible && right.wellScoped visible
  | .logical _ left right => left.wellScoped visible && right.wellScoped visible
  | .unary _ operand => operand.wellScoped visible
  | .call callee arguments => callee.wellScoped visible && allWellScoped visible arguments
  | .number _ | .string _ | .missing | .foreign _ => true

def allWellScoped (visible : List Name) : List Expr → Bool
  | [] => true
  | e :: rest => e.wellScoped visible && allWellScoped visible rest

end

end Expr

namespace Stmt

def declares : Stmt → List Name
  | .declare _ name _ => [name]
  | .function name _ _ => [name]
  | _ => []

mutual

/-- A declaration does not see the name it declares, but the body of a function does, and the parameters too. No
program stands inside another. -/
def wellScoped (visible : List Name) : Stmt → Bool
  | .program _ => false
  | .declare _ _ none => true
  | .declare _ _ (some value) => value.wellScoped visible
  | .function name parameters body => blockWellScoped (parameters.reverse ++ name :: visible) body
  | .ifElse check body arms otherwise =>
    check.wellScoped visible && blockWellScoped visible body && armsWellScoped visible arms &&
      elseWellScoped visible otherwise
  | .whileLoop check body => check.wellScoped visible && blockWellScoped visible body
  | .expr value => value.wellScoped visible
  | .missing | .foreign _ => true

def blockWellScoped (visible : List Name) : List Stmt → Bool
  | [] => true
  | stmt :: rest => stmt.wellScoped visible && blockWellScoped (stmt.declares ++ visible) rest

def armsWellScoped (visible : List Name) : List (Expr × List Stmt) → Bool
  | [] => true
  | (check, body) :: rest => check.wellScoped visible && blockWellScoped visible body && armsWellScoped visible rest

def elseWellScoped (visible : List Name) : Option (List Stmt) → Bool
  | none => true
  | some body => blockWellScoped visible body

end

end Stmt

def globalNames : List Name := [ascii "true", ascii "false", ascii "null"]

def Program.wellScoped (program : Program) : Bool := Stmt.blockWellScoped globalNames program

namespace Expr

variable {visible : List Name} {name : Name} {t : Token} {e left right : Expr}

theorem identifier_wellScoped (h : (identifier name).wellScoped visible = true) : name ∈ visible := by
  simpa [wellScoped] using h

theorem assign_wellScoped (h : (assign name e).wellScoped visible = true) :
    name ∈ visible ∧ e.wellScoped visible = true := by
  simpa [wellScoped] using h

theorem binary_wellScoped (h : (binary t left right).wellScoped visible = true) :
    left.wellScoped visible = true ∧ right.wellScoped visible = true := by
  simpa [wellScoped] using h

theorem logical_wellScoped (h : (logical t left right).wellScoped visible = true) :
    left.wellScoped visible = true ∧ right.wellScoped visible = true := by
  simpa [wellScoped] using h

theorem unary_wellScoped (h : (unary t e).wellScoped visible = true) : e.wellScoped visible = true := by
  simpa [wellScoped] using h

theorem wellScoped_of_mem {es : List Expr} (h : allWellScoped visible es = true) :
    ∀ e ∈ es, e.wellScoped visible = true := by
  induction es with
  | nil => intro e he; cases he
  | cons e es ih =>
    simp only [allWellScoped, Bool.and_eq_true] at h
    intro e' he'
    rcases List.mem_cons.mp he' with rfl | he'
    · exact h.1
    · exact ih h.2 e' he'

theorem call_wellScoped {es : List Expr} (h : (call e es).wellScoped visible = true) :
    e.wellScoped visible = true ∧ ∀ e ∈ es, e.wellScoped visible = true := by
  simp only [wellScoped, Bool.and_eq_true] at h
  exact ⟨h.1, wellScoped_of_mem h.2⟩

end Expr

theorem Stmt.not_wellScoped_program {visible : List Name} {body : List Stmt} :
    ¬ (program body).wellScoped visible = true := by
  simp [wellScoped]

theorem Stmt.arms_of_mem {visible : List Name} {arms : List (Expr × List Stmt)}
    (h : armsWellScoped visible arms = true) :
    ∀ arm ∈ arms, arm.1.wellScoped visible = true ∧ blockWellScoped visible arm.2 = true := by
  induction arms with
  | nil => intro arm ha; cases ha
  | cons arm arms ih =>
    simp only [armsWellScoped, Bool.and_eq_true] at h
    intro arm' ha
    rcases List.mem_cons.mp ha with rfl | ha
    · exact h.1
    · exact ih h.2 arm' ha

def scopingStatics : Statics where
  Context := List Name
  inner := id
  declared visible name := name :: visible
  expr visible e := e.wellScoped visible = true
  stmt visible stmt := stmt.wellScoped visible = true

theorem scoping_after {visible : List Name} {stmt : Stmt} (h : stmt.wellScoped visible = true) :
    scopingStatics.after visible stmt = stmt.declares ++ visible := by
  cases stmt with
  | program body => exact absurd h Stmt.not_wellScoped_program
  | _ => simp [Statics.after, Stmt.declares, scopingStatics]

theorem scoping_block {visible : List Name} {body : List Stmt} (h : Stmt.blockWellScoped visible body = true) :
    scopingStatics.block visible body := by
  induction body generalizing visible with
  | nil => trivial
  | cons stmt body ih =>
    simp only [Stmt.blockWellScoped, Bool.and_eq_true] at h
    refine ⟨h.1, ?_⟩
    rw [scoping_after h.1]
    exact ih h.2

theorem scoping_ifElse {visible : List Name} {check : Expr} {body : List Stmt} {arms : List (Expr × List Stmt)}
    {otherwise : Option (List Stmt)} (h : (Stmt.ifElse check body arms otherwise).wellScoped visible = true) :
    (∀ arm ∈ (check, body) :: arms, arm.1.wellScoped visible = true ∧ scopingStatics.block visible arm.2) ∧
      ∀ rest, otherwise = some rest → scopingStatics.block visible rest := by
  simp only [Stmt.wellScoped, Bool.and_eq_true] at h
  obtain ⟨⟨⟨hcheck, hbody⟩, harms⟩, helse⟩ := h
  refine ⟨?_, ?_⟩
  · intro arm ha
    rcases List.mem_cons.mp ha with rfl | ha
    · exact ⟨hcheck, scoping_block hbody⟩
    · obtain ⟨hc, hb⟩ := Stmt.arms_of_mem harms arm ha
      exact ⟨hc, scoping_block hb⟩
  · intro rest hr
    subst hr
    rw [Stmt.elseWellScoped] at helse
    exact scoping_block helse

theorem scoping_while {visible : List Name} {check : Expr} {body : List Stmt}
    (h : (Stmt.whileLoop check body).wellScoped visible = true) :
    check.wellScoped visible = true ∧ scopingStatics.block visible body := by
  simp only [Stmt.wellScoped, Bool.and_eq_true] at h
  exact ⟨h.1, scoping_block h.2⟩

theorem scoping_parameters (names : List Name) (visible : List Name) :
    scopingStatics.block visible (names.map fun name => .declare .var name none) ∧
      scopingStatics.afterAll visible (names.map fun name => .declare .var name none) = names.reverse ++ visible := by
  induction names generalizing visible with
  | nil => exact ⟨trivial, Statics.afterAll_nil ..⟩
  | cons name names ih =>
    have ⟨hb, ha⟩ := ih (name :: visible)
    refine ⟨⟨by simp [scopingStatics, Stmt.wellScoped], ?_⟩, ?_⟩
    · simpa [Statics.after, scopingStatics] using hb
    · simpa [Statics.afterAll, Statics.after, scopingStatics] using ha

/-! ## What scopes see -/

namespace Store

def Sees (h : Store) (scope : Option ScopeId) (name : Name) : Prop :=
  ∃ s t, scope = some s ∧ t ∈ h.chain s ∧ (h.binding? t name).isSome

theorem Extends.chain_eq {h h' : Store} (he : h.Extends h') {s : ScopeId} (hs : s < h.size) :
    h'.chain s = h.chain s := by
  refine chain_congr s ?_ fun t ht => he.parent_eq (Nat.lt_of_le_of_lt ht hs)
  intro t ht
  have hlt := Nat.lt_of_le_of_lt ht hs
  exact ⟨fun _ => Nat.lt_of_lt_of_le hlt he.size_le, fun _ => hlt⟩

theorem Sees.mono {h h' : Store} {scope : Option ScopeId} {name : Name} (hn : h.Sees scope name)
    (he : h.Extends h') : h'.Sees scope name := by
  obtain ⟨s, t, rfl, ht, hb⟩ := hn
  have hs : s < h.size := by
    rcases Nat.lt_or_ge s h.size with hs | hs
    · exact hs
    · rw [chain_of_size_le hs] at ht; cases ht
  obtain ⟨b, hb⟩ := Option.isSome_iff_exists.mp hb
  obtain ⟨b', hb', -⟩ := he.binding hb
  exact ⟨s, t, rfl, by rw [he.chain_eq hs]; exact ht, by rw [hb']; rfl⟩

theorem sees_of_binding? {h : Store} {s : ScopeId} {name : Name} {b : Binding} (hb : h.binding? s name = some b) :
    h.Sees (some s) name :=
  ⟨s, s, rfl, mem_chain_self (lt_size_of_binding? hb), by rw [hb]; rfl⟩

theorem Sees.add {h : Store} {parent : Option ScopeId} (hp : ∀ p, parent = some p → p < h.size)
    {name : Name} (hn : h.Sees parent name) : (h.add (.empty parent)).Sees (some h.size) name := by
  obtain ⟨s, t, rfl, ht, hb⟩ := hn
  have hs := hp s rfl
  refine ⟨h.size, t, rfl, ?_, by rwa [binding?_add_empty]⟩
  rw [chain_of_lt_size (size_lt_size_add ..), parent?_add, if_pos rfl]
  simp only [show (Scope.empty (some s)).parent = some s from rfl, hs, ite_true]
  rw [(Extends.add h (some s)).chain_eq hs]
  exact List.mem_cons_of_mem _ ht

theorem sees_bind {h : Store} {s : ScopeId} {name : Name} (hs : s < h.size) (hn : h.binding? s name = none)
    {visible : List Name} (hv : ∀ m ∈ visible, h.Sees (some s) m) (b : Binding) :
    ∀ m ∈ name :: visible, (h.bind s name b).Sees (some s) m := by
  intro m hm
  rcases List.mem_cons.mp hm with rfl | hm
  · exact sees_of_binding? (binding?_bind_self hs hn b)
  · exact (hv m hm).mono (.bind h s name b)

theorem exists_owner {h : Store} {s : ScopeId} {name : Name} (hn : h.Sees (some s) name) :
    ∃ t b, h.owner? s name = some t ∧ h.binding? t name = some b := by
  obtain ⟨s', t, hs, ht, hb⟩ := hn
  cases hs
  obtain ⟨u, hu⟩ := Option.isSome_iff_exists.mp (owner?_isSome.mpr ⟨t, ht, hb⟩)
  obtain ⟨-, b, hb⟩ := owner?_eq_some hu
  exact ⟨u, b, hu, hb⟩

end Store

def Value.WellScoped (h : Store) (v : Value) : Prop :=
  v.HeldBy h ∧ ∀ f, v = .function f →
    ∃ visible : List Name, (∀ name ∈ visible, h.Sees f.scope? name) ∧
      scopingStatics.block visible (f.declarations ++ f.body)

theorem Value.WellScoped.mono {h h' : Store} {v : Value} (hv : v.WellScoped h) (he : h.Extends h') :
    v.WellScoped h' := by
  refine ⟨hv.1.mono he, ?_⟩
  intro f hf
  obtain ⟨visible, hn, hb⟩ := hv.2 f hf
  exact ⟨visible, fun name hm => (hn name hm).mono he, hb⟩

theorem Value.WellScoped.of_plain {h : Store} {v : Value} (hv : v.isPlain = true) : v.WellScoped h := by
  refine ⟨.of_plain hv, ?_⟩
  intro f hf
  subst hf
  cases hv

theorem Value.WellScoped.function {h : Store} {name : Name} {parameters : List Name} {s : ScopeId} {body : Block}
    {visible : List Name} (hh : (Value.function ⟨name, parameters, .declaredIn s, body⟩).HeldBy h)
    (hn : ∀ m ∈ name :: visible, h.Sees (some s) m)
    (hs : (Stmt.function name parameters body).wellScoped visible = true) :
    (Value.function ⟨name, parameters, .declaredIn s, body⟩).WellScoped h := by
  refine ⟨hh, ?_⟩
  intro f hf
  cases hf
  obtain ⟨hparams, hafter⟩ := scoping_parameters parameters (name :: visible)
  refine ⟨name :: visible, hn, (Statics.block_append ..).mpr ⟨hparams, ?_⟩⟩
  rw [Stmt.wellScoped] at hs
  rw [Closure.declarations, hafter]
  exact scoping_block hs

structure Store.WellScoped (h : Store) : Prop extends h.WellFormed where
  value : h.Holds (Value.WellScoped h)

namespace Store.WellScoped

variable {h : Store}

theorem add (hw : h.WellScoped) {parent : Option ScopeId} (hp : ∀ p, parent = some p → p < h.size) :
    (h.add (.empty parent)).WellScoped := by
  refine ⟨hw.toWellFormed.add hp, ?_⟩
  exact (hw.value.mono fun _ hv => hv.mono (.add h parent)).add parent

/-- The value bound need be well-scoped only once it is bound: a function may refer to itself. -/
theorem bind (hw : h.WellScoped) (s : ScopeId) (name : Name) {b : Binding} (hh : b.value.HeldBy h)
    (hv : b.value.WellScoped (h.bind s name b)) : (h.bind s name b).WellScoped := by
  refine ⟨hw.toWellFormed.bind s name hh, ?_⟩
  exact (hw.value.mono fun _ hu => hu.mono (.bind h s name b)).bind hv s name b.constant

theorem overwrite (hw : h.WellScoped) {s : ScopeId} {name : Name} {v : Value} (hv : v.WellScoped h)
    (he : h.Extends (h.overwrite s name v)) : (h.overwrite s name v).WellScoped := by
  refine ⟨hw.toWellFormed.overwrite s name hv.1, ?_⟩
  exact (hw.value.mono fun _ hu => hu.mono he).overwrite (hv.mono he) s name

theorem lookup (hw : h.WellScoped) {s : ScopeId} {name : Name} (hn : h.Sees (some s) name) :
    ∃ v, h.lookup s name = .ok v ∧ v.WellScoped h := by
  obtain ⟨t, b, ho, hb⟩ := exists_owner hn
  exact ⟨b.value, by simp [Store.lookup, ho, hb], hw.value hb⟩

theorem assign (hw : h.WellScoped) {s : ScopeId} {name : Name} {v : Value} (hn : h.Sees (some s) name)
    (hv : v.WellScoped h) :
    match h.assignable s name with
    | .ok t => (h.overwrite t name v).WellScoped ∧ h.Extends (h.overwrite t name v)
    | .error e => ∀ m, e ≠ .undeclaredVariable m := by
  obtain ⟨t, b, ho, hb⟩ := exists_owner hn
  cases hc : b.constant with
  | true => simp [assignable, ho, hb, hc]
  | false =>
    have hext := Extends.overwrite hb hc v
    simp only [assignable, ho, hb, Option.any_some, hc, Bool.false_eq_true, ite_false]
    exact ⟨hw.overwrite hv hext, hext⟩

end Store.WellScoped

/-! ## Whole runs -/

namespace RuntimeError

def Otherwise (e : RuntimeError) : Prop := ∀ name, e ≠ .undeclaredVariable name

theorem otherwise_duplicate (name : Name) : (duplicateDeclaration name).Otherwise := nofun

theorem otherwise_mismatch (m : Mismatch) : (typeMismatch m).Otherwise := nofun

theorem otherwise_unsupported (node : Bytes) : (unsupportedStatement node).Otherwise := nofun

theorem otherwise_arity (name : Name) (expected got : Nat) : (wrongArgumentCount name expected got).Otherwise := nofun

end RuntimeError

def lexicalScoping : Discipline where
  toStatics := scopingStatics
  inv := Store.WellScoped
  value h v := v.WellScoped h
  scope h s := fun visible : List Name => s < h.size ∧ ∀ name ∈ visible, h.Sees (some s) name
  grows := persistence.grows
  growsIn := persistence.growsIn
  stops := RuntimeError.Otherwise
  expr_assign he := (Expr.assign_wellScoped he).2
  expr_binary := Expr.binary_wellScoped
  expr_logical := Expr.logical_wellScoped
  expr_unary := Expr.unary_wellScoped
  expr_call := Expr.call_wellScoped
  stmt_program hs := absurd hs Stmt.not_wellScoped_program
  stmt_declare := id
  stmt_ifElse := scoping_ifElse
  stmt_while := scoping_while
  stmt_expr := id
  grows_refl := persistence.grows_refl
  grows_trans := @persistence.grows_trans
  growsIn_of_grows := @persistence.growsIn_of_grows
  growsIn_trans := @persistence.growsIn_trans
  scope_mono he hs := ⟨Nat.lt_of_lt_of_le hs.1 he.size_le, fun name hn => (hs.2 name hn).mono he⟩
  value_mono he hv := hv.mono he
  value_plain := .of_plain
  enter {h s _} hi hs _ := by
    have hp : ∀ p, some s = some p → p < h.size := fun p hp => by cases hp; exact hs.1
    exact ⟨hi.add hp, Store.size_lt_size_add .., fun name hn => (hs.2 name hn).add hp⟩
  leave := @persistence.leave
  call {h f} hi hv := by
    obtain ⟨visible, hn, hb⟩ := hv.2 f rfl
    have hp : ∀ p, f.scope? = some p → p < h.size := fun p hp => hv.1 p hp
    exact ⟨hi.add hp, visible, ⟨Store.size_lt_size_add .., fun name hm => (hn name hm).add hp⟩, hb⟩
  lookup hi hs he := by
    obtain ⟨v, hl, hv⟩ := hi.lookup (hs.2 _ (Expr.identifier_wellScoped he))
    rw [hl]; exact hv
  assign hi hs he hv := hi.assign (hs.2 _ (Expr.assign_wellScoped he).1) hv
  declare {h s visible kind name _ v} hi hs _ hv := by
    cases hd : h.declarable s name with
    | error e => rw [Store.declarable_eq_error hd]; exact RuntimeError.otherwise_duplicate name
    | ok _ =>
      have hext := Store.Extends.bind h s name ⟨v, kind.isConstant⟩
      exact ⟨hi.bind s name hv.1 (hv.mono hext), hext, Nat.lt_of_lt_of_le hs.1 hext.size_le,
        Store.sees_bind hs.1 (Store.declarable_eq_ok hd) hs.2 _⟩
  function {h s visible name parameters body} hi hs hstmt := by
    cases hd : h.declarable s name with
    | error e => rw [Store.declarable_eq_error hd]; exact RuntimeError.otherwise_duplicate name
    | ok _ =>
      have hheld : (Value.function ⟨name, parameters, .declaredIn s, body⟩).HeldBy h := by
        intro t ht; cases ht; exact hs.1
      have hext := Store.Extends.bind h s name ⟨.function ⟨name, parameters, .declaredIn s, body⟩, true⟩
      -- once it is bound, the function is one of the names that its scope sees
      have hsees := Store.sees_bind hs.1 (Store.declarable_eq_ok hd) hs.2
        ⟨.function ⟨name, parameters, .declaredIn s, body⟩, true⟩
      have hv := Value.WellScoped.function (hheld.mono hext) hsees hstmt
      exact ⟨hi.bind s name hheld hv, hext, ⟨Nat.lt_of_lt_of_le hs.1 hext.size_le, hsees⟩, hv⟩
  stops_condition _ _ := RuntimeError.otherwise_mismatch _
  stops_operand _ _ := RuntimeError.otherwise_mismatch _
  stops_callee _ _ := RuntimeError.otherwise_mismatch _
  stops_arity := RuntimeError.otherwise_arity
  stops_binary _ _ _ he := by rw [Operator.applyBinary_eq_error he]; exact RuntimeError.otherwise_mismatch _
  stops_unary _ _ he := by rw [Operator.applyUnary_eq_error he]; exact RuntimeError.otherwise_mismatch _
  stops_logical _ _ := RuntimeError.otherwise_mismatch _
  stops_missing _ := RuntimeError.otherwise_unsupported _
  stops_foreign _ := RuntimeError.otherwise_unsupported _

theorem Store.WellScoped.initial : Store.initial.WellScoped :=
  ⟨.initial, initial_plain.mono fun _ => .of_plain⟩

theorem initial_sees {name : Name} (hn : name ∈ globalNames) : Store.initial.Sees (some globalScope) name := by
  have hall : ∀ name ∈ globalNames, (Store.initial.binding? globalScope name).isSome = true := by decide
  obtain ⟨b, hb⟩ := Option.isSome_iff_exists.mp (hall name hn)
  exact Store.sees_of_binding? hb

/-- No run of a well-scoped program comes upon a name that is not declared. -/
theorem run_ne_undeclaredVariable (program : Program) (hp : program.wellScoped = true) (bound : Nat) (name : Name) :
    (program.run bound).1 ≠ .error (.failed (.undeclaredVariable name)) := by
  have hglobal : lexicalScoping.scope Store.initial globalScope globalNames := ⟨by decide, fun _ => initial_sees⟩
  obtain ⟨-, -, hstops⟩ := Discipline.run_sound (D := lexicalScoping) .initial hglobal (scoping_block hp) bound
  exact fun h => hstops _ h name rfl

/-- A function that leaves its block in a variable, keeps a parameter of another function, and calls itself. -/
def escapingClosure : Program :=
  [.declare .var (ascii "kept") none,
   .function (ascii "keep") [ascii "x"]
    [.function (ascii "again") [ascii "y"]
      [.ifElse (.identifier (ascii "y")) [.expr (.call (.identifier (ascii "again")) [.identifier (ascii "false")])] []
        (some [.expr (.assign (ascii "x") (.identifier (ascii "y")))]),
       .expr (.identifier (ascii "x"))],
     .expr (.assign (ascii "kept") (.identifier (ascii "again")))],
   .expr (.call (.identifier (ascii "keep")) [.string (ascii "a")]),
   .expr (.call (.identifier (ascii "kept")) [.identifier (ascii "true")])]

theorem run_escapingClosure : escapingClosure.wellScoped = true ∧
    ∀ name, (escapingClosure.run 30).1 ≠ .error (.failed (.undeclaredVariable name)) :=
  ⟨by decide, run_ne_undeclaredVariable escapingClosure (by decide) 30⟩

end BlockScript
