import BlockScript.Proofs.Passages

/-!
# Scopes are as deep as the text is nested

How deep a scope is shows at run time: it is the number of scopes around it.
How deeply a passage is nested shows in the text. Blocks are nested in the
scope of their statement and calls in the scope of the declaration, never in
that of the caller, so a scope is always as deep as the passage that runs in
it, and no recursion makes a chain of scopes longer than the text allows.
-/

namespace BlockScript

/-! ## Depths of scopes -/

namespace Store

theorem Extends.depth_eq {h h' : Store} (he : h.Extends h') {s : ScopeId} (hs : s < h.size) : h'.depth s = h.depth s := by
  unfold depth
  rw [he.chain_eq hs]

theorem Extends.of_add {h h' : Store} {parent : Option ScopeId} (he : (h.add (.empty parent)).Extends h') : h.Extends h' :=
  .trans (.add h parent) he

theorem depth_initial : Store.initial.depth globalScope = 0 := by decide +kernel

theorem depth_add {h : Store} {s : ScopeId} (hs : s < h.size) :
    (h.add (.empty (some s))).depth h.size = h.depth s + 1 := by
  have hnew : (h.add (.empty (some s))).chain h.size = h.size :: h.chain s := by
    rw [chain_of_lt_size (size_lt_size_add ..), parent?_add, if_pos rfl]
    simp only [show (Scope.empty (some s)).parent = some s from rfl, hs, ite_true]
    rw [(Extends.add h (some s)).chain_eq hs]
  have hpos : 0 < (h.chain s).length := List.length_pos_of_mem (mem_chain_self hs)
  unfold depth
  rw [hnew, List.length_cons]
  omega

end Store

/-! ## Functions and the text -/

/-- A statement of the program declares the function, nested as deeply as the scope that the function was declared in
is deep. -/
def Closure.ComesFrom (program : Program) (h : Store) (f : Closure) : Prop :=
  ∃ s, f.scope? = some s ∧ s < h.size ∧ (Stmt.function f.name f.parameters f.body).StandsIn program (h.depth s)

def Value.ComesFrom (program : Program) (h : Store) (v : Value) : Prop :=
  ∀ f, v = .function f → f.ComesFrom program h

theorem Value.ComesFrom.mono {program : Program} {h h' : Store} {v : Value} (hv : v.ComesFrom program h)
    (he : h.Extends h') : v.ComesFrom program h' := by
  intro f hf
  obtain ⟨s, hs, hlt, hstands⟩ := hv f hf
  refine ⟨s, hs, Nat.lt_of_lt_of_le hlt he.size_le, ?_⟩
  rw [he.depth_eq hlt]
  exact hstands

theorem Value.ComesFrom.of_plain {program : Program} {h : Store} {v : Value} (hv : v.isPlain = true) :
    v.ComesFrom program h := by
  intro f hf
  subst hf
  cases hv

structure Store.NestedAs (program : Program) (h : Store) : Prop where
  value : h.Holds (Value.ComesFrom program h)
  scope {s : ScopeId} : s < h.size → ∃ p ∈ program.passages, p.depth = h.depth s

namespace Store.NestedAs

variable {program : Program} {h : Store}

theorem add (hn : h.NestedAs program) {s : ScopeId} (hs : s < h.size)
    (hp : ∃ p ∈ program.passages, p.depth = h.depth s + 1) : (h.add (.empty (some s))).NestedAs program := by
  have hext := Extends.add h (some s)
  constructor
  · exact (hn.value.mono fun _ hv => hv.mono hext).add (some s)
  · intro t ht
    rw [size_add] at ht
    by_cases htop : t = h.size
    · subst htop
      rw [depth_add hs]
      exact hp
    · have hlt : t < h.size := Nat.lt_of_le_of_ne (Nat.le_of_lt_succ ht) htop
      rw [hext.depth_eq hlt]
      exact hn.scope hlt

theorem bind (hn : h.NestedAs program) {v : Value} (hv : v.ComesFrom program h) (s : ScopeId) (name : Name)
    (constant : Bool) : (h.bind s name ⟨v, constant⟩).NestedAs program := by
  have hext := Extends.bind h s name ⟨v, constant⟩
  constructor
  · exact (hn.value.mono fun _ hu => hu.mono hext).bind (hv.mono hext) s name constant
  · intro t ht
    rw [size_bind] at ht
    rw [hext.depth_eq ht]
    exact hn.scope ht

theorem overwrite (hn : h.NestedAs program) {v : Value} (hv : v.ComesFrom program h) {s : ScopeId} {name : Name}
    (hext : h.Extends (h.overwrite s name v)) : (h.overwrite s name v).NestedAs program := by
  constructor
  · exact (hn.value.mono fun _ hu => hu.mono hext).overwrite (hv.mono hext) s name
  · intro t ht
    rw [size_overwrite] at ht
    rw [hext.depth_eq ht]
    exact hn.scope ht

theorem initial (program : Program) : Store.initial.NestedAs program := by
  constructor
  · exact initial_plain.mono fun _ => .of_plain
  · intro s hs
    obtain rfl : s = 0 := Nat.lt_one_iff.mp hs
    exact ⟨_, List.mem_cons_self, depth_initial.symm⟩

end Store.NestedAs

/-! ## The discipline -/

def nestingStatics (program : Program) : Statics where
  Context := Nat
  inner depth := depth + 1
  declared depth _ := depth
  expr _ _ := True
  stmt depth stmt := stmt.IsAllowed program depth

section

variable {program : Program} {depth : Nat}

theorem nesting_block {body : Block} (h : ∀ stmt ∈ body, stmt.IsAllowed program depth) :
    (nestingStatics program).block depth body := Statics.block_of_mem _ (fun _ _ => rfl) h

theorem nesting_passage {p : Passage} (hp : p ∈ program.passages) : (nestingStatics program).block p.depth p.body :=
  nesting_block fun _ hs => .inr (.of_mem hp hs)

end

theorem Value.ComesFrom.function {program : Program} {h : Store} {s : ScopeId} {name : Name} {parameters : List Name}
    {body : Block} (hs : s < h.size) (hstmt : (Stmt.function name parameters body).IsAllowed program (h.depth s)) :
    (Value.function ⟨name, parameters, .declaredIn s, body⟩).ComesFrom program h := by
  rintro f ⟨⟩
  exact ⟨s, rfl, hs, hstmt.standsIn (by simp)⟩

def nesting (program : Program) : Discipline where
  toStatics := nestingStatics program
  inv h := h.NestedAs program
  value h v := v.ComesFrom program h
  scope h s := fun depth : Nat => s < h.size ∧ h.depth s = depth
  grows := Store.Extends
  growsIn _ := Store.Extends
  stops _ := True
  opens := fun depth : Nat => ∃ p ∈ program.passages, p.depth = depth + 1
  expr_assign _ := trivial
  expr_binary _ := ⟨trivial, trivial⟩
  expr_logical _ := ⟨trivial, trivial⟩
  expr_unary _ := trivial
  expr_call _ := ⟨trivial, fun _ _ => trivial⟩
  stmt_program hs := nesting_passage (hs.standsIn (by simp)).nested
  stmt_declare _ := trivial
  stmt_ifElse hs := by
    have hstands := hs.standsIn (by simp)
    refine ⟨fun arm ha => ⟨trivial, nesting_passage (hstands.arm ha)⟩, ?_⟩
    rintro rest rfl
    exact nesting_passage hstands.otherwise
  stmt_while hs := ⟨trivial, nesting_passage (hs.standsIn (by simp)).whileLoop⟩
  stmt_expr _ := trivial
  stmt_opens {depth stmt} hs hopens := by
    cases stmt with
    | ifElse => exact ⟨_, (hs.standsIn (by simp)).arm List.mem_cons_self, rfl⟩
    | whileLoop => exact ⟨_, (hs.standsIn (by simp)).whileLoop, rfl⟩
    | _ => cases hopens
  grows_refl := .refl
  grows_trans := .trans
  growsIn_of_grows he := he
  growsIn_trans := .trans
  scope_mono he hs := ⟨Nat.lt_of_lt_of_le hs.1 he.size_le, (he.depth_eq hs.1).trans hs.2⟩
  value_mono he hv := hv.mono he
  value_plain := .of_plain
  enter {h s depth} hi hs ho := by
    obtain ⟨hlt, rfl⟩ := hs
    exact ⟨hi.add hlt ho, Store.size_lt_size_add .., Store.depth_add hlt⟩
  leave := .of_add
  call {h f} hi hv := by
    -- Calls are nested in the scope of the declaration, wherever they are made.
    obtain ⟨s, hscope, hlt, hstands⟩ := hv f rfl
    have hp := hstands.function
    rw [hscope]
    refine ⟨hi.add hlt ⟨_, hp, rfl⟩, h.depth s + 1, ⟨Store.size_lt_size_add .., Store.depth_add hlt⟩, ?_⟩
    refine nesting_block fun stmt hs => ?_
    rcases List.mem_append.mp hs with hs | hs
    · exact .of_mem_declarations hs
    · exact .inr (.of_mem hp hs)
  lookup {h s _ name} hi _ _ := by
    cases hl : h.lookup s name with
    | error e => trivial
    | ok v =>
      obtain ⟨t, b, -, hb, rfl⟩ := Store.lookup_eq_ok hl
      exact hi.value hb
  assign {h s _ name e v} hi _ _ hv := by
    cases ha : h.assignable s name with
    | error e => trivial
    | ok t =>
      obtain ⟨b, hb, hc⟩ := Store.assignable_eq_ok ha
      have hext := Store.Extends.overwrite hb hc v
      exact ⟨hi.overwrite hv hext, hext⟩
  declare {h s depth kind name e v} hi hs _ hv := by
    cases h.declarable s name with
    | error e => trivial
    | ok _ =>
      have hext := Store.Extends.bind h s name ⟨v, kind.isConstant⟩
      exact ⟨hi.bind hv s name kind.isConstant, hext, Nat.lt_of_lt_of_le hs.1 hext.size_le,
        (hext.depth_eq hs.1).trans hs.2⟩
  function {h s depth name parameters body} hi hs hstmt := by
    obtain ⟨hlt, rfl⟩ := hs
    have hv := Value.ComesFrom.function hlt hstmt
    cases h.declarable s name with
    | error e => trivial
    | ok _ =>
      have hext := Store.Extends.bind h s name ⟨.function ⟨name, parameters, .declaredIn s, body⟩, true⟩
      exact ⟨hi.bind hv s name true, hext, ⟨Nat.lt_of_lt_of_le hlt hext.size_le, hext.depth_eq hlt⟩, hv.mono hext⟩
  stops_condition _ _ := trivial
  stops_operand _ _ := trivial
  stops_callee _ _ := trivial
  stops_arity _ _ _ := trivial
  stops_binary _ _ _ _ := trivial
  stops_unary _ _ _ := trivial
  stops_logical _ _ := trivial
  stops_missing _ := trivial
  stops_foreign _ := trivial

/-- However a run ends, the functions that it returns and leaves behind were declared by statements nested as deeply as
the scopes that the functions were declared in, and no scope is deeper than the deepest passage is nested. -/
theorem run_nests_as_the_text (program : Program) (bound : Nat) :
    (∀ f, (program.run bound).1 = .ok (.function f) → f.ComesFrom program (program.run bound).2.store) ∧
    (∀ s name b f, (program.run bound).2.store.binding? s name = some b → b.value = .function f →
      f.ComesFrom program (program.run bound).2.store) ∧
    ∀ s < (program.run bound).2.store.size,
      (∃ p ∈ program.passages, (program.run bound).2.store.depth s = p.depth) ∧
      (program.run bound).2.store.depth s ≤ program.nesting := by
  have hglobal : (nesting program).scope Store.initial globalScope (0 : Nat) := ⟨by decide, Store.depth_initial⟩
  have htop : ⟨0, globalNames, program⟩ ∈ program.passages := List.mem_cons_self
  obtain ⟨hstore, hvalue, -⟩ := Discipline.run_sound (D := nesting program) (.initial program) hglobal (nesting_passage htop) bound
  refine ⟨fun f hf => hvalue _ hf f rfl, fun s name b f hb hf => hstore.value hb f hf, fun s hs => ?_⟩
  obtain ⟨p, hp, hdepth⟩ := hstore.scope hs
  refine ⟨⟨p, hp, hdepth.symm⟩, ?_⟩
  rw [← hdepth]
  exact Program.depth_le_nesting hp

namespace Nesting

def reentry : Program :=
  [.function (ascii "outer") [ascii "again"]
    [.function (ascii "inner") [] [.expr (.identifier (ascii "again"))],
     .ifElse (.identifier (ascii "again")) [.expr (.call (.identifier (ascii "outer")) [.identifier (ascii "false")])] []
       none,
     .expr (.identifier (ascii "inner"))],
   .expr (.call (.identifier (ascii "outer")) [.identifier (ascii "true")])]

theorem exists_function {v : Value} (h : v.type = .function) : ∃ f, v = .function f := by
  cases v with
  | function f => exact ⟨f, rfl⟩
  | _ => cases h

theorem run_reentry :
    (∃ f, (reentry.run 20).1 = .ok (.function f) ∧ f.ComesFrom reentry (reentry.run 20).2.store) ∧
    (∃ b f, (reentry.run 20).2.store.binding? globalScope (ascii "outer") = some b ∧ b.value = .function f ∧
      f.ComesFrom reentry (reentry.run 20).2.store) ∧
    (reentry.run 20).2.store.size = 4 ∧ reentry.nesting = 2 ∧
    ∀ s < (reentry.run 20).2.store.size, (reentry.run 20).2.store.depth s ≤ reentry.nesting := by
  obtain ⟨hvalue, hbound, hscopes⟩ := run_nests_as_the_text reentry 20
  have hreturns : (reentry.run 20).1.toOption.map Value.type = some .function := by decide +kernel
  have hbinds : ((reentry.run 20).2.store.binding? globalScope (ascii "outer")).map (fun b => b.value.type) =
      some .function := by decide +kernel
  refine ⟨?_, ?_, by decide +kernel, by decide +kernel, fun s hs => (hscopes s hs).2⟩
  · cases hrun : (reentry.run 20).1 with
    | error halt =>
      rw [hrun] at hreturns
      cases hreturns
    | ok v =>
      rw [hrun] at hreturns
      obtain ⟨f, rfl⟩ := exists_function (Option.some.inj hreturns)
      exact ⟨f, rfl, hvalue f hrun⟩
  · obtain ⟨b, hb, htype⟩ := Option.map_eq_some_iff.mp hbinds
    obtain ⟨f, hf⟩ := exists_function htype
    exact ⟨b, f, hb, hf, hbound globalScope (ascii "outer") b f hb hf⟩

end Nesting

end BlockScript
