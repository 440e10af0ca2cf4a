import BlockScript.Proofs.Scoping

/-!
# Where statements stand

A program is a list of statements with further lists inside: the bodies of
conditions, loops and functions. These lists are the passages of the program.
Each is as deeply nested as there are bodies around its statements, and a
statement of a passage has no bodies but further passages.
-/

namespace BlockScript

/-- `given` are the names that the list declares besides those of its statements: the parameters of a function, or the
names of the global scope. -/
structure Passage where
  depth : Nat
  given : List Name
  body : Block

def Passage.declares (passage : Passage) : List Name := passage.given ++ passage.body.flatMap Stmt.declares

namespace Stmt

mutual

def passages (depth : Nat) : Stmt → List Passage
  | .program body => ⟨depth, [], body⟩ :: within depth body
  | .function _ parameters body => ⟨depth + 1, parameters, body⟩ :: within (depth + 1) body
  | .ifElse _ body arms otherwise =>
    ⟨depth + 1, [], body⟩ :: within (depth + 1) body ++ withinArms (depth + 1) arms ++ withinElse (depth + 1) otherwise
  | .whileLoop _ body => ⟨depth + 1, [], body⟩ :: within (depth + 1) body
  | .declare .. | .expr _ | .missing | .foreign _ => []

def within (depth : Nat) : List Stmt → List Passage
  | [] => []
  | stmt :: rest => stmt.passages depth ++ within depth rest

def withinArms (depth : Nat) : List (Expr × List Stmt) → List Passage
  | [] => []
  | (_, body) :: arms => ⟨depth, [], body⟩ :: within depth body ++ withinArms depth arms

def withinElse (depth : Nat) : Option (List Stmt) → List Passage
  | none => []
  | some body => ⟨depth, [], body⟩ :: within depth body

end

end Stmt

namespace Program

def passages (program : Program) : List Passage := ⟨0, globalNames, program⟩ :: Stmt.within 0 program

def nesting (program : Program) : Nat := (program.passages.map Passage.depth).foldr max 0

theorem depth_le_nesting {program : Program} {passage : Passage} (h : passage ∈ program.passages) :
    passage.depth ≤ program.nesting := by
  unfold nesting
  generalize program.passages = passages at h
  induction passages with
  | nil => cases h
  | cons p passages ih =>
    simp only [List.map_cons, List.foldr_cons]
    rcases List.mem_cons.mp h with rfl | h
    · exact Nat.le_max_left _ _
    · exact Nat.le_trans (ih h) (Nat.le_max_right _ _)

end Program

/-! ## Passages inside passages -/

namespace Passage

theorem mem_within {depth : Nat} {body : Block} {stmt : Stmt} {passage : Passage} (hs : stmt ∈ body)
    (hp : passage ∈ stmt.passages depth) : passage ∈ Stmt.within depth body := by
  induction body with
  | nil => cases hs
  | cons first body ih =>
    rw [Stmt.within, List.mem_append]
    rcases List.mem_cons.mp hs with rfl | hs
    · exact .inl hp
    · exact .inr (ih hs)

theorem mem_withinArms {depth : Nat} {arms : List (Expr × Block)} {arm : Expr × Block} (ha : arm ∈ arms) :
    ⟨depth, [], arm.2⟩ ∈ Stmt.withinArms depth arms := by
  induction arms with
  | nil => cases ha
  | cons first arms ih =>
    rw [Stmt.withinArms]
    rcases List.mem_cons.mp ha with rfl | ha
    · simp
    · exact List.mem_append_right _ (ih ha)

def Complete (passages : List Passage) : Prop :=
  ∀ p ∈ passages, ∀ stmt ∈ p.body, ∀ q ∈ stmt.passages p.depth, q ∈ passages

theorem Complete.nil : Complete [] := by
  intro p hp
  cases hp

theorem Complete.append {ps qs : List Passage} (hps : Complete ps) (hqs : Complete qs) : Complete (ps ++ qs) := by
  intro p hp stmt hs q hq
  rw [List.mem_append] at hp ⊢
  rcases hp with hp | hp
  · exact .inl (hps p hp stmt hs q hq)
  · exact .inr (hqs p hp stmt hs q hq)

theorem Complete.cons {depth : Nat} {body : Block} (h : Complete (Stmt.within depth body)) (given : List Name) :
    Complete (⟨depth, given, body⟩ :: Stmt.within depth body) := by
  intro p hp stmt hs q hq
  rcases List.mem_cons.mp hp with rfl | hp
  · exact List.mem_cons_of_mem _ (mem_within hs hq)
  · exact List.mem_cons_of_mem _ (h p hp stmt hs q hq)

end Passage

namespace Stmt

open Passage

mutual

theorem complete_passages : ∀ (stmt : Stmt) (depth : Nat), Complete (stmt.passages depth)
  | .program body, depth => by rw [passages]; exact (complete_within body depth).cons []
  | .function _ parameters body, depth => by rw [passages]; exact (complete_within body (depth + 1)).cons parameters
  | .ifElse _ body arms otherwise, depth => by
    rw [passages]
    have hbody := (complete_within body (depth + 1)).cons []
    exact (hbody.append (complete_withinArms arms (depth + 1))).append (complete_withinElse otherwise (depth + 1))
  | .whileLoop _ body, depth => by rw [passages]; exact (complete_within body (depth + 1)).cons []
  | .declare .., _ | .expr _, _ | .missing, _ | .foreign _, _ => by rw [passages]; exact .nil

theorem complete_within : ∀ (body : List Stmt) (depth : Nat), Complete (within depth body)
  | [], _ => by rw [within]; exact .nil
  | stmt :: rest, depth => by
    rw [within]
    exact (complete_passages stmt depth).append (complete_within rest depth)

theorem complete_withinArms : ∀ (arms : List (Expr × List Stmt)) (depth : Nat), Complete (withinArms depth arms)
  | [], _ => by rw [withinArms]; exact .nil
  | (_, body) :: arms, depth => by
    rw [withinArms]
    exact ((complete_within body depth).cons []).append (complete_withinArms arms depth)

theorem complete_withinElse : ∀ (otherwise : Option (List Stmt)) (depth : Nat), Complete (withinElse depth otherwise)
  | none, _ => by rw [withinElse]; exact .nil
  | some body, depth => by rw [withinElse]; exact (complete_within body depth).cons []

end

end Stmt

/-! ## Statements of a program -/

def Stmt.StandsIn (program : Program) (depth : Nat) (stmt : Stmt) : Prop :=
  ∃ p ∈ program.passages, p.depth = depth ∧ stmt ∈ p.body

namespace Stmt.StandsIn

variable {program : Program} {depth : Nat}

theorem mem_passages {stmt : Stmt} (h : stmt.StandsIn program depth) : ∀ p ∈ stmt.passages depth, p ∈ program.passages := by
  obtain ⟨p, hp, rfl, hs⟩ := h
  exact (complete_within program 0).cons globalNames p hp stmt hs

theorem of_mem {p : Passage} (hp : p ∈ program.passages) {stmt : Stmt} (hs : stmt ∈ p.body) :
    stmt.StandsIn program p.depth := ⟨p, hp, rfl, hs⟩

theorem nested {body : Block} (h : (Stmt.program body).StandsIn program depth) :
    ⟨depth, [], body⟩ ∈ program.passages := h.mem_passages _ (by simp [passages])

theorem function {name : Name} {parameters : List Name} {body : Block}
    (h : (Stmt.function name parameters body).StandsIn program depth) :
    ⟨depth + 1, parameters, body⟩ ∈ program.passages := h.mem_passages _ (by simp [passages])

theorem whileLoop {check : Expr} {body : Block} (h : (Stmt.whileLoop check body).StandsIn program depth) :
    ⟨depth + 1, [], body⟩ ∈ program.passages := h.mem_passages _ (by simp [passages])

theorem arm {check : Expr} {body : Block} {arms : List (Expr × Block)} {otherwise : Option Block}
    (h : (Stmt.ifElse check body arms otherwise).StandsIn program depth) {arm : Expr × Block}
    (ha : arm ∈ (check, body) :: arms) : ⟨depth + 1, [], arm.2⟩ ∈ program.passages := by
  refine h.mem_passages _ ?_
  simp only [passages, List.mem_append, List.mem_cons]
  rcases List.mem_cons.mp ha with rfl | ha
  · exact .inl (.inl (.inl rfl))
  · exact .inl (.inr (Passage.mem_withinArms ha))

theorem otherwise {check : Expr} {body rest : Block} {arms : List (Expr × Block)}
    (h : (Stmt.ifElse check body arms (some rest)).StandsIn program depth) :
    ⟨depth + 1, [], rest⟩ ∈ program.passages := h.mem_passages _ (by simp [passages, withinElse])

end Stmt.StandsIn

/-- Either a statement of the program, or a declaration, as a call makes them of parameters. -/
def Stmt.IsAllowed (program : Program) (depth : Nat) (stmt : Stmt) : Prop :=
  (∃ kind name value, stmt = .declare kind name value) ∨ stmt.StandsIn program depth

namespace Stmt.IsAllowed

variable {program : Program} {depth : Nat} {stmt : Stmt}

theorem standsIn (h : stmt.IsAllowed program depth) (hs : ∀ kind name value, stmt ≠ .declare kind name value) :
    stmt.StandsIn program depth := by
  rcases h with ⟨kind, name, value, rfl⟩ | h
  · exact absurd rfl (hs kind name value)
  · exact h

theorem of_mem_declarations {f : Closure} (h : stmt ∈ f.declarations) : stmt.IsAllowed program depth := by
  obtain ⟨name, -, rfl⟩ := List.mem_map.mp h
  exact .inl ⟨.var, name, none, rfl⟩

end Stmt.IsAllowed

end BlockScript
