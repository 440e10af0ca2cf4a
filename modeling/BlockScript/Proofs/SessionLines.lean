import BlockScript.Proofs.ParseLines
import BlockScript.Proofs.TranscribedRuns
import BlockScript.Settings

/-!
# Sessions line by line

A file runs like a session that is given the lines of the file one after the
other: the same value or the same failure, and the same scopes afterwards. The
two differ in the positions of tokens only, which show nowhere but inside
functions.
-/

namespace BlockScript

open Transcription

/-! ## Blocks behind each other -/

namespace Eval

variable {σ τ α β : Type}

theorem sequence_append (eval : StmtEvaluator σ) (s : ScopeId) (last : Value) (body more : Block) :
    sequence eval s last (body ++ more) = sequence eval s last body >>= fun v => sequence eval s v more := by
  induction body generalizing last with
  | nil => simp [sequence]
  | cons stmt body ih => simp [sequence, ih]

theorem sequence_of_ne_nil (eval : StmtEvaluator σ) (s : ScopeId) (last last' : Value) {body : Block} (h : body ≠ []) :
    sequence eval s last body = sequence eval s last' body := by
  cases body with
  | nil => exact absurd rfl h
  | cons stmt body => rfl

theorem exec_unplaced (exprBound bound : Nat) :
    unplaced.coupling.StmtCoupled (exec (evalExpr exprBound) bound : StmtEvaluator σ)
      (exec (evalExpr exprBound) bound : StmtEvaluator τ) :=
  Coupling.exec_coupled (Coupling.evalExpr_coupled exprBound) bound

theorem result_bind (m : Eval σ α) (k : α → Eval σ β) (w : World σ) :
    (m >>= k).result w =
      match m.result w with
      | (.ok a, w') => (k a).result w'
      | (.error halt, w') => (.error halt, w') := by
  unfold result
  rw [run_bind]
  cases m.run w <;> rfl

theorem exists_result_program (bound : Nat) (body : Block) (s : ScopeId) (w : World σ) :
    ∃ w', w'.store = w.store ∧ (evaluate (bound + 1) (.program body) s).result w =
      (sequence (exec (evalExpr (bound + 1)) bound) s .null body).result w' :=
  ⟨{ w with trace := w.trace.push (.enterBlock (w.store.depth s)) }, rfl, rfl⟩

theorem result_sequence_unplaced {eval : StmtEvaluator σ} {eval' : StmtEvaluator τ}
    (heval : unplaced.coupling.StmtCoupled eval eval') (s : ScopeId) (last : Value) (body : Block) {w : World σ}
    {w' : World τ} (hw : w'.store = unplaced.store w.store) :
    ((sequence eval' s (unplaced.value last) (unplaced.block body)).result w').1 =
        ((sequence eval s last body).result w).1.map unplaced.value ∧
      ((sequence eval' s (unplaced.value last) (unplaced.block body)).result w').2.store =
        unplaced.store ((sequence eval s last body).result w).2.store := by
  have hlast : unplaced.coupling.values () last (unplaced.value last) := unplaced.related_iff.mpr rfl
  obtain ⟨houtcome, hstore⟩ := result_coupled (Coupling.sequence_coupled heval (s := s) rfl hlast body) hw
  refine ⟨houtcome.trans ?_, hstore⟩
  cases ((sequence eval s last body).result w).1 with
  | ok v => rfl
  | error halt => exact congrArg Except.error (halt_moved _ halt)

end Eval

/-! ## Lines -/

/-- Evaluates sources in order until one fails; the value is that of the last one, or `last` if there are none. -/
def Session.feed (bound : Nat) (terminator : Bytes) :
    (last : Value) → List Bytes → Session → Except RunError Value × Session
  | last, [], session => (.ok last, session)
  | _, source :: sources, session =>
    match session.eval bound source terminator with
    | (.ok value, session) => feed bound terminator value sources session
    | (.error e, session) => (.error e, session)

theorem Session.feed_unplaced (bound : Nat) {terminator : Bytes} {lines : List Bytes} {programs : List Program}
    (h : List.Forall₂ (fun line part => Program.ofSource line terminator = .ok part ∧ part ≠ []) lines programs)
    (last : Value) (session : Session) {w : World Unit} (hw : w.store = unplaced.store session.world.store) :
    let fed := session.feed (bound + 1) terminator last lines
    let run := (Eval.sequence (Eval.exec (Eval.evalExpr (bound + 1)) bound) globalScope (unplaced.value last)
      (unplaced.block programs.flatten)).result w
    run.1.mapError RunError.halted = fed.1.map unplaced.value ∧ run.2.store = unplaced.store fed.2.world.store := by
  induction h generalizing last session w with
  | nil => exact ⟨rfl, hw⟩
  | @cons line part lines programs hpart _ ih =>
    obtain ⟨hpart, hne⟩ := hpart
    obtain ⟨w₁, hw₁, hprogram⟩ := Eval.exists_result_program bound part globalScope session.world
    rw [Eval.sequence_of_ne_nil _ _ .null last hne] at hprogram
    obtain ⟨houtcome, hstore⟩ := Eval.result_sequence_unplaced (Eval.exec_unplaced (bound + 1) bound) globalScope
      last part (hw₁ ▸ hw)
    simp only [feed, eval, hpart, hprogram, List.flatten_cons, block_append, Eval.sequence_append, Eval.result_bind]
    -- the line and its part of the program end alike; go on from there only if they have a value
    revert houtcome hstore
    generalize Eval.result _ w₁ = r
    generalize Eval.result _ w = r'
    intro houtcome hstore
    obtain ⟨outcome, w₂⟩ := r
    obtain ⟨outcome', w₂'⟩ := r'
    cases outcome with
    | ok v =>
      cases (houtcome : outcome' = .ok (unplaced.value v))
      exact ih v ⟨w₂⟩ hstore
    | error halt =>
      cases (houtcome : outcome' = .error halt)
      exact ⟨rfl, hstore⟩

/-- Lines below each other are a program. It runs to the value that a fresh session has after the last of them, or to
the failure of the first of them that fails, and leaves the scopes that the session has then. -/
theorem run_joined_lines (bound : Nat) (lines : List Bytes) (hne : lines ≠ []) (h : ∀ line ∈ lines, Source.IsLine line) :
    ∃ program, Program.ofSource (Bytes.join (ascii "\n") lines) Settings.default.lineTerminator = .ok program ∧
      let fed := Session.start.feed bound Settings.default.lineTerminator .null lines
      ((program.run bound).1.map unplaced.value).mapError RunError.halted = fed.1.map unplaced.value ∧
        unplaced.store (program.run bound).2.store = unplaced.store fed.2.world.store := by
  obtain ⟨program, programs, hprogram, hparts, hflatten⟩ := Program.ofSource_join hne h
  refine ⟨program, hprogram, ?_⟩
  cases bound with
  | zero =>
    -- the first line is exhausted at once, and so is the file
    cases hparts with
    | nil => exact absurd rfl hne
    | cons hpart =>
      simp only [Session.feed, Session.eval, Settings.default, hpart.1]
      exact ⟨rfl, rfl⟩
  | succ bound =>
    obtain ⟨w, hw, hrun⟩ := Eval.exists_result_program bound program globalScope World.initial
    rw [Program.run, hrun]
    -- the file and the session both run like the program without positions, from the same store
    let forgotten : World Unit := ⟨unplaced.store World.initial.store, #[], ()⟩
    obtain ⟨hfed, hfedStore⟩ := Session.feed_unplaced bound hparts .null .start (w := forgotten) rfl
    have hforgotten : forgotten.store = unplaced.store w.store := by rw [hw]
    obtain ⟨hfile, hfileStore⟩ := Eval.result_sequence_unplaced (Eval.exec_unplaced (bound + 1) bound) globalScope .null
      program hforgotten
    rw [hflatten] at hfile hfileStore
    exact ⟨by rw [← hfile]; exact hfed, hfileStore.symm.trans hfedStore⟩

/-- Lines of which the third one fails: a function that makes functions, in front of a comment that nothing ends, a
constant, and an assignment to it. -/
def brokenOff : List Bytes :=
  [ascii "fn adder(a) \x7b fn add(b) \x7b a + b; \x7d add; \x7d var plus = adder(2); # \x7b",
   ascii "const five = plus(3);",
   ascii "five = plus(five);",
   ascii "var six = 6;"]

theorem run_brokenOff :
    ∃ program, Program.ofSource (Bytes.join (ascii "\n") brokenOff) Settings.default.lineTerminator = .ok program ∧
      (program.run 20).1.map unplaced.value = .error (.failed (.immutableAssignment (ascii "five"))) ∧
      unplaced.store (program.run 20).2.store =
        unplaced.store (Session.start.feed 20 Settings.default.lineTerminator .null brokenOff).2.world.store := by
  have hlines : ∀ line ∈ brokenOff, Source.IsLine line := by decide +kernel
  have hfails : (Session.start.feed 20 Settings.default.lineTerminator .null brokenOff).1.map (fun _ => ()) =
      .error (.halted (.failed (.immutableAssignment (ascii "five")))) := by decide +kernel
  obtain ⟨program, hprogram, houtcome, hstore⟩ := run_joined_lines 20 brokenOff nofun hlines
  refine ⟨program, hprogram, ?_, hstore⟩
  revert houtcome hfails
  generalize (Session.start.feed 20 Settings.default.lineTerminator .null brokenOff).1 = fed
  generalize (program.run 20).1.map unplaced.value = outcome
  intro hfails houtcome
  cases fed with
  | ok v => cases hfails
  | error e =>
    cases hfails
    cases outcome with
    | ok v => cases houtcome
    | error halt =>
      cases houtcome
      rfl

end BlockScript
