import BlockScript.Proofs.Agreement

/-!
# The cursor stays on the tokens

The walk over a whole program takes a round for every statement and for every
error. A round gets ahead, and never beyond the first mark for the end of
input; so the walk ends there, and no misstep has been made.
-/

namespace BlockScript

namespace Parse

def outcome (n : Nat) (rest : List Token) : Except Failure Stmt × List Token :=
  match statement n rest with
  | .ok (s, after) => (.ok s, after)
  | .error failure => (.error failure, synchronize failure.rest)

def outcomes (n : Nat) : (bound : Nat) → List Token → List (Except Failure Stmt)
  | bound + 1, t :: rest => (outcome n (t :: rest)).1 :: outcomes n bound (outcome n (t :: rest)).2
  | _, _ => []

theorem statements_eq_outcomes (n bound : Nat) (rest : List Token) :
    statements (statement n) bound rest =
      ((outcomes n bound rest).filterMap Except.toOption, Walk.errorsOf (outcomes n bound rest)) := by
  fun_induction outcomes n bound rest with
  | case1 bound t rest ih =>
    unfold outcome at ih ⊢
    cases h : statement n (t :: rest) <;> simp_all [statements, Walk.errorsOf, Except.toOption, List.filterMap_cons]
  | case2 bound rest h =>
    cases bound <;> cases rest <;> simp_all [statements, Walk.errorsOf]

end Parse

namespace Walk

open Parse (isEnd)

variable {body rest : List Token} {mark t : Token} {i m n : Nat}

theorem synchronize_cons (t : Token) (rest : List Token) :
    Parse.synchronize (t :: rest) =
      if t.kind = .semicolon || rest.head?.any (·.kind.startsStatement) then rest else Parse.synchronize rest := by
  cases rest <;> grind [Parse.synchronize]

def report (body : List Token) (mark : Token) (f : Parse.Failure) : ParseError :=
  ⟨f.cause, f.site.head?.getD mark, body.length - f.site.length⟩

theorem exists_at (h : i < body.length) : ∃ t rest, At body i (t :: rest) := by
  refine ⟨body[i], body.drop (i + 1), body.take i, ?_, by simp; omega⟩
  rw [← List.drop_eq_getElem_cons h, List.take_append_drop]

/-! ## Outcomes -/

@[simp] theorem mapError_ok {ε ε' α : Type} (g : ε → ε') (a : α) :
    (Except.ok a : Except ε α).mapError g = .ok a := rfl

@[simp] theorem mapError_error {ε ε' α : Type} (g : ε → ε') (e : ε) :
    (Except.error e : Except ε α).mapError g = .error (g e) := rfl

theorem errorsOf_mapError {ε ε' α : Type} (g : ε → ε') (l : List (Except ε α)) :
    errorsOf (l.map (Except.mapError g)) = (errorsOf l).map g := by
  induction l with
  | nil => rfl
  | cons x l ih => cases x <;> simp [ih]

theorem filterMap_mapError {ε ε' α : Type} (g : ε → ε') (l : List (Except ε α)) :
    (l.map (Except.mapError g)).filterMap Except.toOption = l.filterMap Except.toOption := by
  induction l with
  | nil => rfl
  | cons x l ih => cases x <;> simp [Except.toOption, List.filterMap_cons, ih]

section Programs

variable (hbar : Barred body mark) (hend : isEnd mark = true) (tail : List Token)

include hbar hend

theorem isEnd_at (h : At body i rest) : isEnd (rest.head?.getD mark) = rest.isEmpty := by
  cases rest with
  | nil => simpa using hend
  | cons t rest => simpa using hbar.inside t (h.subset List.mem_cons_self)

theorem synchronize_at (h : At body i rest) (hm : rest.length < m) :
    ∃ j, synchronize (body ++ mark :: tail) m i = .ok () j ∧ At body j (Parse.synchronize rest) ∧
      i ≤ j ∧ (rest ≠ [] → i < j) := by
  induction m generalizing i rest with
  | zero => omega
  | succ m ih =>
    rw [synchronize, bind_ok (peek_at h), isEnd_at hbar hend h]
    cases rest with
    | nil => exact ⟨i, rfl, h, Nat.le_refl i, by simp⟩
    | cons t after =>
      simp only [List.isEmpty_cons, Bool.false_eq_true, if_false]
      rw [bind_ok (step_at hbar h), bind_ok (previous_at h), synchronize_cons]
      by_cases ht : t.kind = .semicolon
      · simp only [ht, if_true, decide_true, Bool.true_or]
        exact ⟨i + 1, rfl, h.next, by omega, by omega⟩
      have hmark : mark.kind.startsStatement = false := by
        simp only [isEnd, decide_eq_true_eq] at hend
        rw [hend]
        rfl
      have hnext : (after.head?.getD mark).kind.startsStatement = after.head?.any (·.kind.startsStatement) := by
        cases after <;> simp [hmark]
      simp only [ht, if_false]
      rw [bind_ok (peek_at h.next), hnext]
      cases hstart : after.head?.any (·.kind.startsStatement) with
      | true => exact ⟨i + 1, rfl, by simpa using h.next, by omega, by omega⟩
      | false =>
        obtain ⟨j, hj, hat, hle, -⟩ := ih h.next (by simpa using hm)
        exact ⟨j, hj, by simpa using hat, by omega, by omega⟩

theorem round_at (h : At body i (t :: rest)) (hm : (t :: rest).length < m) (hn : (t :: rest).length < n) :
    ∃ j, round (body ++ mark :: tail) m i = .ok ((Parse.outcome n (t :: rest)).1.mapError (report body mark)) j ∧
      At body j (Parse.outcome n (t :: rest)).2 ∧ i < j := by
  have hagrees : Agrees body mark (i + 1) i (statement (body ++ mark :: tail) m i) (Parse.statement n (t :: rest)) :=
    statement_agrees hbar hm hn i t rest h (Nat.lt_succ_self _)
  unfold Parse.outcome
  cases hstatement : Parse.statement n (t :: rest) with
  | ok r =>
    obtain ⟨j, hj, hat, hle⟩ := hstatement ▸ hagrees
    exact ⟨j, by simp [round, hj], hat, hle⟩
  | error f =>
    obtain ⟨j, k, hj, hsite, hat, hk, hkj⟩ := hstatement ▸ hagrees
    have hlengths := And.intro h.length (And.intro hsite.length hat.length)
    obtain ⟨l, hl, hresume, hle, hlt⟩ := synchronize_at hbar hend tail hat (m := m) (by omega)
    refine ⟨l, ?_, hresume, ?_⟩
    · have hindex : k = body.length - f.site.length := by omega
      simp only [round, hj, bind_ok hl, mapError_error, report, ← hindex]
      rfl
    -- at the end nothing is left out, but then the end itself is ahead
    · by_cases hrest : f.rest = []
      · rw [hrest, List.length_nil] at hlengths
        grind
      · have := hlt hrest
        omega

theorem rounds_at {left bound : Nat} (h : At body i rest) (hm : rest.length < m) (hn : rest.length < n)
    (hleft : rest.length < left) (hbound : rest.length ≤ bound) :
    rounds (body ++ mark :: tail) m left i =
      .ok ((Parse.outcomes n bound rest).map (Except.mapError (report body mark))) body.length := by
  induction left generalizing i rest bound with
  | zero => omega
  | succ left ih =>
    rw [rounds, bind_ok (peek_at h), isEnd_at hbar hend h]
    cases rest with
    | nil =>
      have hi : i = body.length := h.length
      cases bound <;> simp [Parse.outcomes, hi, pure, EStateM.pure]
    | cons t after =>
      obtain ⟨j, hround, hat, hlt⟩ := round_at hbar hend tail h hm hn
      have hlengths := And.intro h.length hat.length
      simp only [List.length_cons] at hlengths hm hn hleft hbound
      obtain ⟨bound, rfl⟩ : ∃ k, bound = k + 1 := ⟨bound - 1, by omega⟩
      simp only [List.isEmpty_cons, Bool.false_eq_true, if_false]
      have hmore : rounds (body ++ mark :: tail) m left j = .ok ((Parse.outcomes n bound _).map _) body.length :=
        ih hat (by omega) (by omega) (by omega) (by omega)
      rw [bind_ok hround, bind_ok hmore]
      rfl

end Programs

/-! ## The tokens of a program -/

theorem isEnd_of_mem_body {tokens : List Token} (h : t ∈ Parse.body tokens) : isEnd t = false := by
  simpa using List.all_eq_true.1 List.all_takeWhile t h

theorem endMark_append {ts : List Token} (hts : ∀ t ∈ ts, isEnd t = false) (rest : List Token) :
    Parse.endMark (ts ++ rest) = Parse.endMark rest := by
  have hnone : ts.find? isEnd = none := by simpa using hts
  simp [Parse.endMark, hnone]

theorem marked_eq (tokens : List Token) :
    ∃ tail, marked tokens = Parse.body tokens ++ Parse.endMark tokens :: tail := by
  obtain ⟨rest, htokens, hrest⟩ := Parse.exists_eq_body_append tokens
  have hmark : Parse.endMark tokens = Parse.endMark rest := by
    conv => lhs; rw [htokens]
    exact endMark_append (fun t => isEnd_of_mem_body) rest
  rw [hmark]
  cases rest with
  | nil =>
    have hlast : tokens.getLast?.any isEnd = false := by
      rw [htokens, List.append_nil]
      cases hl : (Parse.body tokens).getLast? with
      | none => rfl
      | some t => exact isEnd_of_mem_body (List.mem_of_getLast? hl)
    refine ⟨[], ?_⟩
    rw [marked, hlast]
    simpa [Parse.endMark] using htokens
  | cons t tail =>
    have ht : isEnd t = true := by simpa [isEnd] using hrest t rfl
    have hfirst : Parse.endMark (t :: tail) = t := by simp [Parse.endMark, ht]
    rw [hfirst, marked]
    split
    · exact ⟨tail, htokens⟩
    · refine ⟨tail ++ [.endOfInput .nowhere], ?_⟩
      conv => lhs; rw [htokens]
      simp

theorem isEnd_endMark (tokens : List Token) : isEnd (Parse.endMark tokens) = true := by
  unfold Parse.endMark
  cases h : tokens.find? isEnd with
  | none => rfl
  | some t => exact List.find?_some h

theorem barred_body (tokens : List Token) : Barred (Parse.body tokens) (Parse.endMark tokens) where
  inside _ := isEnd_of_mem_body
  kind := by
    have h := isEnd_endMark tokens
    simp only [isEnd, decide_eq_true_eq] at h
    simp [barriers, h]
  blocks := .inl (isEnd_endMark tokens)

theorem outcomes_bound (tokens : List Token) {n n' bound bound' : Nat} (hn : (Parse.body tokens).length < n)
    (hn' : (Parse.body tokens).length < n') (hbound : (Parse.body tokens).length ≤ bound)
    (hbound' : (Parse.body tokens).length ≤ bound') :
    (Parse.outcomes n bound (Parse.body tokens)).map
        (Except.mapError (report (Parse.body tokens) (Parse.endMark tokens))) =
      (Parse.outcomes n' bound' (Parse.body tokens)).map
        (Except.mapError (report (Parse.body tokens) (Parse.endMark tokens))) := by
  have hrounds := rounds_at (barred_body tokens) (isEnd_endMark tokens) [] ⟨[], rfl, rfl⟩ hn hn hn hbound
  have hrounds' := rounds_at (barred_body tokens) (isEnd_endMark tokens) [] ⟨[], rfl, rfl⟩ hn hn' hn hbound'
  exact (EStateM.Result.ok.inj (hrounds.symm.trans hrounds')).1

theorem ofTokens_eq_summary (tokens : List Token) {n bound : Nat} (hn : (Parse.body tokens).length < n)
    (hbound : (Parse.body tokens).length ≤ bound) :
    Program.ofTokens tokens = summary ((Parse.outcomes n bound (Parse.body tokens)).map
      (Except.mapError (report (Parse.body tokens) (Parse.endMark tokens)))) := by
  rw [outcomes_bound tokens hn (Nat.lt_succ_self _) hbound (Nat.le_refl _)]
  simp only [Program.ofTokens, Parse.statements_eq_outcomes, summary, errorsOf_mapError, filterMap_mapError]
  cases errorsOf (Parse.outcomes ((Parse.body tokens).length + 1) (Parse.body tokens).length
    (Parse.body tokens)) <;> rfl

theorem findIdx_marked (tokens : List Token) : (marked tokens).findIdx isEnd = (Parse.body tokens).length := by
  obtain ⟨tail, htail⟩ := marked_eq tokens
  have hbody : (Parse.body tokens).findIdx isEnd = (Parse.body tokens).length :=
    List.findIdx_eq_length.2 fun t => isEnd_of_mem_body
  rw [htail, List.findIdx_append, hbody]
  simp [List.findIdx_cons, isEnd_endMark]

theorem ofTokens_congr {tokens tokens' : List Token} (hbody : Parse.body tokens = Parse.body tokens')
    (hmark : Parse.endMark tokens = Parse.endMark tokens') : Program.ofTokens tokens = Program.ofTokens tokens' := by
  rw [ofTokens_eq_summary tokens (Nat.lt_succ_self _) (Nat.le_refl _),
    ofTokens_eq_summary tokens' (Nat.lt_succ_self _) (Nat.le_refl _), hbody, hmark]

theorem ofTokens_take (tokens : List Token) :
    Program.ofTokens (tokens.take ((Parse.body tokens).length + 1)) = Program.ofTokens tokens := by
  obtain ⟨rest, htokens, hrest⟩ := Parse.exists_eq_body_append tokens
  have hinside : ∀ t ∈ Parse.body tokens, isEnd t = false := fun t => isEnd_of_mem_body
  have hkinds : ∀ t ∈ Parse.body tokens, t.kind ≠ .endOfInput := fun t ht => by simpa [isEnd] using hinside t ht
  have htake : tokens.take ((Parse.body tokens).length + 1) = Parse.body tokens ++ rest.take 1 := by
    calc tokens.take ((Parse.body tokens).length + 1)
        = (Parse.body tokens ++ rest).take ((Parse.body tokens).length + 1) := by rw [← htokens]
      _ = Parse.body tokens ++ rest.take 1 := List.take_length_add_append 1
  have hhead : (rest.take 1).head? = rest.head? := by cases rest <;> rfl
  apply ofTokens_congr
  · rw [htake, Parse.body_append hkinds (hhead ▸ hrest)]
  · have hmark : Parse.endMark (rest.take 1) = Parse.endMark rest := by
      cases rest with
      | nil => rfl
      | cons t tail => simp [Parse.endMark, isEnd, hrest t rfl]
    rw [htake, endMark_append hinside, hmark, ← endMark_append hinside, ← htokens]

end Walk

/-- Every look is at a token, no step passes the first mark for the end of input, and no loop is endless. -/
theorem cursor_stays_on_tokens (tokens : List Token) :
    let places := Walk.marked tokens
    let last := places.findIdx Parse.isEnd
    last < places.length ∧
    (∀ bound, last < bound → ∃ outcomes, Walk.rounds places bound bound 0 = .ok outcomes last ∧
      Walk.summary outcomes = Program.ofTokens tokens) ∧
    (∀ bound i, last < bound → i < last → ∃ outcome j, Walk.round places bound i = .ok outcome j ∧ i < j ∧ j ≤ last) ∧
    Program.ofTokens (tokens.take (last + 1)) = Program.ofTokens tokens := by
  intro places last
  obtain ⟨tail, htail⟩ := Walk.marked_eq tokens
  have hlast : last = (Parse.body tokens).length := Walk.findIdx_marked tokens
  have hbar := Walk.barred_body tokens
  have hend := Walk.isEnd_endMark tokens
  have hplaces : places = Parse.body tokens ++ Parse.endMark tokens :: tail := htail
  rw [hlast, hplaces]
  refine ⟨by simp, fun bound hbound => ?_, fun bound i hbound hi => ?_, Walk.ofTokens_take tokens⟩
  · have hrounds := Walk.rounds_at hbar hend tail ⟨[], rfl, rfl⟩ hbound hbound hbound (Nat.le_refl _)
    exact ⟨_, hrounds, (Walk.ofTokens_eq_summary tokens hbound (Nat.le_refl _)).symm⟩
  · obtain ⟨t, rest, hat⟩ := Walk.exists_at hi
    have hlength := hat.length
    obtain ⟨j, hround, hj, hlt⟩ := Walk.round_at hbar hend tail hat (m := bound) (n := bound) (by omega)
      (by omega)
    exact ⟨_, j, hround, hlt, by have := hj.length; omega⟩

namespace Walk

def strayed : List Token := [.bare .closeBrace, .bare .varKeyword, .endOfInput .nowhere, .bare .varKeyword]

theorem rounds_strayed : (marked strayed).findIdx Parse.isEnd = 2 ∧ (marked strayed).length = 5 ∧
    (∃ outcomes, rounds (marked strayed) 3 3 0 = .ok outcomes 2 ∧ summary outcomes = Program.ofTokens strayed) ∧
    (∃ outcome j, round (marked strayed) 3 0 = .ok outcome j ∧ 0 < j ∧ j ≤ 2) ∧
    Program.ofTokens (strayed.take 3) = Program.ofTokens strayed := by
  obtain ⟨-, hrounds, hround, htake⟩ := cursor_stays_on_tokens strayed
  exact ⟨rfl, rfl, hrounds 3 (by decide), hround 3 0 (by decide) (by decide), htake⟩

end Walk

end BlockScript
