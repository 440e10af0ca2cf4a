import BlockScript.Proofs.Recovery
import BlockScript.Proofs.Tokenizing
import BlockScript.Session

/-!
# Errors come in the order of the source

An error is reported at the token under the cursor, at the one just passed, or
at an equals sign passed long before, but never in front of the statement that
failed and never behind the cursor. The next statement begins behind the
cursor, so its errors are further on: no token is reported twice.
-/

namespace BlockScript

open Parse (isEnd Failure)
open Walk

/-- The error is at a token that stands in its place, from `first` to `last`. -/
structure Located (places : List Token) (first last : Nat) (e : ParseError) : Prop where
  first_le : first ≤ e.index
  le_last : e.index ≤ last
  token : places[e.index]? = some e.token

theorem Located.weaken {places : List Token} {first first' last : Nat} {e : ParseError}
    (h : Located places first last e) (hle : first' ≤ first) : Located places first' last e :=
  ⟨Nat.le_trans hle h.first_le, h.le_last, h.token⟩

namespace Walk

variable {body rest : List Token} {mark t : Token} {i k n : Nat} {f : Failure}

theorem report_located (h : At body k f.site) (hle : i ≤ k) (mark : Token) (tail : List Token) :
    (report body mark f).index = k ∧ Located (body ++ mark :: tail) i body.length (report body mark f) := by
  have hlength := h.length
  have hindex : (report body mark f).index = k := by
    simp only [report]
    omega
  refine ⟨hindex, ?_, ?_, ?_⟩
  · rwa [hindex]
  · rw [hindex]
    omega
  · rw [hindex]
    exact h.getElem? mark tail

section

variable (hbar : Barred body mark) (hend : isEnd mark = true) (tail : List Token)

include hbar hend

theorem outcome_located (h : At body i (t :: rest)) (hn : (t :: rest).length < n)
    (hfail : (Parse.outcome n (t :: rest)).1 = .error f) :
    Located (body ++ mark :: tail) i body.length (report body mark f) ∧
      ∀ j, At body j (Parse.outcome n (t :: rest)).2 → (Parse.outcome n (t :: rest)).2 ≠ [] →
        (report body mark f).index < j := by
  have hagrees : Agrees body mark (i + 1) i (statement (body ++ mark :: tail) n i) (Parse.statement n (t :: rest)) :=
    statement_agrees hbar hn hn i t rest h (Nat.lt_succ_self _)
  unfold Parse.outcome at hfail ⊢
  cases hstatement : Parse.statement n (t :: rest) with
  | ok r =>
    rw [hstatement] at hfail
    cases hfail
  | error f' =>
    rw [hstatement] at hfail hagrees
    cases hfail
    dsimp only
    obtain ⟨k', k, -, hsite, hrest, hik, hkk'⟩ := hagrees
    obtain ⟨hindex, hlocated⟩ := report_located hsite hik mark tail
    refine ⟨hlocated, fun j hj hleft => ?_⟩
    obtain ⟨l, -, hl, -, hlt⟩ := synchronize_at hbar hend tail hrest (Nat.lt_succ_self _)
    have hne : f.rest ≠ [] := by
      intro hnil
      rw [hnil] at hleft
      exact hleft rfl
    have hbehind := hlt hne
    have hlengths := And.intro hj.length hl.length
    omega

theorem outcomes_located (h : At body i rest) (hn : rest.length < n) (bound : Nat) :
    (∀ f ∈ errorsOf (Parse.outcomes n bound rest),
      Located (body ++ mark :: tail) i body.length (report body mark f)) ∧
      (errorsOf (Parse.outcomes n bound rest)).Pairwise fun f g =>
        (report body mark f).index < (report body mark g).index := by
  fun_induction Parse.outcomes n bound rest generalizing i with
  | case1 bound t rest ih =>
    obtain ⟨j, -, hj, hij⟩ := round_at hbar hend tail h hn hn
    have hlengths := And.intro h.length hj.length
    obtain ⟨hlater, hordered⟩ := ih hj (by omega)
    have hafter := fun f hf => (hlater f hf).weaken (Nat.le_of_lt hij)
    cases hfirst : (Parse.outcome n (t :: rest)).1 with
    | ok s =>
      rw [errorsOf_ok]
      exact ⟨hafter, hordered⟩
    | error f =>
      obtain ⟨hlocated, hbehind⟩ := outcome_located hbar hend tail h hn hfirst
      rw [errorsOf_error, List.forall_mem_cons, List.pairwise_cons]
      refine ⟨⟨hlocated, hafter⟩, fun g hg => ?_, hordered⟩
      -- where there is a later error, something was left to parse
      have hleft : (Parse.outcome n (t :: rest)).2 ≠ [] := by
        intro hnil
        rw [hnil] at hg
        cases bound <;> simp [Parse.outcomes, errorsOf] at hg
      exact Nat.lt_of_lt_of_le (hbehind j hj hleft) (hlater g hg).first_le
  | case2 bound rest hstop => simp [errorsOf]

end

end Walk

namespace Program

theorem ofTokens_eq (tokens : List Token) :
    (∃ program, ofTokens tokens = .ok program) ∨ ofTokens tokens = .error (errors tokens) ∧ errors tokens ≠ [] := by
  cases h : errors tokens with
  | cons e es => exact .inr ⟨ofTokens_of_errors h, by simp⟩
  | nil =>
    left
    rw [errors_eq_outcomes tokens (Nat.lt_succ_self _) (Nat.le_refl _)] at h
    rw [ofTokens_eq_summary tokens (Nat.lt_succ_self _) (Nat.le_refl _), summary, errorsOf_mapError, h]
    exact ⟨_, rfl⟩

theorem errors_located (tokens : List Token) :
    (∀ e ∈ errors tokens, Located (marked tokens) 0 ((marked tokens).findIdx isEnd) e) ∧
      (errors tokens).Pairwise fun e e' => e.index < e'.index := by
  obtain ⟨tail, htail⟩ := marked_eq tokens
  rw [errors_eq_outcomes tokens (Nat.lt_succ_self _) (Nat.le_refl _), findIdx_marked, htail]
  obtain ⟨hlocated, hordered⟩ := outcomes_located (barred_body tokens) (isEnd_endMark tokens) tail ⟨[], rfl, rfl⟩
    (Nat.lt_succ_self _) (Parse.body tokens).length
  refine ⟨fun e he => ?_, List.pairwise_map.mpr hordered⟩
  obtain ⟨f, hf, rfl⟩ := List.mem_map.mp he
  exact hlocated f hf

end Program

/-! ## Errors in a source -/

theorem Walk.marked_of_tokens {source terminator : Bytes} {ts : List Token}
    (h : Source.tokens source terminator = .ok ts) : marked ts = ts := by
  obtain ⟨us, q, rfl, -⟩ := Source.tokens_eq_ok h
  unfold marked
  rw [if_pos (by rw [List.getLast?_append]; rfl)]

theorem Program.ofSource_eq_grammatical {source terminator : Bytes} {es : List ParseError}
    (h : ofSource source terminator = .error (.grammatical es)) :
    ∃ ts, Source.tokens source terminator = .ok ts ∧ es = errors ts := by
  unfold ofSource at h
  split at h
  · cases h
  · rename_i ts hts
    split at h
    · rename_i es' hes
      cases h
      exact ⟨ts, hts, by rw [errors, hes]⟩
    · cases h

theorem pairwise_of_located {R : Token → Token → Prop} {places : List Token} (hR : places.Pairwise R) {first last : Nat}
    {es : List ParseError} (hes : ∀ e ∈ es, Located places first last e)
    (hordered : es.Pairwise fun e e' => e.index < e'.index) : es.Pairwise fun e e' => R e.token e'.token := by
  refine hordered.imp_of_mem fun {e e'} he he' hlt => ?_
  obtain ⟨hi, htoken⟩ := List.getElem?_eq_some_iff.mp (hes e he).token
  obtain ⟨hj, htoken'⟩ := List.getElem?_eq_some_iff.mp (hes e' he').token
  rw [← htoken, ← htoken']
  exact List.pairwise_iff_getElem.mp hR _ _ hi hj hlt

/-- Parsing gives a program, or else errors: each at a token of its own, none behind the first mark for the end of input,
and each further on than the one before. In a source this is the order of the bytes. -/
theorem errors_in_order :
    (∀ tokens : List Token, (∃ program, Program.ofTokens tokens = .ok program) ∨
      ∃ errors, Program.ofTokens tokens = .error errors ∧ errors ≠ [] ∧
        (∀ e ∈ errors, e.index ≤ (marked tokens).findIdx isEnd ∧ (marked tokens)[e.index]? = some e.token) ∧
        errors.Pairwise fun e e' => e.index < e'.index) ∧
    ∀ (source terminator : Bytes) (errors : List ParseError),
      Program.ofSource source terminator = .error (.grammatical errors) →
        errors.Pairwise fun e e' => e.token.position.offset < e'.token.position.offset := by
  refine ⟨fun tokens => ?_, fun source terminator errors h => ?_⟩
  · rcases Program.ofTokens_eq tokens with hok | ⟨herror, hne⟩
    · exact .inl hok
    · obtain ⟨hlocated, hordered⟩ := Program.errors_located tokens
      exact .inr ⟨_, herror, hne, fun e he => ⟨(hlocated e he).le_last, (hlocated e he).token⟩, hordered⟩
  · obtain ⟨ts, hts, rfl⟩ := Program.ofSource_eq_grammatical h
    obtain ⟨hlocated, hordered⟩ := Program.errors_located ts
    rw [marked_of_tokens hts] at hlocated
    exact pairwise_of_located ((Source.cut_of_tokens hts).ordered.imp And.left) hlocated hordered

namespace ErrorOrder

def careless : Bytes := ascii "1 = 2; var = 3; f("

def carelessTokens : List Token :=
  [⟨.number, ascii "1", ⟨0, 1, 1⟩⟩, ⟨.equals, ascii "=", ⟨2, 1, 3⟩⟩, ⟨.number, ascii "2", ⟨4, 1, 5⟩⟩,
   ⟨.semicolon, ascii ";", ⟨5, 1, 6⟩⟩, ⟨.varKeyword, ascii "var", ⟨7, 1, 8⟩⟩, ⟨.equals, ascii "=", ⟨11, 1, 12⟩⟩,
   ⟨.number, ascii "3", ⟨13, 1, 14⟩⟩, ⟨.semicolon, ascii ";", ⟨14, 1, 15⟩⟩, ⟨.identifier, ascii "f", ⟨16, 1, 17⟩⟩,
   ⟨.openParen, ascii "(", ⟨17, 1, 18⟩⟩, .endOfInput ⟨18, 1, 19⟩]

def carelessErrors : List ParseError :=
  [⟨.invalidTarget, ⟨.equals, ascii "=", ⟨2, 1, 3⟩⟩, 1⟩,
   ⟨.expectedVariableName, ⟨.equals, ascii "=", ⟨11, 1, 12⟩⟩, 5⟩,
   ⟨.undefinedExpression, .endOfInput ⟨18, 1, 19⟩, 10⟩]

theorem errors_careless :
    Program.ofSource careless (ascii "\n") = .error (.grammatical carelessErrors) ∧
      carelessErrors.Pairwise fun e e' => e.token.position.offset < e'.token.position.offset := by
  have htokens : Source.tokens careless (ascii "\n") = .ok carelessTokens := by decide +kernel
  have hcareless : Program.ofSource careless (ascii "\n") = .error (.grammatical carelessErrors) := by
    rw [Program.ofSource, htokens]
    rfl
  exact ⟨hcareless, errors_in_order.2 _ _ _ hcareless⟩

end ErrorOrder

end BlockScript
