import BlockScript.Proofs.Cursor

/-!
# Where parsing goes on after an error

A statement that is cut short by a keyword fails at that keyword. The keyword
does not begin the next statement then: at least one token is left out before
parsing goes on, and this is the keyword itself. So what follows is parsed from
the next semicolon or keyword on, not from the keyword that was met first.
-/

namespace BlockScript

open Parse (isEnd Failure)
open Walk

/-! ## Where parsing resumes -/

/-- The place `n` is behind a semicolon, in front of a keyword that begins a statement, or at the end. -/
def Breaks (tokens : List Token) (n : Nat) : Prop :=
  (∃ t, tokens[n - 1]? = some t ∧ t.kind = .semicolon) ∨
  (∃ t, tokens[n]? = some t ∧ t.kind.startsStatement = true) ∨ tokens.length ≤ n

structure Resumes (tokens : List Token) (n : Nat) : Prop where
  ahead : 0 < n
  within : n ≤ tokens.length
  breaks : Breaks tokens n
  first : ∀ m, 0 < m → m < n → ¬ Breaks tokens m

instance (tokens : List Token) (n : Nat) : Decidable (Breaks tokens n) :=
  decidable_of_iff
    (tokens[n - 1]?.any (·.kind = .semicolon) ∨ tokens[n]?.any (·.kind.startsStatement) ∨ tokens.length ≤ n)
    (by simp [Breaks, Option.any_eq_true])

theorem Resumes.unique {tokens : List Token} {n m : Nat} (hn : Resumes tokens n) (hm : Resumes tokens m) : n = m := by
  rcases Nat.lt_trichotomy n m with hlt | heq | hlt
  · exact absurd hn.breaks (hm.first n hn.ahead hlt)
  · exact heq
  · exact absurd hm.breaks (hn.first m hm.ahead hlt)

theorem breaks_cons {t : Token} {rest : List Token} {n : Nat} (hn : 0 < n) :
    Breaks (t :: rest) (n + 1) ↔ Breaks rest n := by
  obtain ⟨n, rfl⟩ : ∃ k, n = k + 1 := ⟨n - 1, by omega⟩
  simp [Breaks]

theorem breaks_one {t : Token} {rest : List Token} (hrest : rest ≠ []) :
    Breaks (t :: rest) 1 ↔ t.kind = .semicolon ∨ rest.head?.any (·.kind.startsStatement) = true := by
  cases rest with
  | nil => contradiction
  | cons u rest => simp [Breaks]

theorem synchronize_resumes {tokens : List Token} (h : tokens ≠ []) :
    ∃ n, Resumes tokens n ∧ Parse.synchronize tokens = tokens.drop n := by
  induction tokens with
  | nil => contradiction
  | cons t rest ih =>
    rw [synchronize_cons]
    by_cases hrest : rest = []
    · subst hrest
      exact ⟨1, ⟨by omega, by simp, by simp [Breaks], by omega⟩, by simp [Parse.synchronize]⟩
    by_cases hbreaks : Breaks (t :: rest) 1
    · refine ⟨1, ⟨by omega, by simp, hbreaks, by omega⟩, ?_⟩
      rw [if_pos (by simpa using (breaks_one hrest).1 hbreaks), List.drop_one, List.tail_cons]
    · obtain ⟨n, hn, hdrop⟩ := ih hrest
      have hlength := hn.within
      refine ⟨n + 1, ⟨by omega, by simpa using hlength, (breaks_cons hn.ahead).2 hn.breaks, fun m hm hlt => ?_⟩, ?_⟩
      · by_cases hone : m = 1
        · rwa [hone]
        · obtain ⟨m, rfl⟩ : ∃ k, m = k + 1 := ⟨m - 1, by omega⟩
          rw [breaks_cons (by omega)]
          exact hn.first m (by omega) (by omega)
      · have hnot := mt (breaks_one hrest).2 hbreaks
        simpa [not_or.1 hnot] using hdrop

/-! ## Tokens behind a statement -/

namespace Parse

def extend (more : List Token) : Except Failure (Stmt × List Token) → Except Failure (Stmt × List Token)
  | .ok (s, rest) => .ok (s, rest ++ more)
  | .error f => .error ⟨f.cause, f.site ++ more, f.rest ++ more⟩

end Parse

namespace Walk

variable {S X rest : List Token} {b t : Token} {i j m n lo err : Nat}

theorem At.append (h : At S i rest) (more : List Token) : At (S ++ more) i (rest ++ more) := by
  obtain ⟨done, rfl, rfl⟩ := h
  exact ⟨done, by simp, rfl⟩

theorem Agrees.extend {r : EStateM.Result Stop Nat Stmt} {x : Except Failure (Stmt × List Token)}
    (h : Agrees S b lo err r x) (mark : Token) :
    Agrees (S ++ b :: X) mark lo err r (Parse.extend (b :: X) x) := by
  match x, h with
  | .ok (s, rest), ⟨j, hr, hj, hle⟩ => exact ⟨j, hr, hj.append _, hle⟩
  | .error f, ⟨j, k, hr, hk, hj, hle, hkj⟩ =>
    refine ⟨j, k, ?_, hk.append _, hj.append _, hle, hkj⟩
    rw [hr]
    cases f.site <;> rfl

theorem barred_of_inside (h : ∀ u ∈ rest, isEnd u = false) : Barred rest (.endOfInput .nowhere) :=
  ⟨h, by decide, .inl rfl⟩

theorem statement_append (hbar : Barred S b) (hX : ∀ t ∈ b :: X, isEnd t = false) (h : At S i (t :: rest))
    (hn : (t :: rest).length < n) (hm : (t :: rest ++ b :: X).length < m) :
    Parse.statement m (t :: rest ++ b :: X) = Parse.extend (b :: X) (Parse.statement n (t :: rest)) := by
  have hlong : Barred (S ++ b :: X) (.endOfInput .nowhere) :=
    barred_of_inside fun u hu => (List.mem_append.1 hu).elim (hbar.inside u) (hX u)
  -- one walk, held up by the keyword or going on behind it
  have hagrees : Agrees (S ++ b :: X) (.endOfInput .nowhere) (i + 1) i
      (statement ((S ++ b :: X) ++ .endOfInput .nowhere :: []) (max m n) i)
      (Parse.statement m (t :: rest ++ b :: X)) :=
    statement_agrees hlong (Nat.le_trans hm (Nat.le_max_left m n)) hm i t _ (h.append _) (Nat.lt_succ_self _)
  have hshort : Agrees S b (i + 1) i (statement (S ++ b :: (X ++ [.endOfInput .nowhere])) (max m n) i)
      (Parse.statement n (t :: rest)) :=
    statement_agrees hbar (Nat.le_trans hn (Nat.le_max_right m n)) hn i t rest h (Nat.lt_succ_self _)
  have hsame : S ++ b :: (X ++ [.endOfInput .nowhere]) = (S ++ b :: X) ++ .endOfInput .nowhere :: [] := by simp
  exact hagrees.unique (hsame ▸ hshort.extend _)

theorem site_length_of_error {f : Failure} (hinside : ∀ u ∈ t :: rest, isEnd u = false)
    (hn : (t :: rest).length < n) (herror : Parse.statement n (t :: rest) = .error f) :
    f.site.length ≤ (t :: rest).length := by
  have hagrees : Agrees (t :: rest) (.endOfInput .nowhere) 1 0
      (statement (t :: rest ++ .endOfInput .nowhere :: []) n 0) (Parse.statement n (t :: rest)) :=
    statement_agrees (barred_of_inside hinside) hn hn 0 t rest ⟨[], rfl, rfl⟩ (Nat.lt_succ_self _)
  rw [herror] at hagrees
  obtain ⟨j, k, -, hk, -⟩ := hagrees
  have hlength := hk.length
  omega

theorem outcome_suffix (hinside : ∀ u ∈ t :: rest, isEnd u = false) (hn : (t :: rest).length < n) :
    (Parse.outcome n (t :: rest)).2 ⊆ t :: rest ∧
      (Parse.outcome n (t :: rest)).2.length < (t :: rest).length := by
  obtain ⟨j, -, hat, hlt⟩ := round_at (barred_of_inside hinside) rfl [] ⟨[], rfl, rfl⟩ hn hn
  have hlength := hat.length
  exact ⟨hat.subset, by omega⟩

theorem site_length_of_mem {f : Failure} {bound : Nat} (hinside : ∀ u ∈ rest, isEnd u = false) (hn : rest.length < n)
    (hmem : .error f ∈ Parse.outcomes n bound rest) : f.site.length ≤ rest.length := by
  fun_induction Parse.outcomes n bound rest with
  | case1 bound t rest ih =>
    obtain ⟨hsubset, hlt⟩ := outcome_suffix hinside hn
    rcases List.mem_cons.1 hmem with hfirst | hmore
    · unfold Parse.outcome at hfirst
      cases hstatement : Parse.statement n (t :: rest) with
      | ok r => simp [hstatement] at hfirst
      | error g =>
        simp only [hstatement, Except.error.injEq] at hfirst
        rw [hfirst]
        exact site_length_of_error hinside hn hstatement
    · have hle := ih (fun u hu => hinside u (hsubset hu)) (by omega) hmore
      omega
  | case2 bound rest h => simp at hmem

/-- The keyword gets the error that the end of input would get, and what is parsed next is behind it. -/
theorem outcomes_append (hbar : Barred S b) (hX : ∀ t ∈ b :: X, isEnd t = false) {f : Failure} {bound bound' : Nat}
    (h : At S i rest) (hn : rest.length < n) (hm : (rest ++ b :: X).length < m)
    (hbound' : (rest ++ b :: X).length ≤ bound') (honly : errorsOf (Parse.outcomes n bound rest) = [f])
    (hsite : f.site = []) :
    ∃ left, (Parse.synchronize (b :: X)).length ≤ left ∧
      errorsOf (Parse.outcomes m bound' (rest ++ b :: X)) =
        ⟨f.cause, b :: X, b :: X⟩ :: errorsOf (Parse.outcomes m left (Parse.synchronize (b :: X))) := by
  induction bound generalizing i rest bound' with
  | zero => simp [Parse.outcomes, errorsOf] at honly
  | succ bound ih =>
    cases rest with
    | nil => simp [Parse.outcomes, errorsOf] at honly
    | cons t rest =>
      have happend := statement_append hbar hX h hn hm
      have hagrees : Agrees S b (i + 1) i (statement (S ++ b :: X) n i) (Parse.statement n (t :: rest)) :=
        statement_agrees hbar hn hn i t rest h (Nat.lt_succ_self _)
      obtain ⟨bound', rfl⟩ : ∃ k, bound' = k + 1 := ⟨bound' - 1, by simp at hbound'; omega⟩
      simp only [List.cons_append, Parse.outcomes, Parse.outcome] at happend honly ⊢
      rw [happend]
      cases hstatement : Parse.statement n (t :: rest) with
      | ok r =>
        obtain ⟨s, after⟩ := r
        simp only [hstatement, errorsOf_ok, Parse.extend] at honly hagrees ⊢
        obtain ⟨j, -, hj, hlt⟩ := hagrees
        have hlengths := And.intro h.length hj.length
        simp only [List.length_cons, List.length_append] at hlengths hn hm hbound'
        exact ih hj (by omega) (by simp; omega) (by simp; omega) honly
      | error g =>
        simp only [hstatement, errorsOf_error, Parse.extend, List.cons.injEq] at honly hagrees ⊢
        obtain ⟨rfl, -⟩ := honly
        obtain ⟨j, k, -, hk, hj, -, hkj⟩ := hagrees
        -- the cursor is never behind the error, so it is at the end as well
        have hrest : g.rest = [] := by
          have hlengths := And.intro hk.length hj.length
          rw [hsite, List.length_nil] at hlengths
          exact List.length_eq_zero_iff.1 (by omega)
        obtain ⟨l, hl, hdrop⟩ := synchronize_resumes (List.cons_ne_nil b X)
        have hahead := hl.ahead
        refine ⟨bound', ?_, ?_⟩
        · simp only [List.length_cons, List.length_append] at hbound'
          rw [hdrop, List.length_drop, List.length_cons]
          omega
        · rw [hsite, hrest, List.nil_append]
          exact ⟨rfl, rfl⟩

end Walk

/-! ## The errors of a program -/

def Program.errors (tokens : List Token) : List ParseError :=
  match Program.ofTokens tokens with
  | .ok _ => []
  | .error errors => errors

def ParseError.shift (distance : Nat) (e : ParseError) : ParseError := { e with index := distance + e.index }

namespace Program

theorem errors_eq_outcomes (tokens : List Token) {n bound : Nat} (hn : (Parse.body tokens).length < n)
    (hbound : (Parse.body tokens).length ≤ bound) :
    errors tokens = (errorsOf (Parse.outcomes n bound (Parse.body tokens))).map
      (report (Parse.body tokens) (Parse.endMark tokens)) := by
  rw [errors, ofTokens_eq_summary tokens hn hbound, summary, errorsOf_mapError]
  cases (errorsOf (Parse.outcomes n bound (Parse.body tokens))).map
    (report (Parse.body tokens) (Parse.endMark tokens)) <;> rfl

theorem ofTokens_of_errors {tokens : List Token} {e : ParseError} {es : List ParseError}
    (h : errors tokens = e :: es) : ofTokens tokens = .error (e :: es) := by
  unfold errors at h
  split at h
  · contradiction
  · rw [← h]
    assumption

end Program

namespace Parse

theorem body_append_of_inside {ts : List Token} (hts : ∀ t ∈ ts, isEnd t = false) (rest : List Token) :
    body (ts ++ rest) = ts ++ body rest :=
  List.takeWhile_append_of_pos fun t ht => by simp [hts t ht]

theorem body_of_inside {ts : List Token} (hts : ∀ t ∈ ts, isEnd t = false) : body ts = ts := by
  have happend := body_append_of_inside hts []
  rwa [List.append_nil, show body [] = [] from rfl, List.append_nil] at happend

theorem body_drop {tokens : List Token} {n : Nat} (h : n ≤ (body tokens).length) :
    body (tokens.drop n) = (body tokens).drop n ∧ endMark (tokens.drop n) = endMark tokens := by
  induction n generalizing tokens with
  | zero => exact ⟨rfl, rfl⟩
  | succ n ih =>
    cases tokens with
    | nil => simp [body] at h
    | cons t rest =>
      by_cases ht : isEnd t = true
      · simp [body, ht] at h
      · have hinside : ∀ u ∈ [t], isEnd u = false := by simpa using ht
        have hbody : body (t :: rest) = t :: body rest := body_append_of_inside hinside rest
        rw [hbody, List.length_cons, Nat.add_le_add_iff_right] at h
        have hmark : endMark (t :: rest) = endMark rest := endMark_append hinside rest
        rw [hbody, List.drop_succ_cons, List.drop_succ_cons, hmark]
        exact ih h

end Parse

theorem report_shift (front : List Token) {rest : List Token} (mark : Token) {f : Failure}
    (h : f.site.length ≤ rest.length) :
    report (front ++ rest) mark f = (report rest mark f).shift front.length := by
  simp only [report, ParseError.shift, List.length_append]
  congr 1
  omega

theorem map_report_drop (tokens : List Token) {n m left : Nat} (hn : n ≤ (Parse.body tokens).length)
    (hm : (Parse.body tokens).length < m) (hleft : ((Parse.body tokens).drop n).length ≤ left) :
    (errorsOf (Parse.outcomes m left ((Parse.body tokens).drop n))).map
        (report (Parse.body tokens) (Parse.endMark tokens)) =
      (Program.errors (tokens.drop n)).map (.shift n) := by
  obtain ⟨hbody, hmark⟩ := Parse.body_drop hn
  have hlength : ((Parse.body tokens).take n).length = n := by rw [List.length_take, Nat.min_eq_left hn]
  have hshorter : ((Parse.body tokens).drop n).length < m := by
    rw [List.length_drop]
    omega
  rw [Program.errors_eq_outcomes (tokens.drop n) (hbody ▸ hshorter) (hbody ▸ hleft), hbody, hmark, List.map_map]
  refine List.map_congr_left fun f hf => ?_
  have hsite : f.site.length ≤ ((Parse.body tokens).drop n).length :=
    site_length_of_mem (fun t ht => isEnd_of_mem_body (List.mem_of_mem_drop ht)) hshorter (mem_errorsOf.1 hf)
  have hreport := report_shift ((Parse.body tokens).take n) (Parse.endMark tokens) hsite
  rwa [List.take_append_drop, hlength] at hreport

theorem isEnd_of_keyword {b : Token} (hb : b.kind ∈ keywords) : isEnd b = false := by
  have hne : b.kind ≠ .endOfInput := fun heq => absurd (heq ▸ hb) (by decide)
  simp [isEnd, hne]

theorem exists_failure_at_end {S : List Token} {e : ParseError} (hinside : ∀ t ∈ S, isEnd t = false)
    (hcut : Program.ofTokens S = .error [e]) (hindex : e.index = S.length) :
    ∃ f, errorsOf (Parse.outcomes (S.length + 1) S.length S) = [f] ∧ f.site = [] ∧ f.cause = e.cause := by
  have hbody := Parse.body_of_inside hinside
  have herrors : Program.errors S = [e] := by rw [Program.errors, hcut]
  rw [Program.errors_eq_outcomes S (Nat.lt_succ_self _) (Nat.le_refl _), hbody] at herrors
  obtain ⟨f, honly, rfl⟩ := List.map_eq_singleton_iff.1 herrors
  have hmem : .error f ∈ Parse.outcomes (S.length + 1) S.length S := mem_errorsOf.1 (by simp [honly])
  have hle := site_length_of_mem hinside (Nat.lt_succ_self _) hmem
  have hsite : f.site.length = 0 := by
    simp only [report] at hindex
    omega
  exact ⟨f, honly, List.length_eq_zero_iff.1 hsite, rfl⟩

theorem errors_of_first {tokens : List Token} {s : Stmt} {n : Nat} (hn : n ≤ (Parse.body tokens).length)
    (hs : Parse.statement ((Parse.body tokens).length + 1) (Parse.body tokens) = .ok (s, (Parse.body tokens).drop n)) :
    Program.errors tokens = (Program.errors (tokens.drop n)).map (.shift n) := by
  have hleft : ((Parse.body tokens).drop n).length ≤ (Parse.body tokens).length := by
    rw [List.length_drop]
    omega
  rw [← map_report_drop tokens hn (Nat.lt_succ_self _) hleft,
    Program.errors_eq_outcomes tokens (Nat.lt_succ_self _) (Nat.le_succ _)]
  cases hbody : Parse.body tokens with
  | nil =>
    rw [hbody] at hs
    cases hs
  | cons t rest =>
    simp only [Parse.outcomes, Parse.outcome]
    rw [hbody] at hs
    rw [hs, errorsOf_ok]

theorem errors_cut_short {S B : List Token} {b : Token} {e : ParseError}
    (hS : ∀ t ∈ S, t.kind ≠ .endOfInput ∧ t.kind ≠ .openBrace) (hcut : Program.ofTokens S = .error [e])
    (hindex : e.index = S.length) (hb : b.kind ∈ keywords) :
    ∃ n, Resumes (Parse.body (b :: B)) n ∧ Program.errors (S ++ b :: B) =
      ⟨e.cause, b, S.length⟩ :: (Program.errors ((b :: B).drop n)).map (.shift (S.length + n)) := by
  have hinside : ∀ t ∈ S, isEnd t = false := fun t ht => by simp [isEnd, (hS t ht).1]
  have hbar : Barred S b := ⟨hinside, List.mem_cons_of_mem _ hb, .inr fun t ht => (hS t ht).2⟩
  have hfirst : ∀ t ∈ [b], isEnd t = false := by simpa using isEnd_of_keyword hb
  have hstart : Parse.body (b :: B) = b :: Parse.body B := Parse.body_append_of_inside hfirst B
  have hwhole : Parse.body (S ++ b :: B) = S ++ Parse.body (b :: B) := Parse.body_append_of_inside hinside _
  obtain ⟨f, honly, hsite, hcause⟩ := exists_failure_at_end hinside hcut hindex
  obtain ⟨n, hresumes, hdrop⟩ := synchronize_resumes (hstart ▸ List.cons_ne_nil b (Parse.body B))
  refine ⟨n, hresumes, ?_⟩
  obtain ⟨left, hleft, houtcomes⟩ := outcomes_append hbar (fun t ht => isEnd_of_mem_body (hstart ▸ ht)) ⟨[], rfl, rfl⟩
    (Nat.lt_succ_self _) (Nat.lt_succ_self _) (Nat.le_refl _) honly hsite
  have hplace : (Parse.body (S ++ b :: B)).drop (S.length + n) = Parse.synchronize (Parse.body (b :: B)) := by
    rw [hwhole, List.drop_length_add_append, hdrop]
  rw [← hstart, ← hplace] at hleft
  rw [← hstart, ← hplace, ← hwhole] at houtcomes
  have hwithin : S.length + n ≤ (Parse.body (S ++ b :: B)).length := by
    rw [hwhole, List.length_append]
    exact Nat.add_le_add_left hresumes.within _
  rw [Program.errors_eq_outcomes _ (Nat.lt_succ_self _) (Nat.le_refl _), houtcomes, List.map_cons,
    map_report_drop _ hwithin (Nat.lt_succ_self _) hleft, List.drop_length_add_append]
  simp [report, hwhole, hstart, hcause]

/-- A statement without blocks that the end of input cuts short is cut short by a keyword as well. The error is at
the keyword, and the errors behind it are those in the tokens from where parsing resumes. If the statement that the
keyword begins ends just there, these are all errors in the tokens from the keyword on. -/
theorem recovery_passes_keyword {S B : List Token} {b : Token} {e : ParseError}
    (hS : ∀ t ∈ S, t.kind ≠ .endOfInput ∧ t.kind ≠ .openBrace) (hcut : Program.ofTokens S = .error [e])
    (hindex : e.index = S.length) (hb : b.kind ∈ Walk.keywords) :
    let X := Parse.body (b :: B)
    ∃ n, Resumes X n ∧
      Program.ofTokens (S ++ b :: B) =
        .error (⟨e.cause, b, S.length⟩ :: (Program.errors ((b :: B).drop n)).map (.shift (S.length + n))) ∧
      ((∃ s, Parse.statement (X.length + 1) X = .ok (s, X.drop n)) →
        Program.ofTokens (S ++ b :: B) =
          .error (⟨e.cause, b, S.length⟩ :: (Program.errors (b :: B)).map (.shift S.length))) := by
  intro X
  obtain ⟨n, hresumes, herrors⟩ := errors_cut_short (B := B) hS hcut hindex hb
  refine ⟨n, hresumes, Program.ofTokens_of_errors herrors, fun ⟨s, hs⟩ => Program.ofTokens_of_errors ?_⟩
  rw [herrors, errors_of_first hresumes.within hs, List.map_map]
  congr 2
  funext e
  simp [ParseError.shift, Nat.add_assoc]

namespace Recovery

def unfinished : List Token := [.bare .varKeyword, .named (ascii "x"), .bare .equals]

def finished : List Token :=
  [.named (ascii "y"), .bare .equals, .named (ascii "x"), .bare .semicolon, .bare .closeParen]

theorem resumes_finished : Resumes (Parse.body (.bare .varKeyword :: finished)) 5 := by
  refine ⟨by decide, by decide, by decide, fun m hm hlt => ?_⟩
  have hnone : ∀ m < 5, 0 < m → ¬ Breaks (Parse.body (.bare .varKeyword :: finished)) m := by decide
  exact hnone m hlt hm

/-- The statement that is met ends where parsing resumes, so no error in it is lost. -/
theorem passes_finished :
    (∀ t ∈ unfinished, t.kind ≠ .endOfInput ∧ t.kind ≠ .openBrace) ∧
    Program.ofTokens unfinished = .error [⟨.undefinedExpression, .endOfInput .nowhere, 3⟩] ∧
    (∃ s, Parse.statement 7 (Parse.body (.bare .varKeyword :: finished)) =
      .ok (s, (Parse.body (.bare .varKeyword :: finished)).drop 5)) ∧
    Program.ofTokens (unfinished ++ .bare .varKeyword :: finished) =
      .error (⟨.undefinedExpression, .bare .varKeyword, 3⟩ ::
        (Program.errors ((.bare .varKeyword :: finished).drop 5)).map (.shift 8)) ∧
    Program.ofTokens (unfinished ++ .bare .varKeyword :: finished) =
      .error (⟨.undefinedExpression, .bare .varKeyword, 3⟩ ::
        (Program.errors (.bare .varKeyword :: finished)).map (.shift 3)) := by
  have hS : ∀ t ∈ unfinished, t.kind ≠ .endOfInput ∧ t.kind ≠ .openBrace := by decide
  have hcut : Program.ofTokens unfinished = .error [⟨.undefinedExpression, .endOfInput .nowhere, 3⟩] := rfl
  have hwhole : ∃ s, Parse.statement 7 (Parse.body (.bare .varKeyword :: finished)) =
      .ok (s, (Parse.body (.bare .varKeyword :: finished)).drop 5) := ⟨_, rfl⟩
  obtain ⟨n, hn, herrors, hall⟩ :=
    recovery_passes_keyword (B := finished) (b := .bare .varKeyword) hS hcut rfl (by decide)
  obtain rfl := hn.unique resumes_finished
  exact ⟨hS, hcut, hwhole, herrors, hall hwhole⟩

def nameless : List Token := [.bare .varKeyword, .bare .equals, .named (ascii "y")]

def looping : List Token :=
  [.bare .whileKeyword, .named (ascii "x"), .bare .openBrace, .bare .varKeyword, .named (ascii "y"), .bare .closeBrace]

/-- Behind a statement that is cut short, an error in the next one is not reported, and a next one without errors
gets one. -/
theorem not_errors_behind_unfinished :
    Program.ofTokens unfinished = .error [⟨.undefinedExpression, .endOfInput .nowhere, 3⟩] ∧
    Program.errors nameless = [⟨.expectedVariableName, .bare .equals, 1⟩] ∧
    Program.errors (unfinished ++ nameless) = [⟨.undefinedExpression, .bare .varKeyword, 3⟩] ∧
    Program.errors looping = [] ∧
    Program.errors (unfinished ++ looping) =
      [⟨.undefinedExpression, .bare .whileKeyword, 3⟩, ⟨.undefinedExpression, .bare .closeBrace, 8⟩] :=
  ⟨rfl, rfl, rfl, rfl, rfl⟩

end Recovery

end BlockScript
