import BlockScript.Proofs.Grammar

/-!
# Whatever is written is read back

The parser is run on the tokens of a phrase with more tokens behind them. An
expression is read back if what follows does not continue it; a statement if
what follows closes it. The loops of the parser are followed one operator at a
time: behind a first operand the parser is in the middle of its loop, and a
derivation of the grammar ends in exactly such a state.
-/

namespace BlockScript

namespace Parse

theorem ok_bind {ε α β : Type} (a : α) (f : α → Except ε β) : (Except.ok a >>= f) = f a := rfl

theorem expect_cons {kind : TokenKind} {cause : ParseCause} {t : Token} (h : t.kind = kind) (rest : List Token) :
    expect kind cause (t :: rest) = .ok (t, rest) := by
  rw [expect, if_pos h]

theorem isUnaryOperator_iff {t : Token} : isUnaryOperator t = true ↔ t.isSign := by
  simp [isUnaryOperator, Token.isSign]

/-! ## Levels and ranks -/

def Level.rank : Level → Nat
  | .or => 1
  | .and => 2
  | .equality => 3
  | .comparison => 4
  | .additive => 5
  | .multiplicative => 6

theorem Level.one_le_rank (l : Level) : 1 ≤ l.rank := by
  cases l <;> decide

theorem Level.rank_le_six (l : Level) : l.rank ≤ 6 := by
  cases l <;> decide

theorem Level.rank_inj {l l' : Level} (h : l.rank = l'.rank) : l = l' := by
  cases l <;> cases l' <;> first | rfl | cases h

theorem Level.exists_rank {rank : Nat} (h : rank < 7) (h1 : 1 ≤ rank) : ∃ l : Level, l.rank = rank := by
  have hall : ∀ r < 7, 1 ≤ r → ∃ l ∈ Level.all, l.rank = r := by decide
  obtain ⟨l, -, hl⟩ := hall rank h h1
  exact ⟨l, hl⟩

theorem hasOperator_iff (l : Level) (t : Token) :
    l.hasOperator t = true ↔ t.logicalRank?.or t.binaryRank? = some l.rank := by
  obtain ⟨kind, lexeme, position⟩ := t
  have hdisjoint : lexeme = ascii "*" ∨ lexeme = ascii "/" ∨ lexeme = ascii "%" →
      ¬ (lexeme = ascii "+" ∨ lexeme = ascii "-") := by
    rintro (rfl | rfl | rfl) <;> decide
  cases l <;> cases kind <;>
    simp [Level.hasOperator, Token.logicalRank?, Token.binaryRank?, Level.rank] <;> grind

theorem Level.rank_of_binary {t : Token} {q : Nat} (h : t.binaryRank? = some q) :
    ∃ l : Level, l.rank = q ∧ l.hasOperator t = true ∧ l.combine = .binary := by
  have hq : q = 3 ∨ q = 4 ∨ q = 5 ∨ q = 6 := by
    unfold Token.binaryRank? at h
    grind
  have hl : t.logicalRank? = none := by
    unfold Token.binaryRank? at h
    unfold Token.logicalRank?
    grind
  have key : ∀ l : Level, l.rank = q → l.hasOperator t = true := by
    intro l hr
    rw [hasOperator_iff, hl, h, hr, Option.none_or]
  rcases hq with rfl | rfl | rfl | rfl
  · exact ⟨.equality, rfl, key _ rfl, rfl⟩
  · exact ⟨.comparison, rfl, key _ rfl, rfl⟩
  · exact ⟨.additive, rfl, key _ rfl, rfl⟩
  · exact ⟨.multiplicative, rfl, key _ rfl, rfl⟩

theorem Level.rank_of_logical {t : Token} {q : Nat} (h : t.logicalRank? = some q) :
    ∃ l : Level, l.rank = q ∧ l.hasOperator t = true ∧ l.combine = .logical := by
  have key : ∀ l : Level, l.rank = q → l.hasOperator t = true := by
    intro l hr
    rw [hasOperator_iff, h, hr, Option.some_or]
  have hq : q = 1 ∨ q = 2 := by
    unfold Token.logicalRank? at h
    grind
  rcases hq with rfl | rfl
  · exact ⟨.or, rfl, key _ rfl, rfl⟩
  · exact ⟨.and, rfl, key _ rfl, rfl⟩

/-! ## The middle of a loop -/

def ranked (bound rank : Nat) : Parser Expr :=
  if rank ≤ 7 then levels (unary (expression bound) bound) bound (Level.all.drop (rank - 1))
  else if rank = 8 then call (expression bound) bound
  else primary (expression bound)

def continued (bound rank n : Nat) (e : Expr) : Parser Expr := fun rest =>
  if rank = 8 then callChain (expression bound) n e rest
  else match Level.all.find? fun l => l.rank = rank with
    | some l => leftChain l (ranked bound (rank + 1)) n e rest
    | none => .ok (e, rest)

theorem ranked_level (bound : Nat) (l : Level) (ts : List Token) :
    ranked bound l.rank ts =
      ranked bound (l.rank + 1) ts >>= fun (e, rest) => continued bound l.rank bound e rest := by
  cases l <;> rfl

theorem ranked_sign (bound : Nat) {t : Token} (ht : t.isSign) (ts : List Token) :
    ranked bound 7 (t :: ts) = ranked bound 7 ts >>= fun (e, rest) => .ok (.unary t e, rest) := by
  change unary _ _ _ = _
  rw [unary, if_pos (isUnaryOperator_iff.mpr ht)]
  rfl

theorem ranked_unsigned (bound : Nat) {t : Token} (ht : ¬ t.isSign) (ts : List Token) :
    ranked bound 7 (t :: ts) = ranked bound 8 (t :: ts) := by
  change unary _ _ _ = _
  rw [unary, if_neg (fun h => ht (isUnaryOperator_iff.mp h))]
  rfl

theorem ranked_primary (bound : Nat) {rank : Nat} (h : 9 ≤ rank) : ranked bound rank = primary (expression bound) := by
  rw [ranked, if_neg (by omega), if_neg (by omega)]

theorem continued_level (bound : Nat) (l : Level) (n : Nat) (e : Expr) (ts : List Token) :
    continued bound l.rank n e ts = leftChain l (ranked bound (l.rank + 1)) n e ts := by
  cases l <;> rfl

theorem continued_primary (bound : Nat) {rank : Nat} (h : 9 ≤ rank) (n : Nat) (e : Expr) (rest : List Token) :
    continued bound rank n e rest = .ok (e, rest) := by
  have hl : Level.all.find? (fun l => l.rank = rank) = none := by
    rw [List.find?_eq_none]
    intro l _
    have hr := l.rank_le_six
    simp only [decide_eq_true_eq]
    omega
  rw [continued, if_neg (by omega), hl]

theorem leftChain_stop {l : Level} {rest : List Token} (h : ∀ t ∈ rest.head?, l.hasOperator t ≠ true)
    (operand : Parser Expr) (n : Nat) (e : Expr) : leftChain l operand n e rest = .ok (e, rest) := by
  cases n with
  | zero => rfl
  | succ n =>
    cases rest with
    | nil => rfl
    | cons t rest => rw [leftChain, if_neg (h t rfl)]

theorem callChain_stop {rest : List Token} (h : ∀ t ∈ rest.head?, t.kind ≠ .openParen) (nested : Parser Expr) (n : Nat)
    (e : Expr) : callChain nested n e rest = .ok (e, rest) := by
  cases n with
  | zero => rfl
  | succ n =>
    cases rest with
    | nil => rfl
    | cons t rest => rw [callChain, if_neg (h t rfl)]

theorem continues?_of_hasOperator {l : Level} {t : Token} (h : l.hasOperator t = true) : t.continues? = some l.rank := by
  have hr := (hasOperator_iff l t).mp h
  unfold Token.continues?
  split
  · cases l <;> simp_all [Level.hasOperator]
  · cases l <;> simp_all [Level.hasOperator]
  · exact hr

theorem continued_stop {rank : Nat} {rest : List Token} (h : Stops rank rest) (bound n : Nat) (e : Expr) :
    continued bound rank n e rest = .ok (e, rest) := by
  unfold continued
  by_cases h8 : rank = 8
  · rw [if_pos h8]
    refine callChain_stop (fun t ht hk => ?_) _ n e
    have hc : t.continues? = some 8 := by simp [Token.continues?, hk]
    have := h t ht 8 hc
    omega
  · rw [if_neg h8]
    split
    · rename_i l hl
      have hr : l.rank = rank := by simpa using List.find?_some hl
      refine leftChain_stop (fun t ht ho => ?_) _ n e
      have := h t ht l.rank (continues?_of_hasOperator ho)
      omega
    · rfl

/-! ## Expressions in the middle of a loop -/

/-- On the tokens of an expression, the parser of a rank comes to the point where the expression is its operand so
far. It has then used up some of its bound, but less than there are tokens. -/
def ReadsAt (rank : Nat) (e : Expr) (ts : List Token) : Prop :=
  ∀ bound rest, ts.length ≤ bound → Stops (rank + 1) rest →
    ∃ n ≤ bound, bound < n + ts.length ∧ ranked bound rank (ts ++ rest) = continued bound rank n e rest

def Reads (e : Expr) (ts : List Token) : Prop :=
  ∀ bound rest, ts.length ≤ bound → Stops 0 rest → expression (bound + 1) (ts ++ rest) = .ok (e, rest)

theorem ReadsAt.ranked_eq {rank : Nat} {e : Expr} {ts : List Token} (h : ReadsAt rank e ts) {bound : Nat}
    {rest : List Token} (hb : ts.length ≤ bound) (hs : Stops rank rest) :
    ranked bound rank (ts ++ rest) = .ok (e, rest) := by
  obtain ⟨n, -, -, hn⟩ := h bound rest hb (hs.mono (Nat.le_succ rank))
  rw [hn, continued_stop hs]

theorem ReadsAt.exists_cons {rank : Nat} {e : Expr} {ts : List Token} (h : ReadsAt rank e ts) :
    ∃ t us, ts = t :: us := by
  obtain ⟨n, hle, hlt, -⟩ := h ts.length [] (Nat.le_refl _) (.nil _)
  cases ts with
  | nil => simp only [List.length_nil] at hlt hle; omega
  | cons t us => exact ⟨t, us, rfl⟩

theorem ReadsAt.not_isSign {e : Expr} {t : Token} {us : List Token} (h : ReadsAt 8 e (t :: us)) : ¬ t.isSign := by
  intro ht
  have hok : call _ _ (t :: us ++ []) = .ok (e, []) := h.ranked_eq (Nat.le_refl _) (.nil 8)
  have herr : primary (expression (t :: us).length) (t :: us ++ []) =
      .error (.here .undefinedExpression (t :: us ++ [])) := by
    rcases ht with hk | ⟨hk, -⟩
    · simp only [List.cons_append, primary, hk]
    · simp only [List.cons_append, primary, hk]
  rw [call, herr] at hok
  cases hok

theorem ReadsAt.loosen {rank : Nat} {e : Expr} {ts : List Token} (hr : 1 ≤ rank) (h : ReadsAt (rank + 1) e ts) :
    ReadsAt rank e ts := by
  intro bound rest hb hs
  have hread := h.ranked_eq hb hs
  obtain ⟨t, us, rfl⟩ := h.exists_cons
  refine ⟨bound, Nat.le_refl _, by simp, ?_⟩
  by_cases h6 : rank ≤ 6
  · obtain ⟨l, rfl⟩ := Level.exists_rank (Nat.lt_succ_of_le h6) hr
    rw [ranked_level, hread, ok_bind]
  · rcases (by omega : rank = 7 ∨ rank = 8 ∨ 9 ≤ rank) with rfl | rfl | h9
    · rw [List.cons_append, ranked_unsigned bound h.not_isSign, ← List.cons_append, hread]
      rfl
    · change call _ _ _ = callChain _ _ _ _
      rw [ranked_primary bound (Nat.le_refl 9)] at hread
      rw [call, hread, ok_bind]
    · rw [ranked_primary bound (by omega)] at hread ⊢
      rw [hread, continued_primary bound h9]

theorem ReadsAt.of_le {p q : Nat} {e : Expr} {ts : List Token} (h : ReadsAt q e ts) (hp : 1 ≤ p) (hpq : p ≤ q) :
    ReadsAt p e ts := by
  induction hpq with
  | refl => exact h
  | step hle ih => exact ih (h.loosen (Nat.le_trans hp hle))

theorem ReadsAt.reads {rank : Nat} {e : Expr} {ts : List Token} (h : ReadsAt rank e ts) (hr : 1 ≤ rank) :
    Reads e ts := by
  intro bound rest hb hs
  have hread : levels _ _ Level.all _ = _ := (h.of_le (Nat.le_refl 1) hr).ranked_eq hb (hs.mono (Nat.zero_le 1))
  rw [expression, hread, ok_bind]
  cases rest with
  | nil => rfl
  | cons t rest =>
    have ht : t.kind ≠ .equals := by
      intro hk
      have := hs t rfl 0 (by simp [Token.continues?, hk])
      omega
    exact if_neg ht

/-! ## One expression after another -/

theorem ReadsAt.of_primary {e : Expr} {t : Token} {us : List Token}
    (h : ∀ bound rest, (t :: us).length ≤ bound → primary (expression bound) (t :: us ++ rest) = .ok (e, rest))
    {rank : Nat} (hr : 1 ≤ rank) : ReadsAt rank e (t :: us) := by
  -- beyond the tightest rank nothing stands between the parser and the primary
  have htop : ReadsAt (rank + 9) e (t :: us) := by
    intro bound rest hb _
    refine ⟨bound, Nat.le_refl _, by simp, ?_⟩
    rw [ranked_primary bound (by omega), h bound rest hb, continued_primary bound (by omega)]
  exact htop.of_le hr (Nat.le_add_right rank 9)

theorem readsAt_group {e : Expr} {l r : Token} {ts : List Token} (hl : l.kind = .openParen) (h : Reads e ts)
    (hr : r.kind = .closeParen) {rank : Nat} (h1 : 1 ≤ rank) : ReadsAt rank e (l :: ts ++ [r]) := by
  rw [List.cons_append]
  refine ReadsAt.of_primary (fun bound rest hb => ?_) h1
  obtain ⟨bound, rfl⟩ : ∃ m, bound = m + 1 := ⟨bound - 1, by simp at hb; omega⟩
  have hnested := h bound (r :: rest) (by simp at hb; omega) (.of_separator (by simp [hr, TokenKind.separators]) 0 rest)
  have htokens : l :: (ts ++ [r]) ++ rest = l :: (ts ++ r :: rest) := by simp
  simp only [htokens, primary, hl, hnested, expect_cons hr, ok_bind]

theorem readsAt_unary {e : Expr} {t : Token} {ts : List Token} (ht : t.isSign) (h : ReadsAt 7 e ts) :
    ReadsAt 7 (.unary t e) (t :: ts) := by
  intro bound rest hb hs
  refine ⟨bound, Nat.le_refl _, by simp, ?_⟩
  obtain ⟨n, -, -, hn⟩ := h bound rest (by simp at hb; omega) hs
  rw [List.cons_append, ranked_sign bound ht, hn]
  rfl

theorem readsAt_combine {l : Level} {t : Token} {left right : Expr} {ts us : List Token} (ht : l.hasOperator t = true)
    (hleft : ReadsAt l.rank left ts) (hright : ReadsAt (l.rank + 1) right us) :
    ReadsAt l.rank (l.combine t left right) (ts ++ t :: us) := by
  intro bound rest hb hs
  simp only [List.length_append, List.length_cons] at hb ⊢
  have hcont : Stops (l.rank + 1) (t :: us ++ rest) :=
    .cons (by simp [continues?_of_hasOperator ht]) (us ++ rest)
  obtain ⟨n, hle, hlt, hn⟩ := hleft bound (t :: us ++ rest) (by omega) hcont
  -- the left operand took fewer rounds than it has tokens, so one is left for the operator
  obtain ⟨n, rfl⟩ : ∃ m, n = m + 1 := ⟨n - 1, by omega⟩
  refine ⟨n, by omega, by omega, ?_⟩
  have hus := hright.ranked_eq (by omega : us.length ≤ bound) hs
  have htokens : ts ++ t :: us ++ rest = ts ++ (t :: us ++ rest) := by simp
  rw [htokens, hn, continued_level, List.cons_append, leftChain, if_pos ht, hus, ok_bind]
  exact (continued_level ..).symm

theorem reads_assign {t : Token} {name : Name} {e : Expr} {ts us : List Token} (hname : ReadsAt 1 (.identifier name) ts)
    (ht : t.kind = .equals) (he : Reads e us) : Reads (.assign name e) (ts ++ t :: us) := by
  intro bound rest hb hs
  simp only [List.length_append, List.length_cons] at hb
  obtain ⟨bound, rfl⟩ : ∃ m, bound = m + 1 := ⟨bound - 1, by omega⟩
  have htarget : levels _ _ Level.all _ = _ :=
    hname.ranked_eq (by omega : ts.length ≤ bound + 1)
      (.cons (by simp [Token.continues?, ht]) (us ++ rest) : Stops 1 (t :: (us ++ rest)))
  have hvalue := he bound rest (by omega) hs
  have htokens : ts ++ t :: us ++ rest = ts ++ t :: (us ++ rest) := by simp
  rw [htokens, expression]
  simp only [htarget, if_pos ht, hvalue, ok_bind]

/-! ## Lists between parentheses -/

def Listed {α : Type} (item : Parser α) (tooMany : ParseCause) (xs : List α) (ts : List Token) : Prop :=
  xs = [] ∧ ts = [] ∨
    startsWith .closeParen ts = false ∧ ts ≠ [] ∧ ∀ r rest room, r.kind = .closeParen → xs.length ≤ room →
      commaSeparated item tooMany room (ts ++ r :: rest) = .ok (xs, r :: rest)

section Listed

variable {α : Type} {item : Parser α} {tooMany : ParseCause} {x : α} {xs : List α} {t : Token} {ts us : List Token}

theorem Listed.items_eq (h : Listed item tooMany xs ts) (hlen : xs.length ≤ 255) {r : Token} (hr : r.kind = .closeParen)
    (rest : List Token) : items item tooMany (ts ++ r :: rest) = .ok (xs, r :: rest) := by
  obtain ⟨rfl, rfl⟩ | ⟨hts, hne, hread⟩ := h
  · simp [items, startsWith, hr]
  · obtain ⟨u, us, rfl⟩ := List.exists_cons_of_ne_nil hne
    have hstart : startsWith .closeParen (u :: us ++ r :: rest) = false := hts
    rw [items, hstart]
    exact hread r rest maxItems hr hlen

theorem Listed.single (hts : startsWith .closeParen ts = false) (hne : ts ≠ [])
    (h : ∀ r rest, r.kind = .closeParen → item (ts ++ r :: rest) = .ok (x, r :: rest)) :
    Listed item tooMany [x] ts := by
  refine .inr ⟨hts, hne, fun r rest room hr hroom => ?_⟩
  obtain ⟨room, rfl⟩ : ∃ m, room = m + 1 := ⟨room - 1, by simp at hroom; omega⟩
  rw [commaSeparated, h r rest hr, ok_bind]
  exact if_neg (by simp [hr])

theorem Listed.cons (hts : startsWith .closeParen ts = false) (hne : ts ≠ [])
    (h : ∀ rest, item (ts ++ t :: rest) = .ok (x, t :: rest)) (ht : t.kind = .comma) (hxs : xs ≠ [])
    (hus : Listed item tooMany xs us) : Listed item tooMany (x :: xs) (ts ++ t :: us) := by
  obtain ⟨rfl, -⟩ | ⟨-, -, hread⟩ := hus
  · exact absurd rfl hxs
  obtain ⟨u, ts, rfl⟩ := List.exists_cons_of_ne_nil hne
  refine .inr ⟨hts, by simp, fun r rest room hr hroom => ?_⟩
  obtain ⟨room, rfl⟩ : ∃ m, room = m + 1 := ⟨room - 1, by simp at hroom; omega⟩
  have hmore := hread r rest room hr (by simp at hroom; omega)
  have htokens : u :: ts ++ t :: us ++ r :: rest = u :: ts ++ t :: (us ++ r :: rest) := by simp
  simp only [htokens, commaSeparated, h, if_pos ht, hmore, ok_bind]

end Listed

theorem startsWith_closeParen {L : Layout} {p : Nat} {e : Expr} {ts : List Token} (h : Writes L (.expression p e) ts) :
    startsWith .closeParen ts = false ∧ ts ≠ [] := by
  obtain ⟨t, us, rfl, ht⟩ := h.exists_cons rfl
  refine ⟨decide_eq_false fun hk => ?_, by simp⟩
  have hnot : TokenKind.closeParen ∉ Phrase.expressionFirsts := by decide
  exact hnot (hk ▸ ht)

theorem listed_argument {L : Layout} {e : Expr} {ts : List Token} {bound : Nat} (hts : Writes L (.expression 0 e) ts)
    (he : Reads e ts) (hb : ts.length ≤ bound) : Listed (expression (bound + 1)) .tooManyArguments [e] ts := by
  obtain ⟨hstart, hne⟩ := startsWith_closeParen hts
  exact .single hstart hne fun r rest hr =>
    he bound (r :: rest) hb (.of_separator (by simp [hr, TokenKind.separators]) 0 rest)

theorem listed_moreArguments {L : Layout} {e f : Expr} {es : List Expr} {t : Token} {ts us : List Token} {bound : Nat}
    (hts : Writes L (.expression 0 e) ts) (he : Reads e ts) (ht : t.kind = .comma) (hb : ts.length ≤ bound)
    (hes : Listed (expression (bound + 1)) .tooManyArguments (f :: es) us) :
    Listed (expression (bound + 1)) .tooManyArguments (e :: f :: es) (ts ++ t :: us) := by
  obtain ⟨hstart, hne⟩ := startsWith_closeParen hts
  exact .cons hstart hne
    (fun rest => he bound (t :: rest) hb (.of_separator (by simp [ht, TokenKind.separators]) 0 rest)) ht (by simp) hes

theorem readsAt_call {callee : Expr} {es : List Expr} {l r : Token} {ts us : List Token} (hcallee : ReadsAt 8 callee ts)
    (hl : l.kind = .openParen)
    (hes : ∀ bound, us.length ≤ bound → Listed (expression (bound + 1)) .tooManyArguments es us)
    (hlen : es.length ≤ 255) (hr : r.kind = .closeParen) :
    ReadsAt 8 (.call callee es) (ts ++ l :: us ++ [r]) := by
  intro bound rest hb _
  simp only [List.length_append, List.length_cons, List.length_nil] at hb ⊢
  obtain ⟨n, hle, hlt, hn⟩ :=
    hcallee bound (l :: us ++ r :: rest) (by omega) (.cons (by simp [Token.continues?, hl]) (us ++ r :: rest))
  obtain ⟨n, rfl⟩ : ∃ m, n = m + 1 := ⟨n - 1, by omega⟩
  obtain ⟨bound, rfl⟩ : ∃ m, bound = m + 1 := ⟨bound - 1, by omega⟩
  refine ⟨n, by omega, by omega, ?_⟩
  have hargs := (hes bound (by omega)).items_eq hlen hr rest
  have htokens : ts ++ l :: us ++ [r] ++ rest = ts ++ (l :: us ++ r :: rest) := by simp
  rw [htokens, hn]
  change callChain _ _ _ _ = callChain _ _ _ _
  simp only [List.cons_append, callChain, if_pos hl, hargs, expect_cons hr, ok_bind]

/-! ## What follows a statement -/

/-- The statement `s` ends in front of `after`, and the parser goes on with `rest`. -/
structure Closes (s : Stmt) (after rest : List Token) : Prop where
  stops : s.endsInExpression = true → Stops 0 after
  first : ∀ t ∈ after.head?, t.kind ∉ [.colon, .equals, .elseKeyword]
  skip : (if s.isOpen then skipSemicolon after else after) = rest

theorem Closes.of_ending {s : Stmt} {us vs tail : List Token} (he : Layout.free.ending s us vs)
    (hv : ∀ t ∈ vs.head?, t.kind ∈ Phrase.statementFirsts) (htail : ∀ t ∈ tail.head?, t.kind = .closeBrace) :
    Closes s (us ++ (vs ++ tail)) (vs ++ tail) := by
  have hfirst : ∀ t ∈ (vs ++ tail).head?, t.kind ∉ [.colon, .equals, .elseKeyword, .semicolon] := by
    intro t ht
    cases vs with
    | nil => simp [htail t ht]
    | cons v vs =>
      have hnot : ∀ k ∈ Phrase.statementFirsts, k ∉ [.colon, .equals, .elseKeyword, .semicolon] := by decide
      exact hnot t.kind (hv t ht)
  have hskip : skipSemicolon (vs ++ tail) = vs ++ tail := by
    cases hvt : vs ++ tail with
    | nil => rfl
    | cons t rest =>
      rw [skipSemicolon, if_neg]
      have := hfirst t (by rw [hvt]; rfl)
      simp_all
  obtain ⟨rfl, hstops⟩ | ⟨hopen, t, rfl, ht⟩ := he
  · refine ⟨fun h => ?_, fun t ht => ?_, ?_⟩
    · cases vs with
      | nil =>
        intro t ht
        rw [Token.continues?_eq_none (by simp [htail t ht, TokenKind.separators])]
        simp
      | cons v vs => exact hstops h
    · have := hfirst t ht
      simp_all
    · rw [List.nil_append, hskip, ite_self]
  · refine ⟨fun _ => ?_, fun u hu => ?_, ?_⟩
    · exact .of_separator (by simp [ht, TokenKind.separators]) 0 _
    · cases hu
      simp [ht]
    · simp [hopen, skipSemicolon, ht]

theorem skipAnnotation_eq {ts rest : List Token} (h : Layout.free.annotation ts)
    (hrest : ∀ t ∈ rest.head?, t.kind ≠ .colon) :
    skipAnnotation (ts ++ rest) = .ok rest := by
  obtain rfl | ⟨t, u, rfl, ht, hu⟩ := h
  · cases rest with
    | nil => rfl
    | cons t rest => exact if_neg (hrest t rfl)
  · simp [ht, hu, skipAnnotation]

theorem Closes.first_ne_colon {s : Stmt} {after rest : List Token} (h : Closes s after rest) :
    ∀ t ∈ after.head?, t.kind ≠ .colon := by
  intro t ht hk
  have := h.first t ht
  simp [hk] at this

/-! ## All phrases -/

def ReadBack : Phrase → List Token → Prop
  | .expression rank e, ts => (∀ q, 1 ≤ q → q ≤ rank → ReadsAt q e ts) ∧ Reads e ts
  | .arguments es, ts => ∀ bound, ts.length ≤ bound → Listed (expression (bound + 1)) .tooManyArguments es ts
  | .parameters names, ts => Listed parameter .tooManyParameters names ts
  | .block body, ts => ∀ bound rest, ts.length ≤ bound → block (statement bound) bound (ts ++ rest) = .ok (body, rest)
  | .branches arms otherwise, ts => ∀ bound n rest, ts.length ≤ bound → ts.length ≤ n →
      (∀ t ∈ rest.head?, t.kind ≠ .elseKeyword) →
      branches (expression (bound + 1)) (block (statement bound) bound) n (ts ++ rest) = .ok ((arms, otherwise), rest)
  | .statement s, ts => ∀ bound after rest, ts.length ≤ bound → Closes s after rest →
      statement (bound + 1) (ts ++ after) = .ok (s, rest)
  | .statements ss, ts => ∀ bound n, ts.length ≤ bound → ts.length ≤ n →
      (∀ r rest, r.kind = .closeBrace →
        statementsInBlock (statement (bound + 1)) n (ts ++ r :: rest) = .ok (ss, r :: rest)) ∧
      statements (statement (bound + 1)) n ts = (ss, [])

theorem ReadsAt.readBack {p q : Nat} {e : Expr} {ts : List Token} (h : ReadsAt q e ts) (hq : 1 ≤ q) (hpq : p ≤ q) :
    ReadBack (.expression p e) ts :=
  ⟨fun _ h1 hle => h.of_le h1 (Nat.le_trans hle hpq), h.reads hq⟩

theorem readBack_of_readsAt {p : Nat} {e : Expr} {ts : List Token} (h : ∀ {rank}, 1 ≤ rank → ReadsAt rank e ts) :
    ReadBack (.expression p e) ts :=
  ⟨fun _ h1 _ => h h1, (h (Nat.le_refl 1)).reads (Nat.le_refl 1)⟩

theorem stops_openBrace {ts : List Token} {body : Block} {L : Layout} (h : Writes L (.block body) ts) (rank : Nat)
    (rest : List Token) : Stops rank (ts ++ rest) := by
  obtain ⟨t, us, rfl, ht⟩ := h.exists_cons rfl
  have hk : t.kind = .openBrace := by simpa [Phrase.firsts] using ht
  exact .of_separator (by simp [hk, TokenKind.separators]) rank _

theorem closed_ok {s : Stmt} {after rest : List Token} (hs : s.isOpen = true) (hc : Closes s after rest) :
    closed (.ok (s, after)) = .ok (s, rest) := by
  have := hc.skip
  rw [if_pos hs] at this
  simp [closed, ok_bind, this]

theorem declaration_plain {t : Token} {ts after rest : List Token} (ht : t.kind = .identifier)
    (ha : Layout.free.annotation ts) (hc : Closes (.declare .var t.lexeme none) after rest) (expr : Parser Expr) :
    closed (declaration expr .var (t :: ts ++ after)) = .ok (.declare .var t.lexeme none, rest) := by
  have hdecl : declaration expr .var (t :: ts ++ after) = .ok (.declare .var t.lexeme none, after) := by
    simp only [List.cons_append, declaration, expect_cons ht, skipAnnotation_eq ha hc.first_ne_colon, ok_bind]
    cases after with
    | nil => rfl
    | cons u after =>
      have hu : u.kind ≠ .equals := by
        intro hk
        have := hc.first u rfl
        simp [hk] at this
      simp [hu, DeclKind.isConstant]
  rw [hdecl, closed_ok rfl hc]

theorem declaration_init {kind : DeclKind} {t q : Token} {e : Expr} {ts us after rest : List Token} {expr : Parser Expr}
    (ht : t.kind = .identifier) (ha : Layout.free.annotation ts) (hq : q.kind = .equals)
    (he : expr (us ++ after) = .ok (e, after)) (hc : Closes (.declare kind t.lexeme (some e)) after rest) :
    closed (declaration expr kind (t :: ts ++ q :: us ++ after)) = .ok (.declare kind t.lexeme (some e), rest) := by
  have hdecl : declaration expr kind (t :: ts ++ q :: us ++ after) = .ok (.declare kind t.lexeme (some e), after) := by
    have htokens : t :: ts ++ q :: us ++ after = t :: (ts ++ q :: (us ++ after)) := by simp
    have hcolon : ∀ u ∈ (q :: (us ++ after)).head?, u.kind ≠ .colon := by simp [hq]
    simp only [htokens, declaration, expect_cons ht, skipAnnotation_eq ha hcolon, if_pos hq, he, ok_bind]
  rw [hdecl, closed_ok rfl hc]

theorem parameter_eq {t : Token} {ts rest : List Token} (ht : t.kind = .identifier) (ha : Layout.free.annotation ts)
    (hrest : ∀ u ∈ rest.head?, u.kind ≠ .colon) : parameter (t :: ts ++ rest) = .ok (t.lexeme, rest) := by
  simp only [List.cons_append, parameter, expect_cons ht, skipAnnotation_eq ha hrest, ok_bind]

theorem readBack_block {body : Block} {l r : Token} {ts : List Token} (hl : l.kind = .openBrace)
    (h : ReadBack (.statements body) ts) (hr : r.kind = .closeBrace) : ReadBack (.block body) (l :: ts ++ [r]) := by
  intro bound rest hb
  simp only [List.length_append, List.length_cons, List.length_nil] at hb
  obtain ⟨bound, rfl⟩ : ∃ m, bound = m + 1 := ⟨bound - 1, by omega⟩
  obtain ⟨hbody, -⟩ := h bound (bound + 1) (by omega) (by omega)
  have htokens : l :: ts ++ [r] ++ rest = l :: (ts ++ r :: rest) := by simp
  simp only [htokens, block, expect_cons hl, hbody r rest hr, expect_cons hr, ok_bind]

theorem readBack_function {L : Layout} {k t l r : Token} {names : List Name} {body : Block} {ts us vs : List Token}
    (hk : k.kind = .fnKeyword) (ht : t.kind = .identifier) (hl : l.kind = .openParen)
    (hnames : ReadBack (.parameters names) ts) (hlen : names.length ≤ 255) (hr : r.kind = .closeParen)
    (ha : Layout.free.annotation us) (hblock : Writes L (.block body) vs) (hbody : ReadBack (.block body) vs) :
    ReadBack (.statement (.function t.lexeme names body)) (k :: t :: l :: ts ++ r :: us ++ vs) := by
  intro bound after rest hb hc
  simp only [List.length_append, List.length_cons] at hb
  obtain rfl : after = rest := hc.skip
  obtain ⟨v, vs, rfl, hv⟩ := hblock.exists_cons rfl
  have hcolon : ∀ u ∈ (v :: vs ++ after).head?, u.kind ≠ .colon := by
    simp only [Phrase.firsts, List.mem_singleton] at hv
    simp [hv]
  have htokens : k :: t :: l :: ts ++ r :: us ++ v :: vs ++ after =
      k :: t :: l :: (ts ++ r :: (us ++ (v :: vs ++ after))) := by simp
  have hvs := hbody bound after (by omega)
  simp only [htokens, statement, hk, function, expect_cons ht, expect_cons hl, expect_cons hr,
    hnames.items_eq hlen hr, skipAnnotation_eq ha hcolon, hvs, ok_bind]

theorem reads_guarded {L : Layout} {check : Expr} {body : Block} {ts us : List Token}
    (hcheck : ReadBack (.expression 0 check) ts) (hblock : Writes L (.block body) us)
    (hbody : ReadBack (.block body) us) {bound : Nat} (hb : ts.length + us.length ≤ bound) (rest : List Token) :
    expression (bound + 1) (ts ++ (us ++ rest)) = .ok (check, us ++ rest) ∧
      block (statement bound) bound (us ++ rest) = .ok (body, rest) :=
  ⟨hcheck.2 bound _ (by omega) (stops_openBrace hblock 0 rest), hbody bound rest (by omega)⟩

theorem readBack_elseIf {L : Layout} {check : Expr} {body : Block} {arms : List (Expr × Block)} {otherwise : Option Block}
    {t u : Token} {ts us vs : List Token} (ht : t.kind = .elseKeyword) (hu : u.kind = .ifKeyword)
    (hcheck : ReadBack (.expression 0 check) ts) (hblock : Writes L (.block body) us)
    (hbody : ReadBack (.block body) us) (harms : ReadBack (.branches arms otherwise) vs) :
    ReadBack (.branches ((check, body) :: arms) otherwise) (t :: u :: ts ++ us ++ vs) := by
  intro bound n rest hb hn hrest
  simp only [List.length_append, List.length_cons] at hb hn
  obtain ⟨n, rfl⟩ : ∃ m, n = m + 1 := ⟨n - 1, by omega⟩
  obtain ⟨hts, hus⟩ := reads_guarded hcheck hblock hbody (by omega : _ ≤ bound) (vs ++ rest)
  have hvs := harms bound n rest (by omega) (by omega) hrest
  have htokens : t :: u :: ts ++ us ++ vs ++ rest = t :: u :: (ts ++ (us ++ (vs ++ rest))) := by simp
  simp only [htokens, branches, if_pos ht, if_pos hu, hts, hus, hvs, ok_bind]

theorem branches_stop {rest : List Token} (h : ∀ t ∈ rest.head?, t.kind ≠ .elseKeyword) {expr : Parser Expr}
    {body : Parser Block} {n : Nat} : branches expr body n rest = .ok (([], none), rest) := by
  cases n with
  | zero => rfl
  | succ n =>
    cases rest with
    | nil => rfl
    | cons t rest => simp only [branches, if_neg (h t rfl)]

theorem readBack_otherwise {L : Layout} {body : Block} {t : Token} {ts : List Token} (ht : t.kind = .elseKeyword)
    (hblock : Writes L (.block body) ts) (hbody : ReadBack (.block body) ts) :
    ReadBack (.branches [] (some body)) (t :: ts) := by
  intro bound n rest hb hn _
  obtain ⟨n, rfl⟩ : ∃ m, n = m + 1 := ⟨n - 1, by simp at hn; omega⟩
  obtain ⟨u, us, rfl, hu⟩ := hblock.exists_cons rfl
  have hif : ¬ u.kind = .ifKeyword := by
    simp only [Phrase.firsts, List.mem_singleton] at hu
    simp [hu]
  have hus := hbody bound rest (by simp at hb ⊢; omega)
  simp only [List.cons_append] at hus ⊢
  simp only [branches, if_pos ht, if_neg hif, hus, ok_bind]

theorem readBack_ifElse {L : Layout} {k : Token} {check : Expr} {body : Block} {arms : List (Expr × Block)}
    {otherwise : Option Block} {ts us vs : List Token} (hk : k.kind = .ifKeyword)
    (hcheck : ReadBack (.expression 0 check) ts) (hblock : Writes L (.block body) us)
    (hbody : ReadBack (.block body) us) (harms : ReadBack (.branches arms otherwise) vs) :
    ReadBack (.statement (.ifElse check body arms otherwise)) (k :: ts ++ us ++ vs) := by
  intro bound after rest hb hc
  obtain rfl : after = rest := hc.skip
  simp only [List.length_append, List.length_cons] at hb
  have helse : ∀ t ∈ after.head?, t.kind ≠ .elseKeyword := by
    intro t ht he
    have := hc.first t ht
    simp [he] at this
  obtain ⟨hts, hus⟩ := reads_guarded hcheck hblock hbody (by omega : _ ≤ bound) (vs ++ after)
  have hvs := harms bound bound after (by omega) (by omega) helse
  have htokens : k :: ts ++ us ++ vs ++ after = k :: (ts ++ (us ++ (vs ++ after))) := by simp
  rw [htokens, statement]
  simp only [hk, conditional, hts, hus, hvs, ok_bind]

theorem readBack_whileLoop {L : Layout} {k : Token} {check : Expr} {body : Block} {ts us : List Token}
    (hk : k.kind = .whileKeyword) (hcheck : ReadBack (.expression 0 check) ts) (hblock : Writes L (.block body) us)
    (hbody : ReadBack (.block body) us) : ReadBack (.statement (.whileLoop check body)) (k :: ts ++ us) := by
  intro bound after rest hb hc
  obtain rfl : after = rest := hc.skip
  simp only [List.length_append, List.length_cons] at hb
  obtain ⟨hts, hus⟩ := reads_guarded hcheck hblock hbody (by omega : _ ≤ bound) after
  have htokens : k :: ts ++ us ++ after = k :: (ts ++ (us ++ after)) := by simp
  rw [htokens, statement]
  simp only [hk, loop, hts, hus, ok_bind]

theorem readBack_expr {L : Layout} {e : Expr} {ts : List Token} (hts : Writes L (.expression 0 e) ts)
    (h : ReadBack (.expression 0 e) ts) : ReadBack (.statement (.expr e)) ts := by
  intro bound after rest hb hc
  have he := h.2 bound after hb (hc.stops rfl)
  obtain ⟨t, us, rfl, ht⟩ := hts.exists_cons rfl
  have hdefault : statement (bound + 1) (t :: (us ++ after)) =
      closed (expressionStatement (expression (bound + 1)) (t :: (us ++ after))) := by
    rw [statement]
    simp only [Phrase.firsts, Phrase.expressionFirsts, List.mem_cons, List.not_mem_nil, or_false] at ht
    rcases ht with hk | hk | hk | hk | hk | hk <;> simp only [hk]
  have hexpr : expressionStatement (expression (bound + 1)) (t :: (us ++ after)) = .ok (.expr e, after) := by
    simp only [List.cons_append] at he
    simp only [expressionStatement, he, ok_bind]
  rw [List.cons_append, hdefault, hexpr, closed_ok rfl hc]

theorem readBack_declare {k t q : Token} {kind : DeclKind} {e : Expr} {ts us : List Token}
    (hk : k.declKind? = some kind) (ht : t.kind = .identifier) (ha : Layout.free.annotation ts) (hq : q.kind = .equals)
    (he : ReadBack (.expression 0 e) us) :
    ReadBack (.statement (.declare kind t.lexeme (some e))) (k :: t :: ts ++ q :: us) := by
  intro bound after rest hb hc
  simp only [List.length_append, List.length_cons] at hb
  have hdecl := declaration_init ht ha hq (he.2 bound after (by omega) (hc.stops rfl)) hc
  have hstmt : statement (bound + 1) (k :: (t :: ts ++ q :: us ++ after)) =
      closed (declaration (expression (bound + 1)) kind (t :: ts ++ q :: us ++ after)) := by
    unfold Token.declKind? at hk
    rw [statement]
    split at hk <;> cases hk <;> rename_i hkind <;> simp only [hkind]
  exact hstmt.trans hdecl

theorem readBack_cons {L : Layout} {s : Stmt} {ss : List Stmt} {ts us vs : List Token} (hts : Writes L (.statement s) ts)
    (hs : ReadBack (.statement s) ts) (he : Layout.free.ending s us vs) (hvs : Writes L (.statements ss) vs)
    (hss : ReadBack (.statements ss) vs) : ReadBack (.statements (s :: ss)) (ts ++ us ++ vs) := by
  intro bound n hb hn
  obtain ⟨t, ts, rfl, ht⟩ := hts.exists_cons rfl
  simp only [List.length_append, List.length_cons] at hb hn
  obtain ⟨n, rfl⟩ : ∃ m, n = m + 1 := ⟨n - 1, by omega⟩
  obtain ⟨hblock, hfile⟩ := hss bound n (by omega) (by omega)
  have hfirst : ∀ tail : List Token, (∀ u ∈ tail.head?, u.kind = .closeBrace) →
      statement (bound + 1) (t :: ts ++ (us ++ (vs ++ tail))) = .ok (s, vs ++ tail) := by
    intro tail htail
    exact hs bound _ _ (by simp only [List.length_cons]; omega)
      (Closes.of_ending he (fun _ hu => hvs.head_mem_firsts hu) htail)
  refine ⟨fun r rest hr => ?_, ?_⟩
  · have hbrace : ¬ t.kind = .closeBrace := by
      intro hk
      have hnot : TokenKind.closeBrace ∉ Phrase.statementFirsts := by decide
      exact hnot (hk ▸ ht)
    have hread := hfirst (r :: rest) (by simp [hr])
    have htokens : t :: ts ++ us ++ vs ++ r :: rest = t :: ts ++ (us ++ (vs ++ r :: rest)) := by simp
    rw [htokens]
    simp only [List.cons_append] at hread ⊢
    simp only [statementsInBlock, if_neg hbrace, hread, hblock r rest hr, ok_bind]
  · have hread := hfirst [] (by simp)
    rw [List.append_nil, ← List.append_assoc] at hread
    simp only [List.cons_append] at hread ⊢
    simp only [statements, hread, hfile]

end Parse

open Parse in
theorem Writes.readBack {L : Layout} (hL : L.Refines .free) {phrase : Phrase} {ts : List Token}
    (h : Writes L phrase ts) : ReadBack phrase ts := by
  induction h with
  | number ht hx =>
    exact readBack_of_readsAt fun h1 => .of_primary (fun _ _ _ => by simp [primary, ht, hx]) h1
  | string ht => exact readBack_of_readsAt fun h1 => .of_primary (fun _ _ _ => by simp [primary, ht]) h1
  | identifier ht => exact readBack_of_readsAt fun h1 => .of_primary (fun _ _ _ => by simp [primary, ht]) h1
  | group hl _ hr ih => exact readBack_of_readsAt fun h1 => readsAt_group hl ih.2 hr h1
  | call hp _ hl _ hlen hr ihc iha =>
    exact (readsAt_call (ihc.1 8 (by decide) (Nat.le_refl 8)) hl iha hlen hr).readBack (by decide) hp
  | unary hp ht _ ih => exact (readsAt_unary ht (ih.1 7 (by decide) (Nat.le_refl 7))).readBack (by decide) hp
  | binary hp ht _ _ ihl ihr =>
    obtain ⟨l, rfl, hop, hmake⟩ := Level.rank_of_binary ht
    rw [← hmake]
    exact (readsAt_combine hop (ihl.1 _ l.one_le_rank (Nat.le_refl _)) (ihr.1 _ (by omega) (Nat.le_refl _))).readBack
      l.one_le_rank hp
  | logical hp ht _ _ ihl ihr =>
    obtain ⟨l, rfl, hop, hmake⟩ := Level.rank_of_logical ht
    rw [← hmake]
    exact (readsAt_combine hop (ihl.1 _ l.one_le_rank (Nat.le_refl _)) (ihr.1 _ (by omega) (Nat.le_refl _))).readBack
      l.one_le_rank hp
  | assign _ ht _ ihn ihe =>
    exact ⟨fun q h1 h0 => by omega, reads_assign (ihn.1 1 (Nat.le_refl 1) (Nat.le_refl 1)) ht ihe.2⟩
  | noArguments => exact fun _ _ => .inl ⟨rfl, rfl⟩
  | argument hts ih => exact fun bound hb => listed_argument hts ih.2 hb
  | moreArguments hts ht _ ihe ihes =>
    intro bound hb
    simp only [List.length_append, List.length_cons] at hb
    exact listed_moreArguments hts ihe.2 ht (by omega) (ihes bound (by omega))
  | noParameters => exact .inl ⟨rfl, rfl⟩
  | parameter ht ha =>
    exact .single (by simp [startsWith, ht]) (by simp) fun r rest hr =>
      parameter_eq ht (hL.annotation ha) (by simp [hr])
  | moreParameters ht ha hc _ ih =>
    exact .cons (by simp [startsWith, ht]) (by simp)
      (fun rest => parameter_eq ht (hL.annotation ha) (by simp [hc])) hc (by simp) ih
  | block hl _ hr ih => exact readBack_block hl ih hr
  | noBranch =>
    intro bound n rest _ _ hrest
    exact branches_stop hrest
  | otherwise ht hb ih => exact readBack_otherwise ht hb ih
  | elseIf ht hu _ hb _ ihc ihb iha => exact readBack_elseIf ht hu ihc hb ihb iha
  | plain hk ht ha =>
    intro bound after rest _ hc
    rw [List.cons_append, statement]
    simp only [hk]
    exact declaration_plain ht (hL.annotation ha) hc (expression (bound + 1))
  | declare hk ht ha hq _ ih => exact readBack_declare hk ht (hL.annotation ha) hq ih
  | function hk ht hl _ hlen hr ha hb ihp ihb => exact readBack_function hk ht hl ihp hlen hr (hL.annotation ha) hb ihb
  | ifElse hk _ hb _ ihc ihb iha => exact readBack_ifElse hk ihc hb ihb iha
  | whileLoop hk _ hb ihc ihb => exact readBack_whileLoop hk ihc hb ihb
  | expr he ih => exact readBack_expr he ih
  | nil =>
    intro bound n _ _
    refine ⟨fun r rest hr => ?_, ?_⟩
    · cases n with
      | zero => rfl
      | succ n => simp [statementsInBlock, hr]
    · cases n <;> rfl
  | cons hs he hss ihs ihss => exact readBack_cons hs ihs (hL.ending he) hss ihss

end BlockScript
