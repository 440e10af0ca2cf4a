import BlockScript.Proofs.Reading

/-!
# Whatever is read was written

The parser takes only what the grammar allows: the tokens it consumes are a
way to write the tree it returns, and it stops only where nothing continues
that tree. The bounds of its loops are large enough not to matter.
-/

namespace BlockScript

/-! ## Ranks -/

theorem Writes.loosen {L : Layout} {p q : Nat} {e : Expr} {ts : List Token} (h : Writes L (.expression p e) ts)
    (hqp : q ≤ p) : Writes L (.expression q e) ts := by
  cases h with
  | number ht hx => exact .number ht hx
  | string ht => exact .string ht
  | identifier ht => exact .identifier ht
  | group hl he hr => exact .group hl he hr
  | call hp hc hl ha hlen hr => exact .call (Nat.le_trans hqp hp) hc hl ha hlen hr
  | unary hp ht he => exact .unary (Nat.le_trans hqp hp) ht he
  | binary hp ht hl hr => exact .binary (Nat.le_trans hqp hp) ht hl hr
  | logical hp ht hl hr => exact .logical (Nat.le_trans hqp hp) ht hl hr
  | assign hn ht he =>
    obtain rfl : q = 0 := Nat.le_zero.mp hqp
    exact .assign hn ht he

theorem Token.continues?_cases {t : Token} {q : Nat} (h : t.continues? = some q) :
    q = 0 ∧ t.kind = .equals ∨ q = 8 ∧ t.kind = .openParen ∨ ∃ l : Parse.Level, l.rank = q ∧ l.hasOperator t = true := by
  unfold continues? at h
  split at h
  · exact .inl ⟨(Option.some.inj h).symm, ‹_›⟩
  · exact .inr (.inl ⟨(Option.some.inj h).symm, ‹_›⟩)
  · refine .inr (.inr ?_)
    cases hl : t.logicalRank? with
    | some r =>
      rw [hl, Option.some_or] at h
      cases h
      obtain ⟨l, hr, ho, -⟩ := Parse.Level.rank_of_logical hl
      exact ⟨l, hr, ho⟩
    | none =>
      rw [hl, Option.none_or] at h
      obtain ⟨l, hr, ho, -⟩ := Parse.Level.rank_of_binary h
      exact ⟨l, hr, ho⟩

theorem Stops.of_nine_le {rank : Nat} (h : 9 ≤ rank) (rest : List Token) : Stops rank rest := by
  intro t _ q hq
  rcases t.continues?_cases hq with ⟨rfl, -⟩ | ⟨rfl, -⟩ | ⟨l, rfl, -⟩
  · omega
  · omega
  · have := l.rank_le_six
    omega

theorem Stops.tighten {rank : Nat} {rest : List Token} (h : Stops (rank + 1) rest)
    (hhead : ∀ t ∈ rest.head?, t.continues? ≠ some rank) : Stops rank rest := by
  intro t ht q hq
  have hlt := h t ht q hq
  have hne : q ≠ rank := fun e => hhead t ht (e ▸ hq)
  omega

theorem Stops.of_append {rank : Nat} {us vs : List Token} (h : Stops rank (us ++ vs)) : Stops rank us := by
  cases us with
  | nil => exact .nil rank
  | cons t us => exact h

namespace Parse

theorem exists_of_bind_eq_ok {ε α β : Type} {x : Except ε α} {f : α → Except ε β} {b : β} (h : (x >>= f) = .ok b) :
    ∃ a, x = .ok a ∧ f a = .ok b := by
  cases x with
  | error e => cases h
  | ok a => exact ⟨a, rfl, h⟩

theorem expect_eq_ok {kind : TokenKind} {cause : ParseCause} {input rest : List Token} {t : Token}
    (h : expect kind cause input = .ok (t, rest)) : input = t :: rest ∧ t.kind = kind := by
  cases input with
  | nil => cases h
  | cons u input =>
    rw [expect] at h
    split at h
    · cases h
      exact ⟨rfl, ‹_›⟩
    · cases h

theorem skipAnnotation_eq_ok {input rest : List Token} (h : skipAnnotation input = .ok rest) :
    ∃ ts, input = ts ++ rest ∧ Layout.free.annotation ts := by
  unfold skipAnnotation at h
  split at h
  · rename_i t after
    split at h
    · rename_i ht
      split at h
      · rename_i u after
        split at h
        · rename_i hu
          cases h
          exact ⟨[t, u], rfl, .inr ⟨t, u, rfl, ht, hu⟩⟩
        · cases h
      · cases h
    · cases h
      exact ⟨[], rfl, .inl rfl⟩
  · cases h
    exact ⟨[], rfl, .inl rfl⟩

/-- On inputs up to a limit the parser takes only what is written there as a phrase, and stops where `ends` holds. -/
def Finds {α : Type} (parser : Parser α) (phrase : α → Phrase) (ends : List Token → Prop) (limit : Nat) : Prop :=
  ∀ ⦃input a rest⦄, parser input = .ok (a, rest) → input.length ≤ limit →
    ∃ us, input = us ++ rest ∧ Writes .free (phrase a) us ∧ ends rest

/-! ## Lists between parentheses -/

section Items

variable {α : Type} {item : Parser α} {tooMany : ParseCause} {phrase : List α → Phrase} {limit : Nat}

theorem commaSeparated_finds {W : α → List Token → Prop}
    (hitem : ∀ {input x rest}, item input = .ok (x, rest) → input.length ≤ limit → ∃ us, input = us ++ rest ∧ W x us)
    (hsingle : ∀ {x us}, W x us → Writes .free (phrase [x]) us)
    (hcons : ∀ {x y ys us t vs}, W x us → t.kind = .comma → Writes .free (phrase (y :: ys)) vs →
      Writes .free (phrase (x :: y :: ys)) (us ++ t :: vs))
    {room : Nat} {input rest : List Token} {xs : List α} (h : commaSeparated item tooMany room input = .ok (xs, rest))
    (hlen : input.length ≤ limit) :
    ∃ us, input = us ++ rest ∧ Writes .free (phrase xs) us ∧ xs.length ≤ room ∧ xs ≠ [] := by
  induction room generalizing input xs with
  | zero => cases h
  | succ room ih =>
    obtain ⟨⟨x, after⟩, hx, hk⟩ := exists_of_bind_eq_ok h
    obtain ⟨us, rfl, hus⟩ := hitem hx hlen
    dsimp only at hk
    split at hk
    · rename_i t after
      split at hk
      · rename_i ht
        obtain ⟨⟨more, rest'⟩, hmore, hk'⟩ := exists_of_bind_eq_ok hk
        cases hk'
        obtain ⟨vs, rfl, hvs, hroom, hne⟩ := ih hmore (by simp at hlen; omega)
        obtain ⟨y, ys, rfl⟩ := List.exists_cons_of_ne_nil hne
        exact ⟨us ++ t :: vs, by simp, hcons hus ht hvs, by simp at hroom ⊢; omega, by simp⟩
      · cases hk
        exact ⟨us, rfl, hsingle hus, by simp, by simp⟩
    · cases hk
      exact ⟨us, rfl, hsingle hus, by simp, by simp⟩

theorem items_finds {W : α → List Token → Prop}
    (hitem : ∀ {input x rest}, item input = .ok (x, rest) → input.length ≤ limit → ∃ us, input = us ++ rest ∧ W x us)
    (hnil : Writes .free (phrase []) [])
    (hsingle : ∀ {x us}, W x us → Writes .free (phrase [x]) us)
    (hcons : ∀ {x y ys us t vs}, W x us → t.kind = .comma → Writes .free (phrase (y :: ys)) vs →
      Writes .free (phrase (x :: y :: ys)) (us ++ t :: vs))
    {input rest : List Token} {xs : List α} (h : items item tooMany input = .ok (xs, rest))
    (hlen : input.length ≤ limit) :
    ∃ us, input = us ++ rest ∧ Writes .free (phrase xs) us ∧ xs.length ≤ 255 := by
  unfold items at h
  split at h
  · cases h
    exact ⟨[], rfl, hnil, by simp⟩
  · obtain ⟨us, heq, hus, hroom, -⟩ := commaSeparated_finds hitem hsingle hcons h hlen
    exact ⟨us, heq, hus, hroom⟩

end Items

/-! ## Expressions -/

section Expressions

variable {nested : Parser Expr} {limit : Nat}

theorem primary_finds (hn : Finds nested (.expression 0) (Stops 0) limit) (rank : Nat) :
    Finds (primary nested) (.expression rank) (fun _ => True) (limit + 1) := by
  intro input e rest h hlen
  cases input with
  | nil => cases h
  | cons t input =>
    rw [primary] at h
    split at h
    · rename_i ht
      split at h
      · rename_i x hx
        cases h
        exact ⟨[t], rfl, .number ht hx, trivial⟩
      · cases h
    · cases h
      exact ⟨[t], rfl, .string ‹_›, trivial⟩
    · cases h
      exact ⟨[t], rfl, .identifier ‹_›, trivial⟩
    · rename_i ht
      obtain ⟨⟨e', after⟩, he, hk⟩ := exists_of_bind_eq_ok h
      obtain ⟨⟨r, rest'⟩, hclose, hk'⟩ := exists_of_bind_eq_ok hk
      cases hk'
      obtain ⟨us, rfl, hus, -⟩ := hn he (by simpa using hlen)
      obtain ⟨rfl, hr⟩ := expect_eq_ok hclose
      exact ⟨t :: us ++ [r], by simp, .group ht hus hr, trivial⟩
    · cases h

theorem arguments_find (hn : Finds nested (.expression 0) (Stops 0) limit) {input rest : List Token} {es : List Expr}
    (h : items nested .tooManyArguments input = .ok (es, rest)) (hlen : input.length ≤ limit) :
    ∃ us, input = us ++ rest ∧ Writes .free (.arguments es) us ∧ es.length ≤ 255 := by
  refine items_finds (fun hx hl => ?_) .noArguments .argument .moreArguments h hlen
  obtain ⟨us, heq, hus, -⟩ := hn hx hl
  exact ⟨us, heq, hus⟩

theorem callChain_finds (hn : Finds nested (.expression 0) (Stops 0) limit) {n : Nat} {callee e : Expr}
    {ts input rest : List Token} (hts : Writes .free (.expression 8 callee) ts)
    (h : callChain nested n callee input = .ok (e, rest)) (hlen : input.length ≤ n) (hlim : input.length ≤ limit) :
    ∃ us, input = us ++ rest ∧ Writes .free (.expression 8 e) (ts ++ us) ∧ Stops 8 rest := by
  induction n generalizing callee ts input with
  | zero =>
    obtain rfl : input = [] := List.eq_nil_of_length_eq_zero (Nat.le_zero.mp hlen)
    cases h
    exact ⟨[], rfl, by simpa using hts, .nil 8⟩
  | succ n ih =>
    cases input with
    | nil =>
      cases h
      exact ⟨[], rfl, by simpa using hts, .nil 8⟩
    | cons t input =>
      rw [callChain] at h
      split at h
      · rename_i ht
        obtain ⟨⟨es, after⟩, hes, hk⟩ := exists_of_bind_eq_ok h
        obtain ⟨⟨r, after'⟩, hclose, hk'⟩ := exists_of_bind_eq_ok hk
        simp only [List.length_cons] at hlen hlim
        obtain ⟨us, rfl, hus, hcount⟩ := arguments_find hn hes (by omega)
        obtain ⟨rfl, hr⟩ := expect_eq_ok hclose
        simp only [List.length_append, List.length_cons] at hlen hlim
        obtain ⟨vs, rfl, hvs, hstop⟩ := ih (.call (Nat.le_refl 8) hts ht hus hcount hr) hk' (by omega) (by omega)
        exact ⟨t :: us ++ r :: vs, by simp, by simpa using hvs, hstop⟩
      · rename_i ht
        cases h
        refine ⟨[], rfl, by simpa using hts, (Stops.of_nine_le (Nat.le_refl 9) _).tighten ?_⟩
        intro u hu hc
        cases hu
        rcases t.continues?_cases hc with ⟨h8, -⟩ | ⟨-, hk⟩ | ⟨l, hl, -⟩
        · cases h8
        · exact ht hk
        · have := l.rank_le_six
          omega

theorem hasOperator_of_continues? {l : Level} {t : Token} (h : t.continues? = some l.rank) : l.hasOperator t = true := by
  rcases t.continues?_cases h with ⟨hr, -⟩ | ⟨hr, -⟩ | ⟨l', hr, ho⟩
  · have := l.one_le_rank
    omega
  · have := l.rank_le_six
    omega
  · rw [hasOperator_iff] at ho ⊢
    rw [ho, hr]

theorem writes_combine {l : Level} {t : Token} {left right : Expr} {ts us : List Token} (ht : l.hasOperator t = true)
    (hleft : Writes .free (.expression l.rank left) ts) (hright : Writes .free (.expression (l.rank + 1) right) us) :
    Writes .free (.expression l.rank (l.combine t left right)) (ts ++ t :: us) := by
  have hr := (hasOperator_iff l t).mp ht
  cases hlog : t.logicalRank? with
  | some q =>
    rw [hlog, Option.some_or] at hr
    cases hr
    obtain ⟨l', hl', -, hmake⟩ := Level.rank_of_logical hlog
    cases Level.rank_inj hl'
    rw [hmake]
    exact .logical (Nat.le_refl _) hlog hleft hright
  | none =>
    rw [hlog, Option.none_or] at hr
    obtain ⟨l', hl', -, hmake⟩ := Level.rank_of_binary hr
    cases Level.rank_inj hl'
    rw [hmake]
    exact .binary (Nat.le_refl _) hr hleft hright

theorem leftChain_finds {l : Level} {operand : Parser Expr}
    (ho : Finds operand (.expression (l.rank + 1)) (Stops (l.rank + 1)) limit) {n : Nat} {left e : Expr}
    {ts input rest : List Token} (hts : Writes .free (.expression l.rank left) ts)
    (h : leftChain l operand n left input = .ok (e, rest)) (hstop : Stops (l.rank + 1) input) (hlen : input.length ≤ n)
    (hlim : input.length ≤ limit) :
    ∃ us, input = us ++ rest ∧ Writes .free (.expression l.rank e) (ts ++ us) ∧ Stops l.rank rest := by
  induction n generalizing left ts input with
  | zero =>
    obtain rfl : input = [] := List.eq_nil_of_length_eq_zero (Nat.le_zero.mp hlen)
    cases h
    exact ⟨[], rfl, by simpa using hts, .nil _⟩
  | succ n ih =>
    cases input with
    | nil =>
      cases h
      exact ⟨[], rfl, by simpa using hts, .nil _⟩
    | cons t input =>
      rw [leftChain] at h
      split at h
      · rename_i ht
        obtain ⟨⟨right, after⟩, hright, hk⟩ := exists_of_bind_eq_ok h
        simp only [List.length_cons] at hlen hlim
        obtain ⟨us, rfl, hus, hafter⟩ := ho hright (by omega)
        simp only [List.length_append] at hlen hlim
        obtain ⟨vs, rfl, hvs, hstop⟩ := ih (writes_combine ht hts hus) hk hafter (by omega) (by omega)
        exact ⟨t :: us ++ vs, by simp, by simpa using hvs, hstop⟩
      · rename_i ht
        cases h
        refine ⟨[], rfl, by simpa using hts, hstop.tighten ?_⟩
        intro u hu hc
        cases hu
        exact ht (hasOperator_of_continues? hc)

end Expressions

section Ranks

variable {bound : Nat}

theorem call_finds (hn : Finds (expression bound) (.expression 0) (Stops 0) bound) :
    Finds (ranked bound 8) (.expression 8) (Stops 8) (bound + 1) := by
  intro input e rest h hlen
  obtain ⟨⟨callee, after⟩, hcallee, hk⟩ := exists_of_bind_eq_ok h
  obtain ⟨us, rfl, hus, -⟩ := primary_finds hn 8 hcallee hlen
  obtain ⟨t, us, rfl, -⟩ := hus.exists_cons rfl
  simp only [List.length_append, List.length_cons] at hlen
  obtain ⟨vs, rfl, hvs, hstop⟩ := callChain_finds hn hus hk (by omega) (by omega)
  exact ⟨t :: us ++ vs, by simp, hvs, hstop⟩

theorem unary_finds (hn : Finds (expression bound) (.expression 0) (Stops 0) bound) :
    Finds (ranked bound 7) (.expression 7) (Stops 7) (bound + 1) := by
  have hseven : ∀ {rest}, Stops 8 rest → Stops 7 rest := by
    intro rest hstop
    refine hstop.tighten fun t _ hc => ?_
    rcases t.continues?_cases hc with ⟨hr, -⟩ | ⟨hr, -⟩ | ⟨l, hr, -⟩
    · cases hr
    · cases hr
    · have := l.rank_le_six
      omega
  have hcall : ∀ {input e rest}, ranked bound 8 input = .ok (e, rest) → input.length ≤ bound + 1 →
      ∃ us, input = us ++ rest ∧ Writes .free (.expression 7 e) us ∧ Stops 7 rest := by
    intro input e rest h hlen
    obtain ⟨us, heq, hus, hstop⟩ := call_finds hn h hlen
    exact ⟨us, heq, hus.loosen (by decide), hseven hstop⟩
  intro input
  induction input with
  | nil => exact fun _ _ => hcall
  | cons t input ih =>
    intro e rest h hlen
    by_cases ht : t.isSign
    · rw [ranked_sign bound ht] at h
      obtain ⟨⟨operand, after⟩, hoperand, hk⟩ := exists_of_bind_eq_ok h
      cases hk
      obtain ⟨us, rfl, hus, hstop⟩ := ih hoperand (by simp at hlen; omega)
      exact ⟨t :: us, rfl, .unary (Nat.le_refl 7) ht hus, hstop⟩
    · rw [ranked_unsigned bound ht] at h
      exact hcall h hlen

theorem level_finds {l : Level}
    (h : Finds (ranked bound (l.rank + 1)) (.expression (l.rank + 1)) (Stops (l.rank + 1)) (bound + 1)) :
    Finds (ranked bound l.rank) (.expression l.rank) (Stops l.rank) (bound + 1) := by
  intro input e rest hread hlen
  rw [ranked_level] at hread
  obtain ⟨⟨left, after⟩, hleft, hk⟩ := exists_of_bind_eq_ok hread
  dsimp only at hk
  rw [continued_level] at hk
  obtain ⟨us, rfl, hus, hafter⟩ := h hleft hlen
  obtain ⟨t, us, rfl, -⟩ := hus.exists_cons rfl
  simp only [List.length_append, List.length_cons] at hlen
  obtain ⟨vs, rfl, hvs, hstop⟩ :=
    leftChain_finds h (hus.loosen (Nat.le_succ _)) hk hafter (by omega) (by omega)
  exact ⟨t :: us ++ vs, by simp, hvs, hstop⟩

theorem levels_find (hn : Finds (expression bound) (.expression 0) (Stops 0) bound) :
    Finds (ranked bound 1) (.expression 1) (Stops 1) (bound + 1) := by
  have hproduct := level_finds (l := .multiplicative) (unary_finds hn)
  have hcomparison := level_finds (l := .comparison) (level_finds (l := .additive) hproduct)
  exact level_finds (l := .or) (level_finds (l := .and) (level_finds (l := .equality) hcomparison))

end Ranks

theorem expression_finds (bound : Nat) : Finds (expression bound) (.expression 0) (Stops 0) bound := by
  induction bound with
  | zero =>
    intro input e rest h
    cases h
  | succ bound ih =>
    intro input e rest h hlen
    obtain ⟨⟨left, after⟩, hleft, hk⟩ := exists_of_bind_eq_ok h
    obtain ⟨us, rfl, hus, hstop⟩ := levels_find ih hleft hlen
    dsimp only at hk
    have hnone : ∀ {t : Token}, t.kind ≠ .equals → t.continues? ≠ some 0 := by
      intro t ht hc
      rcases t.continues?_cases hc with ⟨-, hk⟩ | ⟨hr, -⟩ | ⟨l, hr, -⟩
      · exact ht hk
      · cases hr
      · have := l.one_le_rank
        omega
    split at hk
    · rename_i t after
      split at hk
      · rename_i ht
        obtain ⟨⟨value, rest'⟩, hvalue, hk'⟩ := exists_of_bind_eq_ok hk
        obtain ⟨vs, rfl, hvs, hrest⟩ := ih hvalue (by simp at hlen; omega)
        dsimp only at hk'
        split at hk'
        · cases hk'
          exact ⟨us ++ t :: vs, by simp, .assign hus ht hvs, hrest⟩
        · cases hk'
      · rename_i ht
        cases hk
        refine ⟨us, rfl, hus.loosen (Nat.zero_le 1), hstop.tighten ?_⟩
        intro u hu
        cases hu
        exact hnone ht
    · cases hk
      exact ⟨us, rfl, hus.loosen (Nat.zero_le 1), .nil 0⟩

/-! ## Statements -/

theorem skipSemicolon_cases (input : List Token) :
    skipSemicolon input = input ∨ ∃ t, input = t :: skipSemicolon input ∧ t.kind = .semicolon := by
  cases input with
  | nil => exact .inl rfl
  | cons t input =>
    by_cases ht : t.kind = .semicolon
    · exact .inr ⟨t, by rw [skipSemicolon, if_pos ht], ht⟩
    · exact .inl (by rw [skipSemicolon, if_neg ht])

def FindsStmt (parser : Parser Stmt) (limit : Nat) : Prop :=
  ∀ ⦃input s rest⦄, parser input = .ok (s, rest) → input.length ≤ limit →
    ∃ us vs, input = us ++ (vs ++ rest) ∧ Writes .free (.statement s) us ∧ Layout.free.ending s vs rest

theorem closed_finds {r : Except Failure (Stmt × List Token)} {input rest : List Token} {s : Stmt}
    (h : closed r = .ok (s, rest))
    (hr : ∀ {s after}, r = .ok (s, after) → s.isOpen = true ∧
      ∃ us, input = us ++ after ∧ Writes .free (.statement s) us ∧ (s.endsInExpression = true → Stops 0 after)) :
    ∃ us vs, input = us ++ (vs ++ rest) ∧ Writes .free (.statement s) us ∧ Layout.free.ending s vs rest := by
  obtain ⟨⟨s', after⟩, hs, hk⟩ := exists_of_bind_eq_ok h
  obtain ⟨hopen, us, rfl, hus, hstop⟩ := hr hs
  cases hk
  rcases skipSemicolon_cases after with hskip | ⟨t, hskip, ht⟩
  · rw [hskip]
    exact ⟨us, [], rfl, hus, .inl ⟨rfl, hstop⟩⟩
  · exact ⟨us, [t], by rw [List.singleton_append, ← hskip], hus, .inr ⟨hopen, t, rfl, ht⟩⟩

section Statements

variable {bound : Nat}

theorem declaration_finds {k : Token} {kind : DeclKind} {input after : List Token} {s : Stmt}
    (hk : k.declKind? = some kind) (h : declaration (expression (bound + 1)) kind input = .ok (s, after))
    (hlen : input.length ≤ bound + 1) :
    s.isOpen = true ∧ ∃ us, k :: input = us ++ after ∧ Writes .free (.statement s) us ∧
      (s.endsInExpression = true → Stops 0 after) := by
  obtain ⟨⟨name, rest⟩, hexpect, h₁⟩ := exists_of_bind_eq_ok h
  obtain ⟨rfl, hname⟩ := expect_eq_ok hexpect
  obtain ⟨after', hskip, h₂⟩ := exists_of_bind_eq_ok h₁
  obtain ⟨ts, rfl, hts⟩ := skipAnnotation_eq_ok hskip
  -- without a value there is only a variable
  have hplain : kind.isConstant = false →
      Writes .free (.statement (.declare kind name.lexeme none)) (k :: name :: ts) := by
    intro hc
    unfold Token.declKind? at hk
    split at hk <;> cases hk
    · exact .plain ‹_› hname hts
    · cases hc
    · cases hc
  dsimp only at h₂
  split at h₂
  · rename_i t rest
    split at h₂
    · rename_i ht
      obtain ⟨⟨value, rest'⟩, hvalue, h₃⟩ := exists_of_bind_eq_ok h₂
      cases h₃
      obtain ⟨us, rfl, hus, hstop⟩ := expression_finds (bound + 1) hvalue (by simp at hlen; omega)
      exact ⟨rfl, k :: name :: ts ++ t :: us, by simp, .declare hk hname hts ht hus, fun _ => hstop⟩
    · split at h₂
      · cases h₂
      · rename_i hc
        cases h₂
        exact ⟨rfl, k :: name :: ts, rfl, hplain (by simpa using hc), nofun⟩
  · split at h₂
    · cases h₂
    · rename_i hc
      cases h₂
      exact ⟨rfl, k :: name :: ts, rfl, hplain (by simpa using hc), nofun⟩

theorem writes_cons {s : Stmt} {ss : List Stmt} {us vs ws rest : List Token} (hus : Writes .free (.statement s) us)
    (hend : Layout.free.ending s vs (ws ++ rest)) (hws : Writes .free (.statements ss) ws) :
    Writes .free (.statements (s :: ss)) (us ++ vs ++ ws) := by
  refine .cons hus ?_ hws
  obtain ⟨rfl, hstop⟩ | hsemi := hend
  · exact .inl ⟨rfl, fun he => (hstop he).of_append⟩
  · exact .inr hsemi

theorem statementsInBlock_finds {parser : Parser Stmt} {limit n : Nat} (hp : FindsStmt parser limit)
    {input rest : List Token} {ss : List Stmt} (h : statementsInBlock parser n input = .ok (ss, rest))
    (hlim : input.length ≤ limit) : ∃ us, input = us ++ rest ∧ Writes .free (.statements ss) us := by
  induction n generalizing input ss with
  | zero =>
    cases h
    exact ⟨[], rfl, .nil⟩
  | succ n ih =>
    cases input with
    | nil =>
      cases h
      exact ⟨[], rfl, .nil⟩
    | cons t input =>
      rw [statementsInBlock] at h
      split at h
      · cases h
        exact ⟨[], rfl, .nil⟩
      · obtain ⟨⟨s, after⟩, hs, h₁⟩ := exists_of_bind_eq_ok h
        obtain ⟨⟨more, rest'⟩, hmore, h₂⟩ := exists_of_bind_eq_ok h₁
        cases h₂
        obtain ⟨us, vs, heq, hus, hend⟩ := hp hs hlim
        rw [heq] at hlim ⊢
        simp only [List.length_append] at hlim
        obtain ⟨ws, rfl, hws⟩ := ih hmore (by omega)
        exact ⟨us ++ vs ++ ws, by simp, writes_cons hus hend hws⟩

theorem block_finds (hp : FindsStmt (statement bound) bound) :
    Finds (block (statement bound) bound) .block (fun _ => True) (bound + 1) := by
  intro input body rest h hlen
  obtain ⟨⟨l, after⟩, hopen, h₁⟩ := exists_of_bind_eq_ok h
  obtain ⟨rfl, hl⟩ := expect_eq_ok hopen
  obtain ⟨⟨body', after'⟩, hbody, h₂⟩ := exists_of_bind_eq_ok h₁
  obtain ⟨us, rfl, hus⟩ := statementsInBlock_finds hp hbody (by simpa using hlen)
  obtain ⟨⟨r, rest'⟩, hclose, h₃⟩ := exists_of_bind_eq_ok h₂
  obtain ⟨rfl, hr⟩ := expect_eq_ok hclose
  cases h₃
  exact ⟨l :: us ++ [r], by simp, .block hl hus hr, trivial⟩

theorem parameter_finds {input rest : List Token} {name : Name} (h : parameter input = .ok (name, rest)) :
    ∃ us, input = us ++ rest ∧ ∃ t ts, us = t :: ts ∧ t.kind = .identifier ∧ t.lexeme = name ∧
      Layout.free.annotation ts := by
  obtain ⟨⟨t, after⟩, hexpect, h₁⟩ := exists_of_bind_eq_ok h
  obtain ⟨rfl, ht⟩ := expect_eq_ok hexpect
  obtain ⟨after', hskip, h₂⟩ := exists_of_bind_eq_ok h₁
  obtain ⟨ts, rfl, hts⟩ := skipAnnotation_eq_ok hskip
  cases h₂
  exact ⟨t :: ts, rfl, t, ts, rfl, ht, rfl, hts⟩

theorem parameters_find {input rest : List Token} {names : List Name}
    (h : items parameter .tooManyParameters input = .ok (names, rest)) :
    ∃ us, input = us ++ rest ∧ Writes .free (.parameters names) us ∧ names.length ≤ 255 := by
  refine items_finds (fun hx _ => parameter_finds hx) .noParameters ?_ ?_ h (Nat.le_refl _)
  · rintro name us ⟨t, ts, rfl, ht, rfl, hts⟩
    exact .parameter ht hts
  · rintro name n ns us c vs ⟨t, ts, rfl, ht, rfl, hts⟩ hc hvs
    exact .moreParameters ht hts hc hvs

variable {body : Parser Block} {limit : Nat} {k : Token} {input rest : List Token} {s : Stmt}

theorem function_finds (hb : Finds body .block (fun _ => True) limit) (hk : k.kind = .fnKeyword)
    (h : function body input = .ok (s, rest)) (hlen : input.length ≤ limit) :
    ∃ us, k :: input = us ++ rest ∧ Writes .free (.statement s) us ∧ s.endsInExpression = false := by
  obtain ⟨⟨t, after⟩, hexpect, h₁⟩ := exists_of_bind_eq_ok h
  obtain ⟨rfl, ht⟩ := expect_eq_ok hexpect
  obtain ⟨⟨l, after'⟩, hopen, h₂⟩ := exists_of_bind_eq_ok h₁
  obtain ⟨rfl, hl⟩ := expect_eq_ok hopen
  obtain ⟨⟨names, after'⟩, hnames, h₃⟩ := exists_of_bind_eq_ok h₂
  obtain ⟨ts, rfl, hts, hcount⟩ := parameters_find hnames
  obtain ⟨⟨r, after'⟩, hclose, h₄⟩ := exists_of_bind_eq_ok h₃
  obtain ⟨rfl, hr⟩ := expect_eq_ok hclose
  obtain ⟨after'', hskip, h₅⟩ := exists_of_bind_eq_ok h₄
  obtain ⟨us, rfl, hus⟩ := skipAnnotation_eq_ok hskip
  obtain ⟨⟨statements, rest'⟩, hbody, h₆⟩ := exists_of_bind_eq_ok h₅
  simp only [List.length_append, List.length_cons] at hlen
  obtain ⟨vs, rfl, hvs, -⟩ := hb hbody (by omega)
  cases h₆
  exact ⟨k :: t :: l :: ts ++ r :: us ++ vs, by simp, .function hk ht hl hts hcount hr hus hvs, rfl⟩

variable {expr : Parser Expr}

theorem guarded_finds (he : Finds expr (.expression 0) (Stops 0) limit) (hb : Finds body .block (fun _ => True) limit)
    {check : Expr} {statements : Block} {after : List Token} (hcheck : expr input = .ok (check, after))
    (hbody : body after = .ok (statements, rest)) (hlen : input.length ≤ limit) :
    ∃ us vs, input = us ++ (vs ++ rest) ∧ Writes .free (.expression 0 check) us ∧
      Writes .free (.block statements) vs := by
  obtain ⟨us, rfl, hus, -⟩ := he hcheck hlen
  simp only [List.length_append] at hlen
  obtain ⟨vs, rfl, hvs, -⟩ := hb hbody (by omega)
  exact ⟨us, vs, rfl, hus, hvs⟩

theorem branches_find (he : Finds expr (.expression 0) (Stops 0) limit) (hb : Finds body .block (fun _ => True) limit)
    {n : Nat} {arms : List (Expr × Block)} {otherwise : Option Block}
    (h : branches expr body n input = .ok ((arms, otherwise), rest)) (hlen : input.length ≤ limit) :
    ∃ us, input = us ++ rest ∧ Writes .free (.branches arms otherwise) us := by
  induction n generalizing input arms otherwise with
  | zero =>
    cases h
    exact ⟨[], rfl, .noBranch⟩
  | succ n ih =>
    cases input with
    | nil =>
      cases h
      exact ⟨[], rfl, .noBranch⟩
    | cons t input =>
      simp only [branches] at h
      split at h
      · rename_i ht
        have helse : ∀ {input'}, (body input' >>= fun (p : Block × List Token) =>
            (.ok (([], some p.1), p.2) : Except Failure ((List (Expr × Block) × Option Block) × List Token))) =
              .ok ((arms, otherwise), rest) → input'.length ≤ limit →
            ∃ us, t :: input' = us ++ rest ∧ Writes .free (.branches arms otherwise) us := by
          intro input' h hlen
          obtain ⟨⟨statements, rest'⟩, hbody, h₁⟩ := exists_of_bind_eq_ok h
          obtain ⟨us, rfl, hus, -⟩ := hb hbody hlen
          cases h₁
          exact ⟨t :: us, rfl, .otherwise ht hus⟩
        split at h
        · rename_i u after
          split at h
          · rename_i hu
            obtain ⟨⟨check, after'⟩, hcheck, h₁⟩ := exists_of_bind_eq_ok h
            obtain ⟨⟨statements, after''⟩, hbody, h₂⟩ := exists_of_bind_eq_ok h₁
            obtain ⟨⟨⟨arms', otherwise'⟩, rest'⟩, hmore, h₃⟩ := exists_of_bind_eq_ok h₂
            cases h₃
            obtain ⟨us, vs, rfl, hus, hvs⟩ := guarded_finds he hb hcheck hbody (by simp at hlen; omega)
            obtain ⟨ws, rfl, hws⟩ := ih hmore (by simp at hlen ⊢; omega)
            exact ⟨t :: u :: us ++ vs ++ ws, by simp, .elseIf ht hu hus hvs hws⟩
          · exact helse h (by simp at hlen ⊢; omega)
        · exact helse h (by simp)
      · cases h
        exact ⟨[], rfl, .noBranch⟩

theorem conditional_finds (he : Finds expr (.expression 0) (Stops 0) limit)
    (hb : Finds body .block (fun _ => True) limit) {n : Nat} (hk : k.kind = .ifKeyword)
    (h : conditional expr body n input = .ok (s, rest)) (hlen : input.length ≤ limit) :
    ∃ us, k :: input = us ++ rest ∧ Writes .free (.statement s) us ∧ s.endsInExpression = false := by
  obtain ⟨⟨check, after⟩, hcheck, h₁⟩ := exists_of_bind_eq_ok h
  obtain ⟨⟨statements, after'⟩, hbody, h₂⟩ := exists_of_bind_eq_ok h₁
  obtain ⟨⟨⟨arms, otherwise⟩, rest'⟩, harms, h₃⟩ := exists_of_bind_eq_ok h₂
  cases h₃
  obtain ⟨us, vs, rfl, hus, hvs⟩ := guarded_finds he hb hcheck hbody hlen
  simp only [List.length_append] at hlen
  obtain ⟨ws, rfl, hws⟩ := branches_find he hb harms (by omega)
  exact ⟨k :: us ++ vs ++ ws, by simp, .ifElse hk hus hvs hws, rfl⟩

theorem loop_finds (he : Finds expr (.expression 0) (Stops 0) limit)
    (hb : Finds body .block (fun _ => True) limit) (hk : k.kind = .whileKeyword)
    (h : loop expr body input = .ok (s, rest)) (hlen : input.length ≤ limit) :
    ∃ us, k :: input = us ++ rest ∧ Writes .free (.statement s) us ∧ s.endsInExpression = false := by
  obtain ⟨⟨check, after⟩, hcheck, h₁⟩ := exists_of_bind_eq_ok h
  obtain ⟨⟨statements, after'⟩, hbody, h₂⟩ := exists_of_bind_eq_ok h₁
  cases h₂
  obtain ⟨us, vs, rfl, hus, hvs⟩ := guarded_finds he hb hcheck hbody hlen
  exact ⟨k :: us ++ vs, by simp, .whileLoop hk hus hvs, rfl⟩

theorem expressionStatement_finds (he : Finds expr (.expression 0) (Stops 0) limit) {after : List Token}
    (h : expressionStatement expr input = .ok (s, after)) (hlen : input.length ≤ limit) :
    s.isOpen = true ∧ ∃ us, input = us ++ after ∧ Writes .free (.statement s) us ∧
      (s.endsInExpression = true → Stops 0 after) := by
  obtain ⟨⟨e, rest'⟩, hexpr, h₁⟩ := exists_of_bind_eq_ok h
  cases h₁
  obtain ⟨us, rfl, hus, hstop⟩ := he hexpr hlen
  exact ⟨rfl, us, rfl, .expr hus, fun _ => hstop⟩

end Statements

theorem unclosed_finds {input rest : List Token} {s : Stmt}
    (h : ∃ us, input = us ++ rest ∧ Writes .free (.statement s) us ∧ s.endsInExpression = false) :
    ∃ us vs, input = us ++ (vs ++ rest) ∧ Writes .free (.statement s) us ∧ Layout.free.ending s vs rest := by
  obtain ⟨us, heq, hus, hs⟩ := h
  exact ⟨us, [], heq, hus, .inl ⟨rfl, fun he => by rw [hs] at he; cases he⟩⟩

theorem statement_finds (bound : Nat) : FindsStmt (statement bound) bound := by
  induction bound with
  | zero =>
    intro input s rest h
    cases h
  | succ bound ih =>
    intro input s rest h hlen
    have hexpr := expression_finds (bound + 1)
    have hbody := block_finds ih
    cases input with
    | nil => exact closed_finds h fun hr => expressionStatement_finds hexpr hr hlen
    | cons t input =>
      have hlen' : input.length ≤ bound + 1 := by simp at hlen; omega
      simp only [statement] at h
      split at h
      · exact closed_finds h fun hr => declaration_finds (by simp [Token.declKind?, *]) hr hlen'
      · exact closed_finds h fun hr => declaration_finds (by simp [Token.declKind?, *]) hr hlen'
      · exact closed_finds h fun hr => declaration_finds (by simp [Token.declKind?, *]) hr hlen'
      · exact unclosed_finds (function_finds hbody ‹_› h hlen')
      · exact unclosed_finds (conditional_finds hexpr hbody ‹_› h hlen')
      · exact unclosed_finds (loop_finds hexpr hbody ‹_› h hlen')
      · exact closed_finds h fun hr => expressionStatement_finds hexpr hr hlen

theorem statements_find {parser : Parser Stmt} {limit n : Nat} (hp : FindsStmt parser limit) {input : List Token}
    {ss : List Stmt} (h : statements parser n input = (ss, [])) (hlen : input.length ≤ n) (hlim : input.length ≤ limit) :
    Writes .free (.statements ss) input := by
  induction n generalizing input ss with
  | zero =>
    obtain rfl : input = [] := List.eq_nil_of_length_eq_zero (Nat.le_zero.mp hlen)
    cases h
    exact .nil
  | succ n ih =>
    cases input with
    | nil =>
      cases h
      exact .nil
    | cons t input =>
      rw [statements] at h
      split at h
      · rename_i s rest hs
        cases hm : statements parser n rest with
        | mk more failures =>
          simp only [hm, Prod.mk.injEq] at h
          obtain ⟨rfl, rfl⟩ := h
          obtain ⟨us, vs, heq, hus, hend⟩ := hp hs hlim
          obtain ⟨u, us, rfl, -⟩ := hus.exists_cons rfl
          rw [heq] at hlen hlim ⊢
          simp only [List.length_append, List.length_cons] at hlen hlim
          rw [← List.append_nil rest] at hend
          simpa using writes_cons hus hend (ih hm (by omega) (by omega))
      · rename_i failure hs
        cases hm : statements parser n (synchronize failure.rest) with
        | mk more failures => simp [hm] at h

end Parse

theorem Program.writes_of_ofTokens {tokens : List Token} {program : Program} (h : Program.ofTokens tokens = .ok program) :
    Writes .free (.statements program) (Parse.body tokens) := by
  unfold Program.ofTokens at h
  generalize Parse.body tokens = body at h ⊢
  dsimp only at h
  split at h
  · rename_i hread
    cases h
    exact Parse.statements_find (Parse.statement_finds _) hread (Nat.le_refl _) (Nat.le_succ _)
  · cases h

end BlockScript
