import BlockScript.Proofs.Acceptance

/-!
# Types are for the reader

Types are not checked, and no tree tells where they were written. Without its
colons and the names of types a program is the same program: a phrase loses
whole annotations, and neither the first token of what follows nor anything
that parsing looks at in between is one of them.
-/

namespace BlockScript

def TokenKind.isTyping (kind : TokenKind) : Bool := kind = .colon || kind.isTypeName

def erased (ts : List Token) : List Token := ts.filter fun t => !t.kind.isTyping

theorem erased_append (ts us : List Token) : erased (ts ++ us) = erased ts ++ erased us := List.filter_append ..

theorem erased_cons {t : Token} (h : t.kind.isTyping = false) (ts : List Token) :
    erased (t :: ts) = t :: erased ts := by
  simp [erased, h]

theorem erased_kind {t : Token} {kind : TokenKind} (h : t.kind = kind) (hkind : kind.isTyping = false)
    (ts : List Token) : erased (t :: ts) = t :: erased ts := by
  apply erased_cons
  rwa [h]

/-! ## Tokens that stay -/

namespace Token

theorem isTyping_of_isSign {t : Token} (h : t.isSign) : t.kind.isTyping = false := by
  rcases h with hk | ⟨hk, -⟩ <;> rw [hk] <;> rfl

theorem isTyping_of_binaryRank? {t : Token} {q : Nat} (h : t.binaryRank? = some q) : t.kind.isTyping = false := by
  unfold binaryRank? at h
  split at h <;> simp_all [TokenKind.isTyping, TokenKind.isTypeName]

theorem isTyping_of_logicalRank? {t : Token} {q : Nat} (h : t.logicalRank? = some q) : t.kind.isTyping = false := by
  unfold logicalRank? at h
  split at h <;> simp_all [TokenKind.isTyping, TokenKind.isTypeName]

theorem isTyping_of_declKind? {t : Token} {kind : DeclKind} (h : t.declKind? = some kind) :
    t.kind.isTyping = false := by
  unfold declKind? at h
  split at h <;> simp_all [TokenKind.isTyping, TokenKind.isTypeName]

end Token

theorem TokenKind.isTyping_of_statementFirsts {kind : TokenKind} (h : kind ∈ Phrase.statementFirsts) :
    kind.isTyping = false := by
  have hall : Phrase.statementFirsts.all (fun kind => !kind.isTyping) = true := by decide
  simpa using List.all_eq_true.mp hall kind h

/-! ## Phrases without types -/

theorem erased_of_annotation {ts : List Token} (h : Layout.free.annotation ts) : erased ts = [] := by
  apply List.filter_eq_nil_iff.mpr
  intro t ht
  rcases Layout.kind_of_annotation h t ht with hk | hk <;> simp [TokenKind.isTyping, hk]

theorem erased_of_ending {s : Stmt} {us vs : List Token} (h : Layout.free.ending s us vs) : erased us = us := by
  apply List.filter_eq_self.mpr
  intro t ht
  rw [Layout.kind_of_ending h t ht]
  rfl

theorem Writes.head?_erased {ss : List Stmt} {ts : List Token} (h : Writes .free (.statements ss) ts) :
    (erased ts).head? = ts.head? := by
  obtain ⟨rfl, -⟩ | ⟨t, us, rfl, ht⟩ := h.first
  · rfl
  · rw [erased_cons (TokenKind.isTyping_of_statementFirsts ht)]
    rfl

theorem ending_erased {s : Stmt} {ss : List Stmt} {us vs : List Token} (h : Layout.free.ending s us vs)
    (hvs : Writes .free (.statements ss) vs) : Layout.free.ending s (erased us) (erased vs) := by
  rw [erased_of_ending h]
  obtain ⟨rfl, hstops⟩ | hsemicolon := h
  · refine .inl ⟨rfl, fun hs => ?_⟩
    unfold Stops
    rw [hvs.head?_erased]
    exact hstops hs
  · exact .inr hsemicolon

theorem Writes.erased {phrase : Phrase} {ts : List Token} (h : Writes .free phrase ts) :
    Writes .free phrase (erased ts) := by
  induction h with
  | number ht hx => rw [erased_kind ht rfl]; exact .number ht hx
  | string ht => rw [erased_kind ht rfl]; exact .string ht
  | identifier ht => rw [erased_kind ht rfl]; exact .identifier ht
  | group hl _ hr ih =>
    rw [erased_append, erased_kind hl rfl, erased_kind hr rfl]
    exact .group hl ih hr
  | call hp _ hl _ hlen hr ihc iha =>
    rw [erased_append, erased_append, erased_kind hl rfl, erased_kind hr rfl]
    exact .call hp ihc hl iha hlen hr
  | unary hp ht _ ih =>
    rw [erased_cons (Token.isTyping_of_isSign ht)]
    exact .unary hp ht ih
  | binary hp ht _ _ ihl ihr =>
    rw [erased_append, erased_cons (Token.isTyping_of_binaryRank? ht)]
    exact .binary hp ht ihl ihr
  | logical hp ht _ _ ihl ihr =>
    rw [erased_append, erased_cons (Token.isTyping_of_logicalRank? ht)]
    exact .logical hp ht ihl ihr
  | assign _ ht _ ihn ihe =>
    rw [erased_append, erased_kind ht rfl]
    exact .assign ihn ht ihe
  | noArguments => exact .noArguments
  | argument _ ih => exact .argument ih
  | moreArguments _ ht _ ihe ihes =>
    rw [erased_append, erased_kind ht rfl]
    exact .moreArguments ihe ht ihes
  | noParameters => exact .noParameters
  | parameter ht ha =>
    rw [erased_kind ht rfl, erased_of_annotation ha]
    exact .parameter ht (.inl rfl)
  | moreParameters ht ha hc _ ih =>
    rw [erased_append, erased_kind ht rfl, erased_of_annotation ha, erased_kind hc rfl]
    exact .moreParameters ht (.inl rfl) hc ih
  | block hl _ hr ih =>
    rw [erased_append, erased_kind hl rfl, erased_kind hr rfl]
    exact .block hl ih hr
  | noBranch => exact .noBranch
  | otherwise ht _ ih =>
    rw [erased_kind ht rfl]
    exact .otherwise ht ih
  | elseIf ht hu _ _ _ ihc ihb iha =>
    rw [erased_append, erased_append, erased_kind ht rfl, erased_kind hu rfl]
    exact .elseIf ht hu ihc ihb iha
  | plain hk ht ha =>
    rw [erased_kind hk rfl, erased_kind ht rfl, erased_of_annotation ha]
    exact .plain hk ht (.inl rfl)
  | declare hk ht ha hq _ ih =>
    rw [erased_append, erased_cons (Token.isTyping_of_declKind? hk), erased_kind ht rfl, erased_of_annotation ha,
      erased_kind hq rfl]
    exact .declare hk ht (.inl rfl) hq ih
  | function hk ht hl _ hlen hr ha _ ihp ihb =>
    rw [erased_append, erased_append, erased_kind hk rfl, erased_kind ht rfl, erased_kind hl rfl, erased_kind hr rfl,
      erased_of_annotation ha]
    exact .function hk ht hl ihp hlen hr (.inl rfl) ihb
  | ifElse hk _ _ _ ihc ihb iha =>
    rw [erased_append, erased_append, erased_kind hk rfl]
    exact .ifElse hk ihc ihb iha
  | whileLoop hk _ _ ihc ihb =>
    rw [erased_append, erased_kind hk rfl]
    exact .whileLoop hk ihc ihb
  | expr _ ih => exact .expr ih
  | nil => exact .nil
  | cons _ he hss ihs ihss =>
    rw [erased_append, erased_append]
    exact .cons ihs (ending_erased he hss) ihss

/-! ## Programs without types -/

theorem Parse.body_erased (tokens : List Token) : body (erased tokens) = erased (body tokens) := by
  induction tokens with
  | nil => rfl
  | cons t tokens ih =>
    by_cases hend : isEnd t = true
    · have hkind : t.kind = .endOfInput := of_decide_eq_true hend
      rw [erased_kind hkind rfl]
      simp [body, hend, erased]
    · have hbody : body (t :: tokens) = t :: body tokens := by simp [body, hend]
      rw [hbody]
      by_cases htyping : t.kind.isTyping = true
      · have hgone : ∀ ts, erased (t :: ts) = erased ts := fun ts => by simp [erased, htyping]
        rw [hgone, hgone, ih]
      · rw [erased_cons (by simpa using htyping), erased_cons (by simpa using htyping), ← ih]
        simp [body, hend]

/-- If the colons and the names of types are left out, a program is still parsed, and to the same tree. -/
theorem types_are_erasable {tokens : List Token} {program : Program} (h : Program.ofTokens tokens = .ok program) :
    Program.ofTokens (erased tokens) = .ok program := by
  apply Program.ofTokens_body
  rw [Parse.body_erased]
  exact (Program.writes_of_ofTokens h).erased

namespace Erasure

/-- The tokens of `fn f(a: number, b): string { var c: dynamic (a) }`, with a type behind the mark for their end. -/
def typed : List Token :=
  [.bare .fnKeyword, .named (ascii "f"), .bare .openParen, .named (ascii "a"), .bare .colon, .bare .numberType,
   .bare .comma, .named (ascii "b"), .bare .closeParen, .bare .colon, .bare .stringType, .bare .openBrace,
   .bare .varKeyword, .named (ascii "c"), .bare .colon, .bare .dynamicType, .bare .openParen, .named (ascii "a"),
   .bare .closeParen, .bare .closeBrace, .endOfInput .nowhere, .bare .colon]

def typedTree : Program :=
  [.function (ascii "f") [ascii "a", ascii "b"]
    [.declare .var (ascii "c") none, .expr (.identifier (ascii "a"))]]

theorem erasable_typed : Program.ofTokens typed = .ok typedTree ∧ (erased typed).length = 15 ∧
    Program.ofTokens (erased typed) = .ok typedTree := by
  have htyped : Program.ofTokens typed = .ok typedTree := rfl
  exact ⟨htyped, rfl, types_are_erasable htyped⟩

end Erasure

end BlockScript
