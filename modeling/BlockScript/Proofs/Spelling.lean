import BlockScript.Proofs.Pieces

/-!
# Tokens written down are read back

Tokens written one after the other, with blanks between neighbours, are the
tokens of the text. The blanks part everything: no character reaches across
them, no word, number or symbol goes on behind them, and only a string has
them inside.
-/

namespace BlockScript

namespace Utf8

theorem isTail_eq_false {b : UInt8} (h : b < 0x80) : isTail b = false := by
  rw [UInt8.lt_iff_toNat_lt] at h
  rw [← Bool.not_eq_true, isTail_iff]
  simp at h
  omega

def asciiGlyph (b : UInt8) : Glyph := ⟨Char.ofNat b.toNat, [b]⟩

theorem glyphs_cons_of_ascii {b : UInt8} (h : b < 0x80) (rest : Bytes) :
    glyphs (b :: rest) = asciiGlyph b :: glyphs rest := by
  have hglyph : glyph b rest = asciiGlyph b := by rw [glyph, if_pos h, asciiGlyph]
  rw [glyphs_cons, hglyph]
  rfl

theorem glyphs_of_ascii {text : Bytes} (h : ∀ b ∈ text, b < 0x80) : glyphs text = text.map asciiGlyph := by
  induction text with
  | nil => rw [glyphs_nil, List.map_nil]
  | cons b text ih =>
    rw [glyphs_cons_of_ascii (h b List.mem_cons_self), ih fun c hc => h c (List.mem_cons_of_mem _ hc), List.map_cons]

end Utf8

def Token.spelling (t : Token) : TokenKind × Bytes := (t.kind, t.lexeme)

namespace Source

/-- A text that spells the tokens, given by kind and lexeme: blanks may stand anywhere between them, and behind each
token there is one unless the text ends. -/
inductive Spells : Bytes → List (TokenKind × Bytes) → Prop
  | nil : Spells [] []
  | blank {b text items} : isBlankByte b = true → Spells text items → Spells (b :: text) items
  | token {kind lexeme text items} : (∀ b ∈ text.head?, isBlankByte b = true) → Spells text items →
      Spells (Token.written ⟨kind, lexeme, .nowhere⟩ ++ text) ((kind, lexeme) :: items)

/-! ## Classes of characters -/

theorem front_eq_digit {c : Char} (h : isDigit c = true) : front c = .digit := by
  revert h
  unfold front
  split
  all_goals try decide
  intro h
  rw [if_pos h]

theorem front_eq_letter {c : Char} (h : Letter.isLetter c = true) : front c = .letter := by
  revert h
  unfold front
  split
  all_goals try decide
  intro h
  rw [if_neg (by simp [isDigit_of_letter h]), if_pos h]

theorem blank_iff {b : UInt8} : isBlankByte b = true ↔ b = 0x20 ∨ b = 0x09 ∨ b = 0x0D ∨ b = 0x0A := by
  simp [isBlankByte, ascii]

theorem blank_lt {b : UInt8} (h : isBlankByte b = true) : b < 0x80 := by
  rcases blank_iff.mp h with rfl | rfl | rfl | rfl <;> decide

theorem front_blank {b : UInt8} (h : isBlankByte b = true) : front (Utf8.asciiGlyph b).char = .blank := by
  rcases blank_iff.mp h with rfl | rfl | rfl | rfl <;> rfl

def Parted (after : List Glyph) : Prop := ∀ g ∈ after.head?, front g.char = .blank

theorem Parted.continues {after : List Glyph} (h : Parted after) :
    ∀ g ∈ after.head?, continuesWord g.char = false ∧ isDigit g.char = false ∧ g.char ≠ '=' := by
  intro g hg
  have hblank := h g hg
  have hdigit : isDigit g.char = false := by
    rw [← Bool.not_eq_true]
    intro hd
    rw [front_eq_digit hd] at hblank
    cases hblank
  have hletter : Letter.isLetter g.char = false := by
    rw [← Bool.not_eq_true]
    intro hl
    rw [front_eq_letter hl] at hblank
    cases hblank
  have hne : ∀ c, front c ≠ .blank → g.char ≠ c := by
    rintro c hc rfl
    exact hc hblank
  refine ⟨?_, hdigit, hne '=' (by decide)⟩
  simp [continuesWord, hletter, hdigit, hne '_' (by decide)]

def Front.Spells (kind : TokenKind) (first : UInt8) (more : Bytes) : Front → Prop
  | .symbol k => k = kind ∧ more = []
  | .comparison alone withEquals => alone = kind ∧ more = [] ∨ withEquals = kind ∧ more = [0x3D]
  | .doubled k => k = kind ∧ more = [first]
  | _ => False

instance (kind : TokenKind) (first : UInt8) (more : Bytes) : (f : Front) → Decidable (f.Spells kind first more)
  | .symbol _ | .doubled _ => inferInstanceAs (Decidable (_ ∧ _))
  | .comparison _ _ => inferInstanceAs (Decidable (_ ∨ _))
  | .comment | .blank | .quote | .digit | .letter | .illegal => .isFalse id

theorem nil_notMem_symbols (kind : TokenKind) : [] ∉ kind.symbols := by
  cases kind with
  | other code => simp [TokenKind.symbols]
  | _ => decide

theorem front_spells {kind : TokenKind} {first : UInt8} {more : Bytes} (hs : first :: more ∈ kind.symbols) :
    (∀ b ∈ first :: more, b < 0x80) ∧ (front (Utf8.asciiGlyph first).char).Spells kind first more := by
  have hall : ∀ l ∈ kind.symbols, l.all (· < 0x80) = true ∧
      (front (Utf8.asciiGlyph (l.headD 0)).char).Spells kind (l.headD 0) l.tail := by
    cases kind with
    | other code => simp [TokenKind.symbols]
    | _ => decide
  obtain ⟨hascii, hspells⟩ := hall _ hs
  exact ⟨by simpa using hascii, hspells⟩

theorem wordKind_of_mem_words {kind : TokenKind} {lexeme : Bytes} (hw : lexeme ∈ kind.words) :
    isWord lexeme = true ∧ wordKind lexeme = kind := by
  have hall : ∀ l ∈ kind.words, isWord l = true ∧ wordKind l = kind := by
    cases kind with
    | other code => simp [TokenKind.words]
    | _ => decide +kernel
  exact hall lexeme hw

/-! ## One token -/

def TakenAs (terminator : Bytes) (kind : TokenKind) (lexeme written : Bytes) (after : List Glyph) : Prop :=
  ∃ g more, Utf8.glyphs written = g :: more ∧
    piece terminator g (more ++ after) = .ok ⟨some (kind, lexeme), more.length⟩

section

variable {terminator lexeme : Bytes} {kind : TokenKind} {after : List Glyph} (hafter : Parted after)

include hafter

theorem taken_number (hne : lexeme ≠ []) (hdigits : ∀ b ∈ lexeme, isDigitByte b = true) :
    TakenAs terminator .number lexeme lexeme after := by
  have hascii : ∀ b ∈ lexeme, b < 0x80 := by
    intro b hb
    have := (isDigitByte_iff b).mp (hdigits b hb)
    exact UInt8.lt_iff_toNat_lt.mpr (by simp; omega)
  have hglyphs := Utf8.glyphs_of_ascii hascii
  have hall : ∀ g ∈ lexeme.map Utf8.asciiGlyph, isDigit g.char = true := by
    intro g hg
    obtain ⟨b, hb, rfl⟩ := List.mem_map.mp hg
    have hdigit := (isDigitByte_iff b).mp (hdigits b hb)
    rw [isDigit_iff, Utf8.asciiGlyph, Utf8.toNat_ofNat (.inl (by omega))]
    exact hdigit
  obtain ⟨b, rest, rfl⟩ := List.exists_cons_of_ne_nil hne
  rw [List.map_cons] at hglyphs hall
  refine ⟨_, _, hglyphs, ?_⟩
  have htext : Utf8.text (Utf8.asciiGlyph b :: rest.map Utf8.asciiGlyph) = b :: rest := by
    rw [← hglyphs, Utf8.text_glyphs]
  rw [piece, front_eq_digit (hall _ List.mem_cons_self)]
  simp only
  rw [takeWhile_append_of_head? (fun g hg => hall g (List.mem_cons_of_mem _ hg)) fun g hg => (hafter.continues g hg).2.1]
  rw [Piece.verbatim, htext]

theorem taken_word (hword : isWord lexeme = true) : TakenAs terminator (wordKind lexeme) lexeme lexeme after := by
  unfold isWord at hword
  cases hglyphs : Utf8.glyphs lexeme with
  | nil => simp [hglyphs] at hword
  | cons g more =>
    simp only [hglyphs, Bool.and_eq_true, List.all_eq_true] at hword
    refine ⟨g, more, hglyphs, ?_⟩
    have htext : Utf8.text (g :: more) = lexeme := by rw [← hglyphs, Utf8.text_glyphs]
    rw [piece, front_eq_letter hword.1]
    simp only
    rw [takeWhile_append_of_head? hword.2 fun g hg => (hafter.continues g hg).1, Piece.verbatim, htext]

omit hafter in
theorem taken_string (hquote : 0x22 ∉ lexeme) :
    TakenAs terminator .string lexeme (ascii "\"" ++ lexeme ++ ascii "\"") after := by
  have hmark : ascii "\"" = [0x22] := by decide
  have hglyphs : Utf8.glyphs (ascii "\"" ++ lexeme ++ ascii "\"") =
      Utf8.asciiGlyph 0x22 :: (Utf8.glyphs lexeme ++ [Utf8.asciiGlyph 0x22]) := by
    rw [hmark, List.append_assoc, List.singleton_append, Utf8.glyphs_cons_of_ascii (by decide),
      Utf8.glyphs_append _ (by intro c hc; cases hc; decide), Utf8.glyphs_cons_of_ascii (by decide), Utf8.glyphs_nil]
  have hbody : ∀ g ∈ Utf8.glyphs lexeme, decide (g.char ≠ '"') = true := by
    intro g hg
    rw [decide_eq_true_eq]
    intro hchar
    have hbytes := bytes_of_char (Utf8.regular_of_mem_glyphs hg) (c := '"') (by decide) hchar
    refine hquote ?_
    rw [← Utf8.text_glyphs lexeme]
    exact List.mem_flatMap.mpr ⟨g, hg, by rw [hbytes]; decide⟩
  refine ⟨_, _, hglyphs, ?_⟩
  have hfront : front (Utf8.asciiGlyph 0x22).char = .quote := rfl
  rw [List.append_assoc, piece, hfront]
  simp only
  have htake : (Utf8.glyphs lexeme ++ ([Utf8.asciiGlyph 0x22] ++ after)).takeWhile (fun g => decide (g.char ≠ '"')) =
      Utf8.glyphs lexeme := takeWhile_append_of_head? hbody (by intro g hg; cases hg; decide)
  rw [htake, if_neg (by simp), Utf8.text_glyphs, List.length_append, List.length_singleton]

theorem taken_symbol (hs : lexeme ∈ kind.symbols) : TakenAs terminator kind lexeme lexeme after := by
  cases lexeme with
  | nil => exact absurd hs (nil_notMem_symbols kind)
  | cons first more =>
    obtain ⟨hascii, hspells⟩ := front_spells hs
    have hglyphs := Utf8.glyphs_of_ascii hascii
    rw [List.map_cons] at hglyphs
    refine ⟨_, _, hglyphs, ?_⟩
    cases hf : front (Utf8.asciiGlyph first).char with
    | symbol k =>
      rw [hf] at hspells
      obtain ⟨rfl, rfl⟩ := hspells
      rw [piece, hf]
      rfl
    | comparison alone withEquals =>
      rw [hf] at hspells
      rw [piece, hf]
      obtain ⟨rfl, rfl⟩ | ⟨rfl, rfl⟩ := hspells
      · cases after with
        | nil => rfl
        | cons g after => exact if_neg (hafter.continues g rfl).2.2
      · rfl
    | doubled k =>
      rw [hf] at hspells
      obtain ⟨rfl, rfl⟩ := hspells
      rw [piece, hf]
      exact if_pos rfl
    | _ =>
      rw [hf] at hspells
      cases hspells

theorem taken_token {t : Token} (hkind : t.kind ≠ .endOfInput) (hwf : t.WellFormed) :
    TakenAs terminator t.kind t.lexeme t.written after := by
  obtain ⟨kind, lexeme, p⟩ := t
  -- the kinds whose lexemes are listed
  have hlisted : lexeme ∈ kind.words ++ kind.symbols → TakenAs terminator kind lexeme lexeme after := by
    intro h
    rcases List.mem_append.mp h with hw | hs
    · obtain ⟨hword, hk⟩ := wordKind_of_mem_words hw
      exact hk ▸ taken_word hafter hword
    · exact taken_symbol hafter hs
  cases kind with
  | endOfInput => exact absurd rfl hkind
  | number => exact taken_number hafter hwf.1 hwf.2
  | string => exact taken_string hwf
  | identifier =>
    obtain ⟨hword, hfree⟩ := hwf
    have hk : wordKind lexeme = .identifier := by
      rcases wordKind_cases lexeme with h | ⟨h, -⟩
      · exact absurd h (hfree _)
      · exact h
    have htaken : TakenAs terminator (wordKind lexeme) lexeme lexeme after := taken_word hafter hword
    rwa [hk] at htaken
  | _ => exact hlisted hwf

end

/-! ## Whole texts -/

theorem parted_glyphs {text : Bytes} (h : ∀ b ∈ text.head?, isBlankByte b = true) : Parted (Utf8.glyphs text) := by
  cases text with
  | nil => simp [Parted, Utf8.glyphs_nil]
  | cons b text =>
    have hb := h b rfl
    intro g hg
    rw [Utf8.glyphs_cons_of_ascii (blank_lt hb)] at hg
    cases hg
    exact front_blank hb

theorem tokensFrom_spelled {text : Bytes} {items : List (TokenKind × Bytes)} (h : Spells text items)
    (hitems : ∀ item ∈ items, item.1 ≠ .endOfInput ∧ Token.WellFormed ⟨item.1, item.2, .nowhere⟩)
    (terminator : Bytes) (p : Position) :
    ∃ ts, tokensFrom terminator p (Utf8.glyphs text) = .ok ts ∧
      ts.map Token.spelling = items ++ [(.endOfInput, ascii "EndOfFile")] := by
  induction h generalizing p with
  | nil =>
    rw [Utf8.glyphs_nil, tokensFrom]
    exact ⟨_, rfl, rfl⟩
  | @blank b text items hb _ ih =>
    have hpiece : piece terminator (Utf8.asciiGlyph b) (Utf8.glyphs text) = .ok ⟨none, 0⟩ := by
      rw [piece, front_blank hb]
    obtain ⟨ts, hts, hspelling⟩ := ih hitems (p.afterAll [Utf8.asciiGlyph b])
    refine ⟨ts, ?_, hspelling⟩
    rw [Utf8.glyphs_cons_of_ascii (blank_lt hb), tokensFrom_cons hpiece, List.take_zero, List.drop_zero, hts]
    rfl
  | @token kind lexeme text items hnext _ ih =>
    obtain ⟨hkind, hwf⟩ := hitems (kind, lexeme) List.mem_cons_self
    have htails : ∀ c ∈ text.head?, Utf8.isTail c = false := fun c hc => Utf8.isTail_eq_false (blank_lt (hnext c hc))
    have htaken : TakenAs terminator kind lexeme _ (Utf8.glyphs text) := taken_token (parted_glyphs hnext) hkind hwf
    obtain ⟨g, more, hglyphs, hpiece⟩ := htaken
    obtain ⟨ts, hts, hspelling⟩ := ih (fun item hi => hitems item (List.mem_cons_of_mem _ hi)) (p.afterAll (g :: more))
    refine ⟨⟨kind, lexeme, p⟩ :: ts, ?_, by rw [List.map_cons, hspelling]; rfl⟩
    rw [Utf8.glyphs_append _ htails, hglyphs, List.cons_append, tokensFrom_cons hpiece, List.take_left, List.drop_left,
      hts]
    rfl

/-- The end of comments does not matter: there are no comments, since a number sign stands in strings only. -/
theorem tokens_spelled {text : Bytes} {items : List (TokenKind × Bytes)} (h : Spells text items)
    (hitems : ∀ item ∈ items, item.1 ≠ .endOfInput ∧ Token.WellFormed ⟨item.1, item.2, .nowhere⟩) (terminator : Bytes) :
    ∃ ts, tokens text terminator = .ok ts ∧ ts.map Token.spelling = items ++ [(.endOfInput, ascii "EndOfFile")] :=
  tokensFrom_spelled h hitems (terminatorOr terminator) .start

def spaced (gap : Bytes) : List (TokenKind × Bytes) → Bytes
  | [] => []
  | (kind, lexeme) :: items => Token.written ⟨kind, lexeme, .nowhere⟩ ++ (gap ++ spaced gap items)

theorem Spells.blanks {gap text : Bytes} {items : List (TokenKind × Bytes)} (hgap : ∀ b ∈ gap, isBlankByte b = true)
    (h : Spells text items) : Spells (gap ++ text) items := by
  induction gap with
  | nil => exact h
  | cons b gap ih => exact .blank (hgap b List.mem_cons_self) (ih fun c hc => hgap c (List.mem_cons_of_mem _ hc))

theorem spells_spaced {gap : Bytes} (hne : gap ≠ []) (hgap : ∀ b ∈ gap, isBlankByte b = true)
    (items : List (TokenKind × Bytes)) : Spells (spaced gap items) items := by
  induction items with
  | nil => exact .nil
  | cons item items ih =>
    refine .token ?_ (ih.blanks hgap)
    obtain ⟨b, more, rfl⟩ := List.exists_cons_of_ne_nil hne
    intro c hc
    cases hc
    exact hgap b List.mem_cons_self

namespace Spelling

/-- A string that ends in the middle of a character, an equals sign beside a comparison, both spellings of one operator,
and a name that begins with a letter of two bytes. -/
def items : List (TokenKind × Bytes) :=
  [(.string, ascii "# \n\xff\xe2"), (.equals, ascii "="), (.equality, ascii "=="), (.and, ascii "&&"), (.and, ascii "and"),
   (.identifier, ascii "\xc3\x89a_1"), (.number, ascii "007")]

theorem tokens_items :
    Spells (spaced (ascii "\r\n") items) items ∧
      (∀ item ∈ items, item.1 ≠ .endOfInput ∧ Token.WellFormed ⟨item.1, item.2, .nowhere⟩) ∧
      ∃ ts, tokens (spaced (ascii "\r\n") items) (ascii "#") = .ok ts ∧
        ts.map Token.spelling = items ++ [(.endOfInput, ascii "EndOfFile")] := by
  have hspells : Spells (spaced (ascii "\r\n") items) items := spells_spaced (by decide) (by simp [ascii, isBlankByte]) items
  have hfree : ∀ kind : TokenKind, ascii "\xc3\x89a_1" ∉ kind.words := by
    intro kind
    cases kind with
    | other code => simp [TokenKind.words]
    | _ => decide
  have hitems : ∀ item ∈ items, item.1 ≠ .endOfInput ∧ Token.WellFormed ⟨item.1, item.2, .nowhere⟩ := by
    intro item hitem
    refine ⟨?_, ?_⟩
    · revert item
      decide
    · simp only [items, List.mem_cons, List.not_mem_nil, or_false] at hitem
      rcases hitem with rfl | rfl | rfl | rfl | rfl | rfl | rfl <;> simp only [Token.WellFormed]
      · decide
      · decide
      · decide
      · decide
      · decide
      · exact ⟨by decide +kernel, hfree⟩
      · exact ⟨by decide, by simp [ascii, isDigitByte]⟩
  exact ⟨hspells, hitems, tokens_spelled hspells hitems (ascii "#")⟩

end Spelling

end Source

end BlockScript
