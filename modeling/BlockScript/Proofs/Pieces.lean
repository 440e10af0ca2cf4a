import BlockScript.Proofs.Glyphs

/-!
# Sources cut into pieces

A source that has tokens is a row of pieces: tokens, blanks and comments, with
no byte left over. What the pieces are is said here in terms of bytes, and
`cut_of_tokens` shows that scanning finds them.
-/

namespace BlockScript

/-! ## Tokens as they are written -/

namespace TokenKind

def words : TokenKind → List Bytes
  | .varKeyword => [ascii "var"]
  | .constKeyword => [ascii "const"]
  | .finalKeyword => [ascii "final"]
  | .fnKeyword => [ascii "fn"]
  | .returnKeyword => [ascii "return"]
  | .ifKeyword => [ascii "if"]
  | .elseKeyword => [ascii "else"]
  | .whileKeyword => [ascii "while"]
  | .and => [ascii "and"]
  | .or => [ascii "or"]
  | .numberType => [ascii "number"]
  | .stringType => [ascii "string"]
  | .arrayType => [ascii "array"]
  | .booleanType => [ascii "boolean"]
  | .objectType => [ascii "object"]
  | .dynamicType => [ascii "dynamic"]
  | _ => []

def symbols : TokenKind → List Bytes
  | .and => [ascii "&&"]
  | .or => [ascii "||"]
  | .equals => [ascii "="]
  | .semicolon => [ascii ";"]
  | .comma => [ascii ","]
  | .dot => [ascii "."]
  | .colon => [ascii ":"]
  | .openParen => [ascii "("]
  | .closeParen => [ascii ")"]
  | .openBrace => [ascii "\x7b"]
  | .closeBrace => [ascii "\x7d"]
  | .openBracket => [ascii "["]
  | .closeBracket => [ascii "]"]
  | .arithmetic => [ascii "+", ascii "-", ascii "*", ascii "/", ascii "%"]
  | .equality => [ascii "=="]
  | .notEquality => [ascii "!="]
  | .greaterThan => [ascii ">"]
  | .lessThan => [ascii "<"]
  | .greaterOrEqual => [ascii ">="]
  | .lessOrEqual => [ascii "<="]
  | .exclamation => [ascii "!"]
  | _ => []

def isHalf (kind : TokenKind) : Bool := kind ∈ [.equals, .exclamation, .lessThan, .greaterThan]

end TokenKind

namespace Source

def isDigitByte (b : UInt8) : Bool := 0x30 ≤ b && b ≤ 0x39

def isWord (text : Bytes) : Bool :=
  match Utf8.glyphs text with
  | g :: more => Letter.isLetter g.char && more.all fun h => continuesWord h.char
  | [] => false

end Source

namespace Token

def written (t : Token) : Bytes :=
  match t.kind with
  | .endOfInput => []
  | .string => ascii "\"" ++ t.lexeme ++ ascii "\""
  | _ => t.lexeme

def WellFormed (t : Token) : Prop :=
  match t.kind with
  | .endOfInput => t.lexeme = ascii "EndOfFile"
  | .number => t.lexeme ≠ [] ∧ ∀ b ∈ t.lexeme, Source.isDigitByte b = true
  | .string => 0x22 ∉ t.lexeme
  | .identifier => Source.isWord t.lexeme = true ∧ ∀ kind : TokenKind, t.lexeme ∉ kind.words
  | kind => t.lexeme ∈ kind.words ++ kind.symbols

/-- Nothing at the front of `after` would make the token longer. -/
structure EndsBefore (t : Token) (after : Bytes) : Prop where
  number : t.kind = .number → ∀ b ∈ after.head?, Source.isDigitByte b = false
  word : t.kind = .identifier ∨ t.lexeme ∈ t.kind.words →
    ∀ g ∈ (Utf8.glyphs after).head?, Source.continuesWord g.char = false
  half : t.kind.isHalf = true → after.head? ≠ some 0x3D

theorem of_symbol {t : Token} (h : t.lexeme ∈ t.kind.symbols) :
    t.kind ≠ .endOfInput ∧ t.kind ≠ .number ∧ t.kind ≠ .identifier ∧ t.written = t.lexeme ∧ t.WellFormed := by
  obtain ⟨kind, lexeme, p⟩ := t
  cases kind <;> simp [TokenKind.symbols, TokenKind.words, written, WellFormed] at h ⊢ <;> simp [h]

theorem of_word {t : Token} (h : t.lexeme ∈ t.kind.words) :
    t.kind ≠ .endOfInput ∧ t.kind ≠ .number ∧ t.kind.isHalf = false ∧ t.written = t.lexeme ∧ t.WellFormed := by
  obtain ⟨kind, lexeme, p⟩ := t
  cases kind <;> simp [TokenKind.symbols, TokenKind.words, written, WellFormed, TokenKind.isHalf] at h ⊢ <;> simp [h]

end Token

/-! ## Comments -/

namespace Source

/-- Behind its number sign a comment runs up to the first character where the terminator begins, and then takes as many
characters as the terminator has. If there is no such character, or there are fewer left, it runs to the end. -/
def IsComment (terminator text after : Bytes) : Prop :=
  ∃ body close : List Glyph, text = ascii "#" ++ Utf8.text (body ++ close) ∧
    Utf8.glyphs (Utf8.text (body ++ close) ++ after) = body ++ close ++ Utf8.glyphs after ∧
    (∀ front back, body = front ++ back → back ≠ [] → ¬ terminator <+: Utf8.text (back ++ close) ++ after) ∧
    (close = [] ∧ after = [] ∨ terminator <+: Utf8.text close ++ after ∧
      (close.length = (Utf8.glyphs terminator).length ∨
        close.length < (Utf8.glyphs terminator).length ∧ after = []))

theorem beginsWith_iff (head : Bytes) (gs : List Glyph) : beginsWith head gs = true ↔ head <+: Utf8.text gs := by
  induction gs generalizing head with
  | nil =>
    cases head with
    | nil => simp [beginsWith]
    | cons b head => simp [beginsWith]
  | cons g rest ih =>
    cases head with
    | nil => simp [beginsWith]
    | cons b head =>
      rw [beginsWith, Utf8.text_cons]
      split
      · rename_i hprefix
        rw [ih]
        obtain ⟨more, hmore⟩ := List.isPrefixOf_iff_prefix.mp hprefix
        rw [← hmore, List.drop_left, List.prefix_append_right_inj]
      · rename_i hprefix
        rw [List.isPrefixOf_iff_prefix] at hprefix ⊢
        constructor
        · intro h
          exact h.trans (List.prefix_append ..)
        · intro h
          rcases List.prefix_or_prefix_of_prefix h (List.prefix_append ..) with h | h
          · exact h
          · exact absurd h hprefix

theorem lengthBefore_spec (terminator : Bytes) (gs : List Glyph) :
    (∀ j < lengthBefore terminator gs, ¬ terminator <+: Utf8.text (gs.drop j)) ∧
      (lengthBefore terminator gs < gs.length →
        terminator <+: Utf8.text (gs.drop (lengthBefore terminator gs))) := by
  induction gs with
  | nil => simp [lengthBefore]
  | cons g rest ih =>
    rw [lengthBefore]
    split
    · rename_i hbegins
      refine ⟨fun j hj => absurd hj (Nat.not_lt_zero j), fun _ => ?_⟩
      exact (beginsWith_iff terminator (g :: rest)).mp hbegins
    · rename_i hbegins
      refine ⟨?_, ?_⟩
      · intro j hj
        cases j with
        | zero => exact fun h => hbegins ((beginsWith_iff terminator (g :: rest)).mpr h)
        | succ j => exact ih.1 j (Nat.lt_of_succ_lt_succ hj)
      · intro hlt
        exact ih.2 (Nat.lt_of_succ_lt_succ hlt)

theorem isComment_of_length {terminator : Bytes} {rest : List Glyph} (hread : Utf8.IsReading rest) :
    IsComment terminator (ascii "#" ++ Utf8.text (rest.take (commentLength terminator rest)))
      (Utf8.text (rest.drop (commentLength terminator rest))) := by
  obtain ⟨hquiet, hfound⟩ := lengthBefore_spec terminator rest
  have hle := lengthBefore_le terminator rest
  unfold commentLength
  generalize lengthBefore terminator rest = k at *
  generalize hn : (Utf8.glyphs terminator).length = n
  have hdrop : rest.drop k = (rest.drop k).take n ++ rest.drop (k + n) := by
    rw [← List.drop_drop, List.take_append_drop]
  refine ⟨rest.take k, (rest.drop k).take n, ?_, ?_, ?_, ?_⟩
  · rw [List.take_add]
  · rw [← List.take_add, ← Utf8.text_append, List.take_append_drop, hread]
    rw [hread.drop (k + n), List.take_append_drop]
  · intro front back hbody hne hprefix
    have hfront : front.length < k := by
      have hlength := congrArg List.length hbody
      have hpos := List.length_pos_iff.mpr hne
      rw [List.length_take, List.length_append] at hlength
      omega
    have hsplit : rest = front ++ (back ++ rest.drop k) := by
      rw [← List.append_assoc, ← hbody, List.take_append_drop]
    have hback : rest.drop front.length = back ++ rest.drop k :=
      (congrArg (List.drop front.length) hsplit).trans List.drop_left
    refine hquiet _ hfront ?_
    rw [hback, hdrop, ← List.append_assoc, Utf8.text_append]
    exact hprefix
  · rcases Nat.lt_or_eq_of_le hle with hlt | heq
    · refine .inr ⟨?_, ?_⟩
      · rw [← Utf8.text_append, ← hdrop]
        exact hfound hlt
      · rw [hn, List.length_take, List.length_drop]
        by_cases hlong : n ≤ rest.length - k
        · exact .inl (Nat.min_eq_left hlong)
        · refine .inr ⟨by omega, ?_⟩
          rw [List.drop_eq_nil_of_le (by omega), Utf8.text_nil]
    · refine .inl ⟨?_, ?_⟩
      · rw [List.drop_eq_nil_of_le (by omega), List.take_nil]
      · rw [List.drop_eq_nil_of_le (by omega), Utf8.text_nil]

/-! ## Single pieces -/

def isBlankByte (b : UInt8) : Bool := b ∈ ascii " \t\r\n"

/-- `text` is one piece of a source when `after` follows it; `ts` are its tokens, at most one. -/
inductive Stands (terminator : Bytes) (p : Position) : (text after : Bytes) → (ts : List Token) → Prop
  | blank {b after} : isBlankByte b = true → Stands terminator p [b] after []
  | comment {text after} : IsComment terminator text after → Stands terminator p text after []
  | token {t after} : t.position = p → t.kind ≠ .endOfInput → t.WellFormed → t.EndsBefore after →
      Stands terminator p t.written after [t]

def byteOf (c : Char) : UInt8 := UInt8.ofNat c.toNat

def Front.Describes (c : Char) : Front → Prop
  | .symbol kind => c.toNat < 0x80 ∧ [byteOf c] ∈ kind.symbols ∧ [byteOf c] ∉ kind.words ∧ kind.isHalf = false
  | .comparison alone withEquals => c.toNat < 0x80 ∧ [byteOf c] ∈ alone.symbols ∧ alone.words = [] ∧
      [byteOf c, 0x3D] ∈ withEquals.symbols ∧ withEquals.words = [] ∧ withEquals.isHalf = false
  | .doubled kind => c.toNat < 0x80 ∧ [byteOf c, byteOf c] ∈ kind.symbols ∧ [byteOf c, byteOf c] ∉ kind.words ∧
      kind.isHalf = false
  | .comment => c = '#'
  | .blank => c.toNat < 0x80 ∧ isBlankByte (byteOf c) = true
  | .quote => c = '"'
  | .digit => isDigit c = true
  | .letter => Letter.isLetter c = true
  | .illegal => True

instance (c : Char) : (f : Front) → Decidable (f.Describes c)
  | .symbol _ | .comparison _ _ | .doubled _ | .blank => inferInstanceAs (Decidable (_ ∧ _))
  | .comment | .quote | .digit | .letter => inferInstanceAs (Decidable (_ = _))
  | .illegal => .isTrue trivial

theorem front_describes (c : Char) : (front c).Describes c := by
  unfold front
  split
  -- all but the last of the cases are single characters
  all_goals try decide
  split
  · assumption
  · split
    · assumption
    · trivial

section

variable {terminator : Bytes} {p : Position} {kind : TokenKind} {g : Glyph} {more after : List Glyph}

theorem Stands.of_written {t : Token} {text after : Bytes} (hw : t.written = text) (hp : t.position = p)
    (hkind : t.kind ≠ .endOfInput) (hwf : t.WellFormed) (hend : t.EndsBefore after) :
    Stands terminator p text after [t] := hw ▸ .token hp hkind hwf hend

theorem stands_symbol {lexeme after : Bytes} (hs : lexeme ∈ kind.symbols) (hw : lexeme ∉ kind.words)
    (hhalf : kind.isHalf = true → after.head? ≠ some 0x3D) :
    Stands terminator p lexeme after [⟨kind, lexeme, p⟩] := by
  obtain ⟨hkind, hnumber, hidentifier, hwritten, hwf⟩ := Token.of_symbol (t := ⟨kind, lexeme, p⟩) hs
  refine .of_written hwritten rfl hkind hwf ⟨fun h => absurd h hnumber, ?_, hhalf⟩
  rintro (h | h)
  · exact absurd h hidentifier
  · exact absurd h hw

theorem exists_head_of_byte (hread : Utf8.IsReading after) {b : UInt8} (hb : b ∈ (Utf8.text after).head?)
    (hlt : b < 0x80) : ∃ h ∈ after.head?, h.char = Char.ofNat b.toNat := by
  cases after with
  | nil => cases hb
  | cons h after =>
    obtain ⟨x, xs, hx⟩ := List.exists_cons_of_ne_nil (hread.bytes_ne_nil (g := h) List.mem_cons_self)
    rw [Utf8.text_cons, hx, List.cons_append, List.head?_cons, Option.mem_some] at hb
    subst hb
    exact ⟨h, rfl, (hread.regular List.mem_cons_self).char_of_mem (by simp [hx]) hlt⟩

theorem exists_of_byte (hafter : ∀ h ∈ after, h.Regular) {b : UInt8} (hb : b ∈ Utf8.text after) (hlt : b < 0x80) :
    ∃ h ∈ after, h.char = Char.ofNat b.toNat := by
  obtain ⟨h, hh, hb⟩ := List.mem_flatMap.mp hb
  exact ⟨h, hh, (hafter h hh).char_of_mem hb hlt⟩

theorem isDigit_iff (c : Char) : isDigit c = true ↔ 0x30 ≤ c.toNat ∧ c.toNat ≤ 0x39 := by
  simp [isDigit, Char.le_def, UInt32.le_iff_toNat_le]

theorem isDigitByte_iff (b : UInt8) : isDigitByte b = true ↔ 0x30 ≤ b.toNat ∧ b.toNat ≤ 0x39 := by
  simp [isDigitByte, UInt8.le_iff_toNat_le]

theorem isDigit_of_letter {c : Char} (h : Letter.isLetter c = true) : isDigit c = false := by
  rw [← Bool.not_eq_true, isDigit_iff]
  intro hd
  have hascii : c.toNat < 0x80 := by omega
  rw [Letter.isLetter, if_pos hascii] at h
  simp [Letter.isAsciiLetter, Char.le_def, UInt32.le_iff_toNat_le] at h
  omega

theorem stands_number (hread : Utf8.IsReading ((g :: more) ++ after)) (hdigits : ∀ h ∈ g :: more, isDigit h.char = true)
    (hstop : ∀ h ∈ after.head?, isDigit h.char = false) :
    Stands terminator p (Utf8.text (g :: more)) (Utf8.text after) [⟨.number, Utf8.text (g :: more), p⟩] := by
  refine .of_written rfl rfl (by simp) ⟨?_, ?_⟩ ⟨?_, ?_, by simp [TokenKind.isHalf]⟩
  · simp [hread.bytes_ne_nil (g := g) List.mem_cons_self]
  · intro b hb
    obtain ⟨h, hh, hb⟩ := List.mem_flatMap.mp hb
    have hdigit := (isDigit_iff h.char).mp (hdigits h hh)
    rw [(hread.append.1.regular hh).bytes_of_ascii (by omega), List.mem_singleton] at hb
    rw [hb, isDigitByte_iff, UInt8.toNat_ofNat']
    omega
  · intro _ b hb
    by_contra hdigit
    rw [Bool.not_eq_false, isDigitByte_iff] at hdigit
    obtain ⟨h, hh, hchar⟩ := exists_head_of_byte hread.append.2 hb (UInt8.lt_iff_toNat_lt.mpr (by simp; omega))
    have hnot := hstop h hh
    rw [hchar, ← Bool.not_eq_true, isDigit_iff, Utf8.toNat_ofNat (.inl (by omega))] at hnot
    exact hnot hdigit
  · rintro (h | h)
    · cases h
    · cases h

theorem wordKind_cases (word : Bytes) :
    word ∈ (wordKind word).words ∨ wordKind word = .identifier ∧ ∀ kind : TokenKind, word ∉ kind.words := by
  unfold wordKind
  cases hl : reserved.lookup word with
  | some kind =>
    have hall : ∀ p ∈ reserved, p.1 ∈ p.2.words := by decide
    obtain ⟨l₁, l₂, hreserved, -⟩ := List.lookup_eq_some_iff.mp hl
    exact .inl (hall (word, kind) (by rw [hreserved]; simp))
  | none =>
    refine .inr ⟨rfl, ?_⟩
    intro kind hw
    have hall : ∀ w ∈ kind.words, (reserved.lookup w).isSome = true := by
      cases kind with
      | other code => simp [TokenKind.words]
      | _ => decide
    have hsome := hall word hw
    rw [hl] at hsome
    cases hsome

theorem stands_word (hread : Utf8.IsReading ((g :: more) ++ after)) (hletter : Letter.isLetter g.char = true)
    (hmore : ∀ h ∈ more, continuesWord h.char = true) (hstop : ∀ h ∈ after.head?, continuesWord h.char = false) :
    Stands terminator p (Utf8.text (g :: more)) (Utf8.text after)
      [⟨wordKind (Utf8.text (g :: more)), Utf8.text (g :: more), p⟩] := by
  have hstop' : ∀ h ∈ (Utf8.glyphs (Utf8.text after)).head?, continuesWord h.char = false := by
    rw [hread.append.2]
    exact hstop
  rcases wordKind_cases (Utf8.text (g :: more)) with hword | ⟨hkind, hnone⟩
  · obtain ⟨hend, hnumber, hhalf, hwritten, hwf⟩ := Token.of_word (t := ⟨wordKind (Utf8.text (g :: more)), _, p⟩) hword
    exact .of_written hwritten rfl hend hwf
      ⟨fun h => absurd h hnumber, fun _ => hstop', fun h => by rw [hhalf] at h; cases h⟩
  · rw [hkind]
    refine .of_written rfl rfl (by simp) ⟨?_, hnone⟩ ⟨by simp, fun _ => hstop', by simp [TokenKind.isHalf]⟩
    rw [isWord, hread.append.1]
    simp [hletter, List.all_eq_true.mpr hmore]

theorem bytes_of_char (hg : g.Regular) {c : Char} (hc : c.toNat < 0x80) (hchar : g.char = c) : g.bytes = [byteOf c] := by
  rw [hg.bytes_of_ascii (by rw [hchar]; exact hc), hchar]
  rfl

theorem stands_string {q : Glyph} (hread : Utf8.IsReading (g :: (more ++ q :: after))) (hg : g.char = '"')
    (hmore : ∀ h ∈ more, h.char ≠ '"') (hq : q.char = '"') :
    Stands terminator p (Utf8.text (g :: (more ++ [q]))) (Utf8.text after) [⟨.string, Utf8.text more, p⟩] := by
  have hgbytes := bytes_of_char (hread.regular List.mem_cons_self) (by decide) hg
  have hqbytes := bytes_of_char (hread.regular (g := q) (by simp)) (by decide) hq
  refine .of_written ?_ rfl (by simp) ?_ ⟨by simp, ?_, by simp [TokenKind.isHalf]⟩
  · have hquote : ascii "\"" = [byteOf '"'] := by decide
    simp [Token.written, hgbytes, hqbytes, hquote]
  · intro hquote
    obtain ⟨h, hh, hchar⟩ := exists_of_byte (fun h hh => hread.regular (by simp [hh])) hquote (by decide)
    exact hmore h hh hchar
  · rintro (h | h)
    · cases h
    · cases h

theorem takeWhile_cut (q : Glyph → Bool) (rest : List Glyph) :
    rest.take (rest.takeWhile q).length = rest.takeWhile q ∧
      rest.drop (rest.takeWhile q).length = rest.dropWhile q := by
  have hcut := @List.takeWhile_append_dropWhile _ q rest
  exact ⟨(congrArg (List.take _) hcut.symm).trans List.take_left,
    (congrArg (List.drop _) hcut.symm).trans List.drop_left⟩

theorem takeWhile_append_of_head? {α : Type} {q : α → Bool} {more after : List α} (hmore : ∀ x ∈ more, q x = true)
    (hafter : ∀ x ∈ after.head?, q x = false) : (more ++ after).takeWhile q = more := by
  rw [List.takeWhile_append_of_pos hmore]
  cases after with
  | nil => rw [List.takeWhile_nil, List.append_nil]
  | cons x after => rw [List.takeWhile_cons_of_neg (by simp [hafter x rfl]), List.append_nil]

theorem head?_dropWhile {q : Glyph → Bool} {rest : List Glyph} : ∀ h ∈ (rest.dropWhile q).head?, q h = false := by
  intro h hh
  have hnot := List.head?_dropWhile_not q rest
  rw [Option.mem_def.mp hh] at hnot
  simpa using hnot

theorem isReading_takeWhile {q : Glyph → Bool} {rest : List Glyph} (hread : Utf8.IsReading (g :: rest)) :
    Utf8.IsReading ((g :: rest.takeWhile q) ++ rest.dropWhile q) := by
  rwa [List.cons_append, List.takeWhile_append_dropWhile]

theorem exists_closing_quote {rest : List Glyph}
    (hclosed : ¬ (rest.takeWhile fun h => decide (h.char ≠ '"')).length = rest.length) :
    ∃ q after, rest = rest.takeWhile (fun h => decide (h.char ≠ '"')) ++ q :: after ∧
      (∀ u ∈ rest.takeWhile fun h => decide (h.char ≠ '"'), u.char ≠ '"') ∧ q.char = '"' := by
  have hsplit := @List.takeWhile_append_dropWhile _ (fun h => decide (h.char ≠ '"')) rest
  cases hd : rest.dropWhile fun h => decide (h.char ≠ '"') with
  | nil =>
    rw [hd, List.append_nil] at hsplit
    exact absurd (congrArg List.length hsplit) hclosed
  | cons q after =>
    rw [hd] at hsplit
    refine ⟨q, after, hsplit.symm, ?_, ?_⟩
    · intro u hu
      exact of_decide_eq_true (List.all_eq_true.mp List.all_takeWhile u hu)
    · have hq := head?_dropWhile (q := fun h => decide (h.char ≠ '"')) q (by rw [hd]; rfl)
      exact Decidable.not_not.mp (of_decide_eq_false hq)

theorem head?_ne_equals (hread : Utf8.IsReading after) (h : ∀ u ∈ after.head?, u.char ≠ '=') :
    (Utf8.text after).head? ≠ some 0x3D := by
  intro hb
  obtain ⟨u, hu, hchar⟩ := exists_head_of_byte hread hb (by decide)
  exact h u hu hchar

theorem piece_stands {rest : List Glyph} (hread : Utf8.IsReading (g :: rest)) {pc : Piece}
    (h : piece terminator g rest = .ok pc) :
    Stands terminator p (Utf8.text (g :: rest.take pc.extra)) (Utf8.text (rest.drop pc.extra)) (pc.tokens p) := by
  have hreg : g.Regular := hread.regular List.mem_cons_self
  have hrest : Utf8.IsReading rest := (@Utf8.IsReading.append [g] rest hread).2
  have hfront := front_describes g.char
  cases hf : front g.char with
  | symbol kind =>
    rw [hf] at hfront
    obtain ⟨hascii, hsymbol, hword, hhalf⟩ := hfront
    simp only [piece, hf] at h
    cases h
    simp only [Piece.verbatim, Piece.tokens, List.length_nil, List.take_zero, Utf8.text_cons, Utf8.text_nil,
      List.append_nil, bytes_of_char hreg hascii rfl]
    exact stands_symbol hsymbol hword fun h => by rw [hhalf] at h; cases h
  | comparison alone withEquals =>
    rw [hf] at hfront
    obtain ⟨hascii, halone, hword, hwith, hwords, hhalf⟩ := hfront
    -- no equals sign follows
    have hsingle : (∀ u ∈ rest.head?, u.char ≠ '=') → pc = .verbatim alone g [] →
        Stands terminator p (Utf8.text (g :: rest.take pc.extra)) (Utf8.text (rest.drop pc.extra)) (pc.tokens p) := by
      rintro hnext rfl
      simp only [Piece.verbatim, Piece.tokens, List.length_nil, List.take_zero, List.drop_zero, Utf8.text_cons,
        Utf8.text_nil, List.append_nil, bytes_of_char hreg hascii rfl]
      exact stands_symbol halone (by simp [hword]) fun _ => head?_ne_equals hrest hnext
    simp only [piece, hf] at h
    split at h
    · rename_i u rest
      split at h
      · rename_i hu
        cases h
        have hubytes := bytes_of_char (hread.regular (g := u) (by simp)) (by decide) hu
        simp only [Piece.verbatim, Piece.tokens, List.length_singleton, List.take_succ_cons, List.take_zero,
          Utf8.text_cons, Utf8.text_nil, List.append_nil, bytes_of_char hreg hascii rfl, hubytes]
        exact stands_symbol hwith (by simp [hwords]) fun h => by rw [hhalf] at h; cases h
      · rename_i hu
        exact hsingle (by simpa using hu) (Except.ok.inj h).symm
    · exact hsingle (by simp) (Except.ok.inj h).symm
  | doubled kind =>
    rw [hf] at hfront
    obtain ⟨hascii, hsymbol, hword, hhalf⟩ := hfront
    simp only [piece, hf] at h
    split at h
    · rename_i u rest
      split at h
      · rename_i hu
        cases h
        have hubytes := bytes_of_char (hread.regular (g := u) (by simp)) hascii hu
        simp only [Piece.verbatim, Piece.tokens, List.length_singleton, List.take_succ_cons, List.take_zero,
          Utf8.text_cons, Utf8.text_nil, List.append_nil, bytes_of_char hreg hascii rfl, hubytes]
        exact stands_symbol hsymbol hword fun h => by rw [hhalf] at h; cases h
      · cases h
    · cases h
  | comment =>
    rw [hf] at hfront
    simp only [piece, hf] at h
    cases h
    rw [Utf8.text_cons, bytes_of_char hreg (by decide) hfront]
    exact .comment (isComment_of_length hrest)
  | blank =>
    rw [hf] at hfront
    obtain ⟨hascii, hblank⟩ := hfront
    simp only [piece, hf] at h
    cases h
    simp only [Piece.tokens, List.take_zero, Utf8.text_cons, Utf8.text_nil, List.append_nil,
      bytes_of_char hreg hascii rfl]
    exact .blank hblank
  | quote =>
    rw [hf] at hfront
    simp only [piece, hf] at h
    split at h
    · cases h
    · rename_i hclosed
      cases h
      obtain ⟨q, after, hsplit, hmore, hq⟩ := exists_closing_quote hclosed
      generalize rest.takeWhile (fun h => decide (h.char ≠ '"')) = more at hsplit hmore
      subst hsplit
      rw [List.take_length_add_append, List.drop_length_add_append]
      exact stands_string hread hfront hmore hq
  | digit =>
    rw [hf] at hfront
    simp only [piece, hf] at h
    cases h
    obtain ⟨htake, hdrop⟩ := takeWhile_cut (fun h => isDigit h.char) rest
    simp only [Piece.verbatim, Piece.tokens, htake, hdrop]
    refine stands_number (isReading_takeWhile hread) ?_ head?_dropWhile
    intro u hu
    rcases List.mem_cons.mp hu with rfl | hu
    · exact hfront
    · exact List.all_eq_true.mp List.all_takeWhile u hu
  | letter =>
    rw [hf] at hfront
    simp only [piece, hf] at h
    cases h
    obtain ⟨htake, hdrop⟩ := takeWhile_cut (fun h => continuesWord h.char) rest
    simp only [Piece.verbatim, Piece.tokens, htake, hdrop]
    exact stands_word (isReading_takeWhile hread) hfront (List.all_eq_true.mp List.all_takeWhile) head?_dropWhile
  | illegal =>
    simp only [piece, hf] at h
    cases h

end

/-! ## Whole sources -/

inductive Cut (terminator : Bytes) : Position → Bytes → List Token → Prop
  | nil p : Cut terminator p [] [.endOfInput p]
  | cons {p text after ts us} : Stands terminator p text after ts → Cut terminator (p.afterAll (Utf8.glyphs text)) after us →
      Cut terminator p (text ++ after) (ts ++ us)

theorem cut_of_tokensFrom {terminator : Bytes} {p : Position} {gs : List Glyph} (hread : Utf8.IsReading gs)
    {tokens : List Token} (h : tokensFrom terminator p gs = .ok tokens) : Cut terminator p (Utf8.text gs) tokens := by
  induction p, gs using piece_induction terminator generalizing tokens with
  | nil p =>
    rw [tokensFrom] at h
    cases h
    exact .nil p
  | stuck p g rest cause hp =>
    rw [tokensFrom_error hp] at h
    cases h
  | cut p g rest pc hp ih =>
    have hsplit : g :: rest = (g :: rest.take pc.extra) ++ rest.drop pc.extra := by
      rw [List.cons_append, List.take_append_drop]
    have hstands := piece_stands (p := p) hread hp
    rw [tokensFrom_cons hp] at h
    rw [hsplit] at hread ⊢
    obtain ⟨hpiece, hrest⟩ := hread.append
    cases hmore : tokensFrom terminator (p.afterAll (g :: rest.take pc.extra)) (rest.drop pc.extra) with
    | error e =>
      rw [hmore] at h
      cases h
    | ok more =>
      rw [hmore] at h
      cases h
      rw [Utf8.text_append]
      refine .cons hstands ?_
      rw [hpiece]
      exact ih hrest hmore

theorem cut_of_tokens {source terminator : Bytes} {ts : List Token} (h : tokens source terminator = .ok ts) :
    Cut (terminatorOr terminator) .start source ts := by
  have hcut := cut_of_tokensFrom (Utf8.isReading_glyphs source) h
  rwa [Utf8.text_glyphs] at hcut

end Source

end BlockScript
