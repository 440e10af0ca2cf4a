import BlockScript.Token.Scan

/-!
# Scanning line by line

A newline parts a source: no character and no token reaches across it, and a
comment that is still open in front of it ends there. So the tokens of two
sources with a newline between them are the tokens of the first and then those
of the second, moved to where the second stands.
-/

namespace BlockScript

/-! ## Characters -/

namespace Utf8

def newline : Glyph := ⟨'\n', [10]⟩

theorem tails?_append (lead : Lead) (rest : Bytes) {b : Bytes} (hb : ∀ c ∈ b.head?, isTail c = false) :
    tails? lead (rest ++ b) = tails? lead rest := by
  cases b with
  | nil => rw [List.append_nil]
  | cons c b =>
    unfold tails?
    by_cases h : lead.tails ≤ rest.length
    · rw [List.take_append_of_le_length h]
    · -- too few bytes in front of `c`, and `c` completes nothing
      have hshort : ¬ (rest.take lead.tails).length = lead.tails := by
        rw [List.length_take]
        omega
      have hmem : c ∈ (rest ++ c :: b).take lead.tails := by
        rw [List.mem_take_iff_getElem]
        exact ⟨rest.length, by simp; omega, by simp⟩
      have hall : ((rest ++ c :: b).take lead.tails).all isTail = false := by
        rw [List.all_eq_false]
        exact ⟨c, hmem, by simp [hb c rfl]⟩
      simp only [hshort, hall, decide_false, Bool.false_and, Bool.and_false, Bool.false_eq_true, if_false]

theorem glyph_append (first : UInt8) (rest : Bytes) {b : Bytes} (hb : ∀ c ∈ b.head?, isTail c = false) :
    glyph first (rest ++ b) = glyph first rest := by
  unfold glyph
  simp only [tails?_append _ _ hb]

theorem length_glyph_le (first : UInt8) (rest : Bytes) : (glyph first rest).bytes.length - 1 ≤ rest.length := by
  unfold glyph
  split
  · simp
  · split
    · simp [Glyph.broken]
    · split
      · simp [Glyph.broken]
      · rename_i lead _ tails htails
        simp only [tails?] at htails
        split at htails
        · cases htails
          simp only [List.length_cons, List.length_take]
          omega
        · cases htails

theorem glyph_bytes_ne_nil (first : UInt8) (rest : Bytes) : (glyph first rest).bytes ≠ [] := by
  unfold glyph
  split
  · simp
  · split
    · simp [Glyph.broken]
    · split <;> simp [Glyph.broken]

theorem glyphs_append (a : Bytes) {b : Bytes} (hb : ∀ c ∈ b.head?, isTail c = false) :
    glyphs (a ++ b) = glyphs a ++ glyphs b := by
  induction a using glyphs.induct with
  | case1 =>
    rw [List.nil_append, glyphs.eq_1, List.nil_append]
  | case2 first rest g ih =>
    rw [List.cons_append, glyphs, glyphs, glyph_append first rest hb]
    rw [List.drop_append_of_le_length (length_glyph_le first rest)]
    exact congrArg (List.cons _) ih

theorem glyphs_append_newline (a b : Bytes) : glyphs (a ++ 10 :: b) = glyphs a ++ newline :: glyphs b := by
  have hnewline : ∀ c ∈ (10 :: b).head?, isTail c = false := by
    intro c hc
    cases hc
    decide
  rw [glyphs_append a hnewline, glyphs.eq_2]
  rfl

theorem bytes_ne_nil_of_mem_glyphs {text : Bytes} {g : Glyph} (h : g ∈ glyphs text) : g.bytes ≠ [] := by
  induction text using glyphs.induct with
  | case1 =>
    rw [glyphs] at h
    cases h
  | case2 first rest g' ih =>
    rw [glyphs] at h
    rcases List.mem_cons.mp h with rfl | h
    · exact glyph_bytes_ne_nil first rest
    · exact ih h

end Utf8

/-! ## Positions -/

namespace Position

theorem afterAll_append (p : Position) (a b : List Glyph) : p.afterAll (a ++ b) = (p.afterAll a).afterAll b :=
  List.foldl_append ..

def shift (bytes lines : Int) (p : Position) : Position := ⟨p.offset + bytes, p.line + lines, p.column⟩

theorem shift_after (bytes lines : Int) (p : Position) (g : Glyph) :
    (p.after g).shift bytes lines = (p.shift bytes lines).after g := by
  by_cases h : g.char = '\n'
  · simp only [after, shift, h, if_true, Position.mk.injEq, and_true]
    omega
  · simp only [after, shift, h, if_false, Position.mk.injEq, and_true]
    omega

theorem shift_afterAll (bytes lines : Int) (p : Position) (gs : List Glyph) :
    (p.afterAll gs).shift bytes lines = (p.shift bytes lines).afterAll gs := by
  induction gs generalizing p with
  | nil => rfl
  | cons g gs ih =>
    change ((p.after g).afterAll gs).shift bytes lines = _
    rw [ih, shift_after]
    rfl

theorem after_newline (p : Position) : p.after Utf8.newline = start.shift (p.offset + 1) p.line := by
  simp [after, Utf8.newline, start, shift]
  omega

end Position

def Token.move (f : Position → Position) (t : Token) : Token := { t with position := f t.position }

def LexError.move (f : Position → Position) (e : LexError) : LexError := { e with position := f e.position }

namespace Source

/-! ## Pieces -/

theorem beginsWith_newline {g : Glyph} (hg : g.bytes ≠ []) (rest : List Glyph) :
    beginsWith defaultTerminator (g :: rest) = (g.bytes.head? == some 10) := by
  have hdefault : defaultTerminator = [10] := by decide
  obtain ⟨x, xs, hx⟩ := List.exists_cons_of_ne_nil hg
  rw [hdefault, beginsWith, hx]
  by_cases h : x = 10
  · subst h
    cases xs with
    | nil => simp [beginsWith]
    | cons y ys => simp
  · simp only [List.isPrefixOf, beq_false_of_ne h, beq_false_of_ne (Ne.symm h), Bool.false_and, Bool.false_eq_true,
      if_false, List.head?_cons, Option.some_beq_some]

theorem lengthBefore_append {rest : List Glyph} (hrest : ∀ g ∈ rest, g.bytes ≠ []) (b : List Glyph) :
    lengthBefore defaultTerminator (rest ++ Utf8.newline :: b) = lengthBefore defaultTerminator rest := by
  induction rest with
  | nil =>
    have hbegins : beginsWith defaultTerminator (Utf8.newline :: b) = true := by
      rw [beginsWith_newline (by decide)]
      rfl
    simp only [List.nil_append, lengthBefore, hbegins, if_true]
  | cons g rest ih =>
    have hg := hrest g List.mem_cons_self
    rw [List.cons_append, lengthBefore, lengthBefore, beginsWith_newline hg, beginsWith_newline hg,
      ih fun g' h => hrest g' (List.mem_cons_of_mem _ h)]

theorem lengthBefore_le (terminator : Bytes) (rest : List Glyph) : lengthBefore terminator rest ≤ rest.length := by
  induction rest with
  | nil => exact Nat.le_refl 0
  | cons g rest ih =>
    rw [lengthBefore]
    split
    · exact Nat.zero_le _
    · simpa using ih

theorem takeWhile_append_newline {p : Char → Bool} (hp : p '\n' = false) (rest b : List Glyph) :
    (rest ++ Utf8.newline :: b).takeWhile (fun h => p h.char) = rest.takeWhile fun h => p h.char := by
  induction rest with
  | nil => simp [Utf8.newline, hp]
  | cons h rest ih => rw [List.cons_append, List.takeWhile_cons, List.takeWhile_cons, ih]

theorem piece_append {g : Glyph} {rest : List Glyph} (hrest : ∀ g ∈ rest, g.bytes ≠ []) {pc : Piece}
    (h : piece defaultTerminator g rest = .ok pc) (b : List Glyph) :
    piece defaultTerminator g (rest ++ Utf8.newline :: b) = .ok pc := by
  cases hf : front g.char with
  | symbol kind => simpa only [piece, hf] using h
  | comparison alone withEquals =>
    cases rest with
    | cons h' rest => simpa only [piece, hf, List.cons_append] using h
    | nil =>
      have hnewline : ¬ Utf8.newline.char = '=' := by decide
      simpa only [piece, hf, List.nil_append, if_neg hnewline] using h
  | doubled kind =>
    cases rest with
    | cons h' rest => simpa only [piece, hf, List.cons_append] using h
    | nil => simp only [piece, hf] at h; cases h
  | comment => simpa only [piece, hf, commentLength, lengthBefore_append hrest] using h
  | blank => simpa only [piece, hf] using h
  | quote =>
    simp only [piece, hf] at h ⊢
    split at h
    · cases h
    · rename_i hclosed
      have hlt : (rest.takeWhile fun h => h.char ≠ '"').length < rest.length :=
        Nat.lt_of_le_of_ne (List.takeWhile_sublist _).length_le hclosed
      rw [List.takeWhile_append, if_neg hclosed, if_neg (by rw [List.length_append]; omega)]
      exact h
  | digit =>
    have hnewline : isDigit '\n' = false := by decide
    simpa only [piece, hf, takeWhile_append_newline hnewline] using h
  | letter =>
    have hnewline : continuesWord '\n' = false := by decide
    simpa only [piece, hf, takeWhile_append_newline hnewline] using h
  | illegal => simp only [piece, hf] at h; cases h

theorem glyphs_defaultTerminator : Utf8.glyphs defaultTerminator = [Utf8.newline] := by
  have hdefault : defaultTerminator = [] ++ 10 :: [] := by decide
  rw [hdefault, Utf8.glyphs_append_newline]
  simp [Utf8.glyphs]

/-- A piece stays within its source, unless it is a comment without an end. -/
theorem piece_extra {g : Glyph} {rest : List Glyph} {pc : Piece} (h : piece defaultTerminator g rest = .ok pc) :
    pc.extra ≤ rest.length ∨ pc.extra = rest.length + 1 ∧ pc.token? = none := by
  cases hf : front g.char with
  | symbol kind | blank =>
    simp only [piece, hf] at h
    cases h
    exact .inl (Nat.zero_le _)
  | comparison alone withEquals =>
    simp only [piece, hf] at h
    split at h
    · split at h <;> cases h <;> exact .inl (by simp [Piece.verbatim])
    · cases h
      exact .inl (Nat.zero_le _)
  | doubled kind =>
    simp only [piece, hf] at h
    split at h
    · split at h <;> cases h
      exact .inl (by simp [Piece.verbatim])
    · cases h
  | comment =>
    simp only [piece, hf, commentLength, glyphs_defaultTerminator] at h
    cases h
    have hle := lengthBefore_le defaultTerminator rest
    rcases Nat.lt_or_eq_of_le hle with hlt | heq
    · exact .inl hlt
    · exact .inr ⟨congrArg (· + 1) heq, rfl⟩
  | quote =>
    simp only [piece, hf] at h
    split at h
    · cases h
    · rename_i hclosed
      cases h
      exact .inl (Nat.lt_of_le_of_ne (List.takeWhile_sublist _).length_le hclosed)
  | digit =>
    simp only [piece, hf] at h
    cases h
    exact .inl (List.takeWhile_sublist _).length_le
  | letter =>
    simp only [piece, hf] at h
    cases h
    exact .inl (List.takeWhile_sublist _).length_le
  | illegal =>
    simp only [piece, hf] at h
    cases h

theorem wordKind_ne_endOfInput (word : Bytes) : wordKind word ≠ .endOfInput := by
  unfold wordKind
  cases hl : reserved.lookup word with
  | none => decide
  | some kind =>
    obtain ⟨l₁, l₂, hreserved, -⟩ := List.lookup_eq_some_iff.mp hl
    have hall : ∀ p ∈ reserved, p.2 ≠ .endOfInput := by decide
    exact hall (word, kind) (by rw [hreserved]; simp)

def Front.kinds : Front → List TokenKind
  | symbol kind | doubled kind => [kind]
  | comparison alone withEquals => [alone, withEquals]
  | _ => []

theorem endOfInput_notMem_kinds (c : Char) : .endOfInput ∉ (front c).kinds := by
  unfold front
  split <;> try decide
  split
  · decide
  · split <;> decide

theorem piece_kind {terminator : Bytes} {g : Glyph} {rest : List Glyph} {kind : TokenKind} {lexeme : Bytes} {extra : Nat}
    (h : piece terminator g rest = .ok ⟨some (kind, lexeme), extra⟩) : kind ≠ .endOfInput := by
  have hkinds := endOfInput_notMem_kinds g.char
  rintro rfl
  cases hf : front g.char with
  | symbol k =>
    simp only [piece, hf] at h
    cases h
    exact hkinds (by simp [hf, Front.kinds])
  | comparison alone withEquals =>
    simp only [piece, hf] at h
    split at h
    · split at h <;> cases h <;> exact hkinds (by simp [hf, Front.kinds])
    · cases h
      exact hkinds (by simp [hf, Front.kinds])
  | doubled k =>
    simp only [piece, hf] at h
    split at h
    · split at h <;> cases h
      exact hkinds (by simp [hf, Front.kinds])
    · cases h
  | comment | blank | illegal | digit =>
    simp only [piece, hf] at h
    cases h
  | quote =>
    simp only [piece, hf] at h
    split at h <;> cases h
  | letter =>
    simp only [piece, hf] at h
    exact wordKind_ne_endOfInput _ (congrArg Prod.fst (Option.some.inj (congrArg Piece.token? (Except.ok.inj h))))

/-! ## Tokens -/

def Piece.tokens (pc : Piece) (p : Position) : List Token :=
  match pc.token? with
  | some (kind, lexeme) => [⟨kind, lexeme, p⟩]
  | none => []

theorem tokensFrom_cons {terminator : Bytes} {g : Glyph} {rest : List Glyph} {pc : Piece}
    (h : piece terminator g rest = .ok pc) (p : Position) :
    tokensFrom terminator p (g :: rest) =
      (tokensFrom terminator (p.afterAll (g :: rest.take pc.extra)) (rest.drop pc.extra)).map (pc.tokens p ++ ·) := by
  obtain ⟨token?, extra⟩ := pc
  rw [tokensFrom, h]
  dsimp only
  cases tokensFrom terminator (p.afterAll (g :: rest.take extra)) (rest.drop extra) with
  | error e => rfl
  | ok tokens =>
    cases token? with
    | none => rfl
    | some t => rfl

theorem tokensFrom_error {terminator : Bytes} {g : Glyph} {rest : List Glyph} {cause : LexCause}
    (h : piece terminator g rest = .error cause) (p : Position) :
    tokensFrom terminator p (g :: rest) = .error ⟨cause, g.char, p⟩ := by
  rw [tokensFrom, h]

@[elab_as_elim]
theorem piece_induction (terminator : Bytes) {motive : Position → List Glyph → Prop} (nil : ∀ p, motive p [])
    (stuck : ∀ p g rest cause, piece terminator g rest = .error cause → motive p (g :: rest))
    (cut : ∀ p g rest pc, piece terminator g rest = .ok pc →
      motive (p.afterAll (g :: rest.take pc.extra)) (rest.drop pc.extra) → motive p (g :: rest))
    (p : Position) (gs : List Glyph) : motive p gs := by
  induction p, gs using tokensFrom.induct terminator with
  | case1 p => exact nil p
  | case2 p g rest cause h => exact stuck p g rest cause h
  | case3 p g rest token? extra h _ _ ih => exact cut p g rest ⟨token?, extra⟩ h ih
  | case4 p g rest extra _ _ kind lexeme h ih => exact cut p g rest ⟨some (kind, lexeme), extra⟩ h ih
  | case5 p g rest extra _ _ h ih => exact cut p g rest ⟨none, extra⟩ h ih

theorem tokensFrom_shift (terminator : Bytes) (bytes lines : Int) (p : Position) (gs : List Glyph) :
    tokensFrom terminator (p.shift bytes lines) gs =
      match tokensFrom terminator p gs with
      | .ok tokens => .ok (tokens.map (Token.move (.shift bytes lines)))
      | .error e => .error (e.move (.shift bytes lines)) := by
  induction p, gs using piece_induction terminator with
  | nil p =>
    rw [tokensFrom, tokensFrom]
    rfl
  | stuck p g rest cause h =>
    rw [tokensFrom_error h, tokensFrom_error h]
    rfl
  | cut p g rest pc h ih =>
    rw [tokensFrom_cons h, tokensFrom_cons h, ← Position.shift_afterAll, ih]
    cases tokensFrom terminator (p.afterAll (g :: rest.take pc.extra)) (rest.drop pc.extra) with
    | error e => rfl
    | ok tokens =>
      obtain ⟨token?, extra⟩ := pc
      cases token? <;> rfl

theorem kind_of_mem_tokens {terminator : Bytes} {g : Glyph} {rest : List Glyph} {pc : Piece}
    (h : piece terminator g rest = .ok pc) {p : Position} {t : Token} (ht : t ∈ pc.tokens p) : t.kind ≠ .endOfInput := by
  obtain ⟨token?, extra⟩ := pc
  cases token? with
  | none => cases ht
  | some t' =>
    obtain rfl := List.mem_singleton.mp ht
    exact piece_kind h

theorem tokensFrom_eq_ok {terminator : Bytes} {p : Position} {gs : List Glyph} {tokens : List Token}
    (h : tokensFrom terminator p gs = .ok tokens) :
    ∃ ts, tokens = ts ++ [.endOfInput (p.afterAll gs)] ∧ ∀ t ∈ ts, t.kind ≠ .endOfInput := by
  induction p, gs using piece_induction terminator generalizing tokens with
  | nil p =>
    rw [tokensFrom] at h
    cases h
    exact ⟨[], rfl, by simp⟩
  | stuck p g rest cause hp =>
    rw [tokensFrom_error hp] at h
    cases h
  | cut p g rest pc hp ih =>
    rw [tokensFrom_cons hp] at h
    cases hrest : tokensFrom terminator (p.afterAll (g :: rest.take pc.extra)) (rest.drop pc.extra) with
    | error e =>
      rw [hrest] at h
      cases h
    | ok more =>
      rw [hrest] at h
      cases h
      obtain ⟨ts, rfl, hts⟩ := ih hrest
      refine ⟨pc.tokens p ++ ts, ?_, fun t ht => ?_⟩
      · rw [← Position.afterAll_append, List.cons_append, List.take_append_drop, List.append_assoc]
      · rcases List.mem_append.mp ht with ht | ht
        · exact kind_of_mem_tokens hp ht
        · exact hts t ht

theorem tokensFrom_append_newline {p : Position} {gs : List Glyph} (hgs : ∀ g ∈ gs, g.bytes ≠ []) {ts : List Token}
    {q : Position} (h : tokensFrom defaultTerminator p gs = .ok (ts ++ [.endOfInput q])) (b : List Glyph) :
    tokensFrom defaultTerminator p (gs ++ Utf8.newline :: b) =
      (tokensFrom defaultTerminator ((p.afterAll gs).after Utf8.newline) b).map (ts ++ ·) := by
  induction p, gs using piece_induction defaultTerminator generalizing ts q with
  | nil p =>
    have hblank : piece defaultTerminator Utf8.newline b = .ok ⟨none, 0⟩ := rfl
    rw [tokensFrom] at h
    obtain rfl : ts = [] := by simpa using congrArg List.length (Except.ok.inj h)
    rw [List.nil_append, tokensFrom_cons hblank]
    rfl
  | stuck p g rest cause hp =>
    rw [tokensFrom_error hp] at h
    cases h
  | cut p g rest pc hp ih =>
    have hrest : ∀ g ∈ rest, g.bytes ≠ [] := fun g' hg' => hgs g' (List.mem_cons_of_mem _ hg')
    rw [tokensFrom_cons hp] at h
    rw [List.cons_append, tokensFrom_cons (piece_append hrest hp b)]
    rcases piece_extra hp with hle | ⟨hextra, htoken⟩
    · rw [List.take_append_of_le_length hle, List.drop_append_of_le_length hle]
      cases hmore : tokensFrom defaultTerminator (p.afterAll (g :: rest.take pc.extra)) (rest.drop pc.extra) with
      | error e =>
        rw [hmore] at h
        cases h
      | ok more =>
        obtain ⟨us, rfl, -⟩ := tokensFrom_eq_ok hmore
        rw [hmore] at h
        have happend : (pc.tokens p ++ us) ++ [_] = ts ++ [_] := (List.append_assoc ..).trans (Except.ok.inj h)
        obtain rfl := List.append_inj_left' happend rfl
        rw [ih (fun g' hg' => hrest g' (List.mem_of_mem_drop hg')) hmore, ← Position.afterAll_append, List.cons_append,
          List.take_append_drop]
        cases tokensFrom defaultTerminator ((p.afterAll (g :: rest)).after Utf8.newline) b with
        | error e => rfl
        | ok tokens => exact congrArg Except.ok (List.append_assoc ..).symm
    · -- the newline ends the comment
      have hnone : pc.tokens p = [] := by rw [Piece.tokens, htoken]
      have hlength : pc.extra = (rest ++ [Utf8.newline]).length := by rw [hextra, List.length_append]; rfl
      have hseam : rest ++ Utf8.newline :: b = (rest ++ [Utf8.newline]) ++ b := by rw [List.append_assoc]; rfl
      rw [List.drop_eq_nil_of_le (by omega), tokensFrom, hnone] at h
      obtain rfl : ts = [] := by simpa using congrArg List.length (Except.ok.inj h)
      rw [hseam, hlength, List.take_left, List.drop_left, hnone, ← List.cons_append, Position.afterAll_append]
      rfl

theorem tokens_append_newline {a : Bytes} {ts : List Token} {q : Position}
    (h : tokens a defaultTerminator = .ok (ts ++ [.endOfInput q])) (b : Bytes) :
    tokens (a ++ 10 :: b) defaultTerminator =
      match tokens b defaultTerminator with
      | .ok us => .ok (ts ++ us.map (Token.move (.shift (q.offset + 1) q.line)))
      | .error e => .error (e.move (.shift (q.offset + 1) q.line)) := by
  have hterminator : terminatorOr defaultTerminator = defaultTerminator := by decide
  rw [tokens, hterminator] at h
  obtain ⟨ts', happend, -⟩ := tokensFrom_eq_ok h
  obtain ⟨rfl, hq⟩ := List.append_inj' happend rfl
  obtain rfl : q = Position.start.afterAll (Utf8.glyphs a) := congrArg Token.position (List.cons.inj hq).1
  rw [tokens, tokens, hterminator, Utf8.glyphs_append_newline,
    tokensFrom_append_newline (fun _ hg => Utf8.bytes_ne_nil_of_mem_glyphs hg) h, Position.after_newline,
    tokensFrom_shift]
  cases tokensFrom defaultTerminator .start (Utf8.glyphs b) with
  | error e => rfl
  | ok us => rfl

theorem tokens_eq_ok {source terminator : Bytes} {ts : List Token} (h : tokens source terminator = .ok ts) :
    ∃ us q, ts = us ++ [.endOfInput q] ∧ ∀ t ∈ us, t.kind ≠ .endOfInput := by
  obtain ⟨us, rfl, hus⟩ := tokensFrom_eq_ok h
  exact ⟨us, _, rfl, hus⟩

end Source

end BlockScript
