import BlockScript.Proofs.Encoding
import BlockScript.Proofs.Tokenizing

/-!
# A lexical error is at the first place that makes no sense

Scanning stops at the first place where no piece begins. The pieces in front of
it were found with the rest of the source in sight, but none of them depends on
it: a piece that ends in front of a place is the same if the source ends there.
So the source up to the error has tokens, and the mark behind them stands where
the error does.
-/

namespace BlockScript

namespace Source

/-! ## Sources cut short -/

variable {terminator : Bytes} {g : Glyph} {near far rest : List Glyph} {pc : Piece} {p : Position}

theorem lengthBefore_eq {gs : List Glyph} {k : Nat} (hquiet : ∀ j < k, ¬ terminator <+: Utf8.text (gs.drop j))
    (hfound : terminator <+: Utf8.text (gs.drop k)) (hlt : k < gs.length) : lengthBefore terminator gs = k := by
  obtain ⟨hquiet', hfound'⟩ := lengthBefore_spec terminator gs
  rcases Nat.lt_trichotomy (lengthBefore terminator gs) k with hless | heq | hmore
  · exact absurd (hfound' (by omega)) (hquiet _ hless)
  · exact heq
  · exact absurd hfound (hquiet' k hmore)

theorem length_glyphs_pos (hne : terminator ≠ []) : 0 < (Utf8.glyphs terminator).length := by
  cases terminator with
  | nil => exact absurd rfl hne
  | cons first rest =>
    rw [Utf8.glyphs_cons]
    exact Nat.succ_pos _

theorem length_text_take_le (n : Nat) (gs : List Glyph) : (Utf8.text (gs.take n)).length ≤ (Utf8.text gs).length := by
  rw [← Utf8.text_take_append_text_drop n gs, List.length_append]
  exact Nat.le_add_right ..

theorem commentLength_append (hne : terminator ≠ []) (hread : Utf8.IsReading (near ++ far))
    (hle : commentLength terminator (near ++ far) ≤ near.length) :
    commentLength terminator near = commentLength terminator (near ++ far) := by
  have hpos := length_glyphs_pos hne
  obtain ⟨hquiet, hfound⟩ := lengthBefore_spec terminator (near ++ far)
  unfold commentLength at hle ⊢
  congr 1
  generalize lengthBefore terminator (near ++ far) = k at *
  have hdrop : (near ++ far).drop k = near.drop k ++ far := List.drop_append_of_le_length (by omega)
  have hprefix := hfound (by rw [List.length_append]; omega)
  apply lengthBefore_eq
  · intro j hj hearly
    apply hquiet j hj
    rw [List.drop_append_of_le_length (by omega), Utf8.text_append]
    exact hearly.trans (List.prefix_append ..)
  · -- the terminator takes no more bytes than the characters that are left out for it
    have hcovered := Utf8.length_le_of_prefix (hread.drop k) hprefix
    rw [hdrop, List.take_append_of_le_length (by rw [List.length_drop]; omega)] at hcovered
    have hwithin := length_text_take_le (Utf8.glyphs terminator).length (near.drop k)
    rw [hdrop, Utf8.text_append] at hprefix
    exact List.prefix_of_prefix_length_le hprefix (List.prefix_append ..) (by omega)
  · omega

theorem takeWhile_append_of_le {q : Glyph → Bool} (hle : ((near ++ far).takeWhile q).length ≤ near.length) :
    near.takeWhile q = (near ++ far).takeWhile q := by
  rw [List.takeWhile_append] at hle ⊢
  split
  · rename_i hall
    rw [if_pos hall, List.length_append] at hle
    have hnone : far.takeWhile q = [] := List.eq_nil_of_length_eq_zero (by omega)
    rw [hnone, List.append_nil]
    exact (List.takeWhile_prefix q).eq_of_length hall
  · rfl

theorem piece_of_append (hne : terminator ≠ []) (hread : Utf8.IsReading (near ++ far))
    (h : piece terminator g (near ++ far) = .ok pc) (hle : pc.extra ≤ near.length) :
    piece terminator g near = .ok pc := by
  cases hf : front g.char with
  | symbol kind | blank =>
    simp only [piece, hf] at h ⊢
    exact h
  | comparison alone withEquals =>
    simp only [piece, hf] at h ⊢
    cases near with
    | cons u near => exact h
    | nil =>
      cases far with
      | nil => exact h
      | cons u far =>
        simp only [List.nil_append] at h
        split at h
        · cases h
          simp [Piece.verbatim] at hle
        · exact h
  | doubled kind =>
    simp only [piece, hf] at h ⊢
    cases near with
    | cons u near => exact h
    | nil =>
      cases far with
      | nil => exact h
      | cons u far =>
        simp only [List.nil_append] at h
        split at h
        · cases h
          simp [Piece.verbatim] at hle
        · cases h
  | comment =>
    simp only [piece, hf] at h ⊢
    cases h
    rw [commentLength_append hne hread hle]
  | quote =>
    simp only [piece, hf] at h ⊢
    split at h
    · cases h
    · cases h
      rw [takeWhile_append_of_le (Nat.le_of_succ_le hle), if_neg (Nat.ne_of_lt hle)]
  | digit =>
    simp only [piece, hf] at h ⊢
    cases h
    rw [takeWhile_append_of_le hle]
  | letter =>
    simp only [piece, hf] at h ⊢
    cases h
    rw [takeWhile_append_of_le hle]
  | illegal =>
    simp only [piece, hf] at h
    cases h

theorem tokensFrom_eq_error (hne : terminator ≠ []) {gs : List Glyph} (hread : Utf8.IsReading gs) {e : LexError}
    (h : tokensFrom terminator p gs = .error e) :
    ∃ done g rest ts, gs = done ++ g :: rest ∧ piece terminator g rest = .error e.cause ∧ e.char = g.char ∧
      e.position = p.afterAll done ∧ tokensFrom terminator p done = .ok ts := by
  induction p, gs using piece_induction terminator with
  | nil p =>
    rw [tokensFrom] at h
    cases h
  | stuck p g rest cause hp =>
    rw [tokensFrom_error hp] at h
    cases h
    exact ⟨[], g, rest, [.endOfInput p], rfl, hp, rfl, rfl, by rw [tokensFrom]⟩
  | cut p g rest pc hp ih =>
    rw [tokensFrom_cons hp] at h
    cases hmore : tokensFrom terminator (p.afterAll (g :: rest.take pc.extra)) (rest.drop pc.extra) with
    | ok more =>
      rw [hmore] at h
      cases h
    | error e' =>
      rw [hmore] at h
      cases h
      have hreadRest : Utf8.IsReading rest := (@Utf8.IsReading.append [g] rest hread).2
      obtain ⟨done, g', rest', ts, hdrop, hpiece, hchar, hposition, hdone⟩ := ih (hreadRest.drop pc.extra) hmore
      obtain ⟨taken, hrest, hlength⟩ : ∃ taken, rest = (taken ++ done) ++ g' :: rest' ∧ taken.length = pc.extra := by
        refine ⟨rest.take pc.extra, ?_, ?_⟩
        · rw [List.append_assoc, ← hdrop, List.take_append_drop]
        · have hlengths := congrArg List.length hdrop
          rw [List.length_drop, List.length_append, List.length_cons] at hlengths
          rw [List.length_take]
          omega
      have htake : rest.take pc.extra = taken := by rw [hrest, List.append_assoc, List.take_left' hlength]
      rw [hrest] at hp hreadRest
      have hshort : piece terminator g (taken ++ done) = .ok pc :=
        piece_of_append hne hreadRest hp (by rw [List.length_append]; omega)
      rw [htake] at hposition hdone
      refine ⟨g :: (taken ++ done), g', rest', pc.tokens p ++ ts, by rw [hrest]; rfl, hpiece, hchar, ?_, ?_⟩
      · rw [hposition, ← Position.afterAll_append]
        rfl
      · rw [tokensFrom_cons hshort, List.take_left' hlength, List.drop_left' hlength, hdone]
        rfl

/-! ## What begins no piece -/

def signs : List Char :=
  [' ', '\t', '\r', '\n', '#', '(', ')', '{', '}', '[', ']', ':', ';', ',', '.', '+', '-', '*', '/', '%', '=', '!', '>',
   '<', '|', '&', '"']

/-- Why no piece begins in front of a text, and the character that is to blame. -/
inductive Fault : LexCause → Char → Bytes → Prop
  | loneOperator {b after} : b ∈ ascii "|&" → after.head? ≠ some b →
      Fault .loneOperator (Char.ofNat b.toNat) (b :: after)
  | unclosedString {after} : 0x22 ∉ after → Fault .unclosedString '"' (0x22 :: after)
  | illegalCharacter {c text} : Utf8.Fronts c text → c ∉ signs → isDigit c = false → Letter.isLetter c = false →
      Fault .illegalCharacter c text

theorem front_of_notMem_signs {c : Char} (h : c ∉ signs) :
    front c = if isDigit c then .digit else if Letter.isLetter c then .letter else .illegal := by
  unfold front
  split
  case h_28 => rfl
  all_goals exact absurd (by decide) h

theorem front_eq_doubled {c : Char} {kind : TokenKind} (h : front c = .doubled kind) : c = '|' ∨ c = '&' := by
  by_cases hmem : c ∈ signs
  · have hall : (signs.all fun c => c = '|' || c = '&' || (front c).kinds.all (front c ≠ .doubled ·)) = true := by decide
    have hc := List.all_eq_true.mp hall c hmem
    simpa [h, Front.kinds] using hc
  · rw [front_of_notMem_signs hmem] at h
    split at h
    · cases h
    · split at h <;> cases h

theorem front_eq_illegal {c : Char} (h : front c = .illegal) :
    c ∉ signs ∧ isDigit c = false ∧ Letter.isLetter c = false := by
  have hmem : c ∉ signs := by
    intro hmem
    have hall : (signs.all fun c => front c ≠ .illegal) = true := by decide
    exact of_decide_eq_true (List.all_eq_true.mp hall c hmem) h
  rw [front_of_notMem_signs hmem] at h
  by_cases hdigit : isDigit c = true
  · simp [hdigit] at h
  · by_cases hletter : Letter.isLetter c = true
    · simp [hdigit, hletter] at h
    · exact ⟨hmem, by simpa using hdigit, by simpa using hletter⟩

theorem toNat_byteOf {c : Char} (hc : c.toNat < 0x80) : (byteOf c).toNat = c.toNat := by
  rw [byteOf, UInt8.toNat_ofNat']
  omega

theorem fault_loneOperator (hread : Utf8.IsReading (g :: rest)) (hg : g.char = '|' ∨ g.char = '&')
    (hrest : ∀ u ∈ rest.head?, u.char ≠ g.char) : Fault .loneOperator g.char (Utf8.text (g :: rest)) := by
  have hreadRest : Utf8.IsReading rest := (@Utf8.IsReading.append [g] rest hread).2
  have hascii : g.char.toNat < 0x80 := by rcases hg with hg | hg <;> rw [hg] <;> decide
  have hmem : byteOf g.char ∈ ascii "|&" := by rcases hg with hg | hg <;> rw [hg] <;> decide
  have hbytes : g.bytes = [byteOf g.char] := bytes_of_char (hread.regular List.mem_cons_self) hascii rfl
  have hchar : Char.ofNat (byteOf g.char).toNat = g.char := by rw [toNat_byteOf hascii, Char.ofNat_toNat]
  have hfault : Fault .loneOperator (Char.ofNat (byteOf g.char).toNat) (byteOf g.char :: Utf8.text rest) := by
    refine .loneOperator hmem fun hhead => ?_
    have hlt : byteOf g.char < 0x80 := by rwa [UInt8.lt_iff_toNat_lt, toNat_byteOf hascii]
    obtain ⟨u, hu, huchar⟩ := exists_head_of_byte hreadRest hhead hlt
    exact hrest u hu (huchar.trans hchar)
  rwa [hchar, ← List.singleton_append, ← hbytes] at hfault

theorem fault_unclosedString (hread : Utf8.IsReading (g :: rest)) (hg : g.char = '"')
    (hrest : ∀ u ∈ rest, u.char ≠ '"') : Fault .unclosedString g.char (Utf8.text (g :: rest)) := by
  have hbytes : g.bytes = [0x22] := bytes_of_char (hread.regular List.mem_cons_self) (by decide) hg
  rw [hg, Utf8.text_cons, hbytes]
  refine .unclosedString fun hquote => ?_
  obtain ⟨u, hu, hchar⟩ := exists_of_byte (fun u hu => hread.regular (List.mem_cons_of_mem _ hu)) hquote (by decide)
  exact hrest u hu hchar

theorem fault_of_piece (hread : Utf8.IsReading (g :: rest)) {cause : LexCause}
    (h : piece terminator g rest = .error cause) : Fault cause g.char (Utf8.text (g :: rest)) := by
  cases hf : front g.char with
  | symbol kind | comment | blank | digit | letter =>
    simp only [piece, hf] at h
    cases h
  | comparison alone withEquals =>
    simp only [piece, hf] at h
    split at h
    · split at h <;> cases h
    · cases h
  | doubled kind =>
    simp only [piece, hf] at h
    split at h
    · rename_i u rest
      split at h
      · cases h
      · rename_i hu
        cases h
        exact fault_loneOperator hread (front_eq_doubled hf) (by simpa using hu)
    · cases h
      exact fault_loneOperator hread (front_eq_doubled hf) (by simp)
  | quote =>
    simp only [piece, hf] at h
    split at h
    · rename_i hall
      cases h
      have hfront := front_describes g.char
      rw [hf] at hfront
      refine fault_unclosedString hread hfront fun u hu => ?_
      rw [← (List.takeWhile_prefix _).eq_of_length hall] at hu
      simpa using List.all_eq_true.mp List.all_takeWhile u hu
    · cases h
  | illegal =>
    simp only [piece, hf] at h
    cases h
    obtain ⟨hmem, hdigit, hletter⟩ := front_eq_illegal hf
    exact .illegalCharacter (Utf8.fronts_of_reading hread) hmem hdigit hletter

theorem terminatorOr_ne_nil (terminator : Bytes) : terminatorOr terminator ≠ [] := by
  unfold terminatorOr
  split
  · decide
  · simp_all

/-- If scanning stops with an error, the source in front of it has tokens, and the mark for their end stands just where
the error does. What stands there in the source begins no piece. -/
theorem lexical_error_is_first {source terminator : Bytes} {e : LexError} (h : tokens source terminator = .error e) :
    ∃ n : Nat, e.position.offset = n ∧ n < source.length ∧
      (∃ ts, tokens (source.take n) terminator = .ok (ts ++ [.endOfInput e.position]) ∧
        ∀ t ∈ ts, t.kind ≠ .endOfInput) ∧
      Fault e.cause e.char (source.drop n) := by
  have hread := Utf8.isReading_glyphs source
  obtain ⟨done, g, rest, ts, hsplit, hpiece, hchar, hposition, hdone⟩ :=
    tokensFrom_eq_error (terminatorOr_ne_nil terminator) hread h
  obtain ⟨hsource, hglyphs, -⟩ := Utf8.glyphs_eq_append hsplit
  have hreadRest : Utf8.IsReading (g :: rest) := by
    rw [hsplit] at hread
    exact hread.append.2
  obtain ⟨us, rfl, hus⟩ := tokensFrom_eq_ok hdone
  have htake : source.take (Utf8.text done).length = Utf8.text done := by rw [hsource, List.take_left]
  have hdrop : source.drop (Utf8.text done).length = Utf8.text (g :: rest) := by rw [hsource, List.drop_left]
  refine ⟨(Utf8.text done).length, ?_, ?_, ⟨us, ?_, hus⟩, ?_⟩
  · rw [hposition, Position.offset_afterAll]
    simp [Position.start]
  · have hbytes := List.length_pos_iff.mpr (hreadRest.bytes_ne_nil (g := g) List.mem_cons_self)
    rw [hsource, List.length_append, Utf8.text_cons, List.length_append]
    omega
  · rw [htake, tokens, hglyphs, hdone, hposition]
  · rw [hdrop, hchar]
    exact fault_of_piece hreadRest hpiece

namespace LexicalErrors

/-- A comment that takes a character more than its terminator, and a character that begins nothing. -/
def stained : Bytes := ascii "a #" ++ [0xE2, 0x82, 0xAC] ++ ascii "x@"

def torn : Bytes := [0xE2, 0x82]

theorem error_stained : tokens stained torn = .error ⟨.illegalCharacter, '@', ⟨7, 1, 6⟩⟩ ∧
    ∃ n : Nat, (7 : Int) = n ∧ n < stained.length ∧
      (∃ ts, tokens (stained.take n) torn = .ok (ts ++ [.endOfInput ⟨7, 1, 6⟩]) ∧ ∀ t ∈ ts, t.kind ≠ .endOfInput) ∧
      Fault .illegalCharacter '@' (stained.drop n) := by
  have hstained : tokens stained torn = .error ⟨.illegalCharacter, '@', ⟨7, 1, 6⟩⟩ := by decide +kernel
  exact ⟨hstained, lexical_error_is_first hstained⟩

end LexicalErrors

end Source

end BlockScript
