import BlockScript.Proofs.Glyphs

/-!
# Characters as they are encoded

The first character of a text is the one whose encoding the text begins with.
If the text begins with no encoding at all, its first byte is read as the
replacement character. So what the scanner takes for a character is what the
bytes say, whole or broken.
-/

namespace BlockScript

namespace Utf8

/-- The text begins with the encoding of the character; a text that begins with no encoding begins with the replacement
character. -/
def Fronts (c : Char) (text : Bytes) : Prop :=
  encode c <+: text ∨ c = Glyph.replacement ∧ text ≠ [] ∧ ∀ d, ¬ encode d <+: text

/-! ## Encodings by length -/

section

variable {c : Char}

theorem encode_one (h : c.toNat < 0x80) : encode c = [UInt8.ofNat c.toNat] := by
  simp [encode, h]

theorem encode_two (h : 0x80 ≤ c.toNat) (h' : c.toNat < 0x800) :
    encode c = [UInt8.ofNat (0xC0 + c.toNat / 64), UInt8.ofNat (0x80 + c.toNat % 64)] := by
  unfold encode
  dsimp only
  rw [if_neg (by omega), if_pos h', Nat.div_one]

theorem encode_three (h : 0x800 ≤ c.toNat) (h' : c.toNat < 0x10000) :
    encode c = [UInt8.ofNat (0xE0 + c.toNat / 4096), UInt8.ofNat (0x80 + c.toNat / 64 % 64),
      UInt8.ofNat (0x80 + c.toNat % 64)] := by
  unfold encode
  dsimp only
  rw [if_neg (by omega), if_neg (by omega), if_pos h', Nat.div_one]

theorem encode_four (h : 0x10000 ≤ c.toNat) :
    encode c = [UInt8.ofNat (0xF0 + c.toNat / 262144), UInt8.ofNat (0x80 + c.toNat / 4096 % 64),
      UInt8.ofNat (0x80 + c.toNat / 64 % 64), UInt8.ofNat (0x80 + c.toNat % 64)] := by
  unfold encode
  dsimp only
  rw [if_neg (by omega), if_neg (by omega), if_neg (by omega), Nat.div_one]

end

/-! ## From bytes to characters -/

theorem lead?_toNat {first : UInt8} {lead : Lead} (h : lead? first = some lead) :
    lead.tails = 1 ∧ first.toNat = 0xC0 + lead.bits ∨ lead.tails = 2 ∧ first.toNat = 0xE0 + lead.bits ∨
      lead.tails = 3 ∧ first.toNat = 0xF0 + lead.bits := by
  simp only [lead?, UInt8.lt_iff_toNat_lt, UInt8.le_iff_toNat_le, ← UInt8.toNat_inj] at h
  repeat' split at h
  all_goals cases h
  all_goals simp at *
  all_goals omega

theorem encode_codePoint {first : UInt8} {lead : Lead} {rest tails : Bytes} (hlead : lead? first = some lead)
    (htails : tails? lead rest = some tails) : encode (Char.ofNat (codePoint lead tails)) = first :: tails := by
  obtain ⟨-, hlength, htail, -⟩ := tails?_eq_some htails
  have hchar := toNat_ofNat (codePoint_bounds hlead htails).2
  have hfirst := lead?_toNat hlead
  simp only [isTail_iff] at htail
  rcases codePoint_range hlead htails with ⟨h, hlow, hhigh⟩ | ⟨h, hlow, hhigh, -⟩ | ⟨h, hlow, hhigh⟩
  · rw [h] at hlength hfirst
    obtain ⟨a, rfl⟩ := List.length_eq_one_iff.mp hlength
    have ha := htail a (by simp)
    have hcode : codePoint lead [a] = lead.bits * 64 + (a.toNat - 0x80) := rfl
    have hbytes : 0xC0 + codePoint lead [a] / 64 = first.toNat ∧ 0x80 + codePoint lead [a] % 64 = a.toNat := by omega
    rw [encode_two (by omega) (by omega), hchar, hbytes.1, hbytes.2, UInt8.ofNat_toNat, UInt8.ofNat_toNat]
  · rw [h] at hlength hfirst
    obtain ⟨a, b, rfl⟩ := List.length_eq_two.mp hlength
    have ha := htail a (by simp)
    have hb := htail b (by simp)
    have hcode : codePoint lead [a, b] = (lead.bits * 64 + (a.toNat - 0x80)) * 64 + (b.toNat - 0x80) := rfl
    have hbytes : 0xE0 + codePoint lead [a, b] / 4096 = first.toNat ∧
        0x80 + codePoint lead [a, b] / 64 % 64 = a.toNat ∧ 0x80 + codePoint lead [a, b] % 64 = b.toNat := by omega
    rw [encode_three (by omega) (by omega), hchar, hbytes.1, hbytes.2.1, hbytes.2.2]
    simp only [UInt8.ofNat_toNat]
  · rw [h] at hlength hfirst
    obtain ⟨a, b, c, rfl⟩ := List.length_eq_three.mp hlength
    have ha := htail a (by simp)
    have hb := htail b (by simp)
    have hc := htail c (by simp)
    have hcode : codePoint lead [a, b, c] =
        ((lead.bits * 64 + (a.toNat - 0x80)) * 64 + (b.toNat - 0x80)) * 64 + (c.toNat - 0x80) := rfl
    have hbytes : 0xF0 + codePoint lead [a, b, c] / 262144 = first.toNat ∧
        0x80 + codePoint lead [a, b, c] / 4096 % 64 = a.toNat ∧ 0x80 + codePoint lead [a, b, c] / 64 % 64 = b.toNat ∧
        0x80 + codePoint lead [a, b, c] % 64 = c.toNat := by omega
    rw [encode_four (by omega), hchar, hbytes.1, hbytes.2.1, hbytes.2.2.1, hbytes.2.2.2]
    simp only [UInt8.ofNat_toNat]

/-! ## From characters to bytes -/

section

variable (first : UInt8)

theorem lead?_two (h : 0xC2 ≤ first.toNat) (h' : first.toNat ≤ 0xDF) :
    ∃ lead, lead? first = some lead ∧ lead.tails = 1 ∧
      ∀ b : UInt8, isTail b = true → lead.low ≤ b ∧ b ≤ lead.high := by
  simp only [lead?, UInt8.lt_iff_toNat_lt, UInt8.le_iff_toNat_le, ← UInt8.toNat_inj, isTail_iff]
  rw [if_neg (by simp; omega), if_pos (by simp; omega)]
  exact ⟨_, rfl, rfl, fun b hb => hb⟩

theorem lead?_three (h : 0xE0 ≤ first.toNat) (h' : first.toNat ≤ 0xEF) :
    ∃ lead, lead? first = some lead ∧ lead.tails = 2 ∧
      ∀ b : UInt8, isTail b = true → (first.toNat = 0xE0 → 0xA0 ≤ b.toNat) → (first.toNat = 0xED → b.toNat ≤ 0x9F) →
        lead.low ≤ b ∧ b ≤ lead.high := by
  simp only [lead?, UInt8.lt_iff_toNat_lt, UInt8.le_iff_toNat_le, ← UInt8.toNat_inj, isTail_iff]
  rw [if_neg (by simp; omega), if_neg (by simp; omega)]
  by_cases hE0 : first.toNat = 0xE0
  · rw [if_pos (by simpa using hE0)]
    exact ⟨_, rfl, rfl, fun b hb hlow _ => ⟨hlow hE0, hb.2⟩⟩
  rw [if_neg (by simpa using hE0)]
  by_cases hED : first.toNat = 0xED
  · rw [if_pos (by simpa using hED)]
    exact ⟨_, rfl, rfl, fun b hb _ hhigh => ⟨hb.1, hhigh hED⟩⟩
  rw [if_neg (by simpa using hED), if_pos (by simp; omega)]
  exact ⟨_, rfl, rfl, fun b hb _ _ => hb⟩

theorem lead?_four (h : 0xF0 ≤ first.toNat) (h' : first.toNat ≤ 0xF4) :
    ∃ lead, lead? first = some lead ∧ lead.tails = 3 ∧
      ∀ b : UInt8, isTail b = true → (first.toNat = 0xF0 → 0x90 ≤ b.toNat) → (first.toNat = 0xF4 → b.toNat ≤ 0x8F) →
        lead.low ≤ b ∧ b ≤ lead.high := by
  simp only [lead?, UInt8.lt_iff_toNat_lt, UInt8.le_iff_toNat_le, ← UInt8.toNat_inj, isTail_iff]
  rw [if_neg (by simp; omega), if_neg (by simp; omega), if_neg (by simp; omega), if_neg (by simp; omega),
    if_neg (by simp; omega)]
  by_cases hF0 : first.toNat = 0xF0
  · rw [if_pos (by simpa using hF0)]
    exact ⟨_, rfl, rfl, fun b hb hlow _ => ⟨hlow hF0, hb.2⟩⟩
  rw [if_neg (by simpa using hF0)]
  by_cases hF4 : first.toNat = 0xF4
  · rw [if_neg (by simp; omega), if_pos (by simpa using hF4)]
    exact ⟨_, rfl, rfl, fun b hb _ hhigh => ⟨hb.1, hhigh hF4⟩⟩
  rw [if_pos (by simp; omega)]
  exact ⟨_, rfl, rfl, fun b hb _ _ => hb⟩

end

theorem tails?_of_prefix {lead : Lead} {tails rest : Bytes} (h : tails <+: rest) (hlength : tails.length = lead.tails)
    (htails : ∀ b ∈ tails, isTail b = true) (hhead : ∀ b ∈ tails.head?, lead.low ≤ b ∧ b ≤ lead.high) :
    tails? lead rest = some tails := by
  obtain ⟨more, rfl⟩ := h
  have htake : (tails ++ more).take lead.tails = tails := by rw [← hlength, List.take_left]
  unfold tails?
  dsimp only
  rw [htake, if_pos]
  simp only [hlength, decide_true, Bool.true_and, Bool.and_eq_true, List.all_eq_true]
  refine ⟨htails, ?_⟩
  cases tails with
  | nil => rfl
  | cons b tails => simpa using hhead b rfl

theorem isTail_ofNat (n : Nat) : isTail (UInt8.ofNat (0x80 + n % 64)) = true := by
  rw [isTail_iff, UInt8.toNat_ofNat']
  omega

theorem toNat_valid (c : Char) : c.toNat < 0xD800 ∨ 0xDFFF < c.toNat ∧ c.toNat < 0x110000 := c.valid

theorem first_of_encode {c : Char} {first : UInt8} {rest : Bytes} (h : encode c <+: first :: rest) :
    c.toNat < 0x80 ∧ first.toNat = c.toNat ∨ 0x80 ≤ c.toNat ∧ 0xC0 ≤ first.toNat := by
  have hvalid := toNat_valid c
  by_cases h1 : c.toNat < 0x80
  · rw [encode_one h1, List.cons_prefix_cons] at h
    refine .inl ⟨h1, ?_⟩
    rw [← h.1, UInt8.toNat_ofNat']
    omega
  refine .inr ⟨by omega, ?_⟩
  by_cases h2 : c.toNat < 0x800
  · rw [encode_two (by omega) h2, List.cons_prefix_cons] at h
    rw [← h.1, UInt8.toNat_ofNat']
    omega
  by_cases h3 : c.toNat < 0x10000
  · rw [encode_three (by omega) h3, List.cons_prefix_cons] at h
    rw [← h.1, UInt8.toNat_ofNat']
    omega
  · rw [encode_four (by omega), List.cons_prefix_cons] at h
    rw [← h.1, UInt8.toNat_ofNat']
    omega

theorem exists_tails_of_encode {c : Char} {first : UInt8} {rest : Bytes} (hascii : ¬ first < 0x80)
    (h : encode c <+: first :: rest) :
    ∃ lead tails, lead? first = some lead ∧ tails? lead rest = some tails ∧ codePoint lead tails = c.toNat := by
  have hvalid := toNat_valid c
  by_cases h1 : c.toNat < 0x80
  · rw [encode_one h1, List.cons_prefix_cons] at h
    rw [← h.1, UInt8.lt_iff_toNat_lt, UInt8.toNat_ofNat'] at hascii
    exact absurd (Nat.lt_of_le_of_lt (Nat.mod_le ..) h1) hascii
  by_cases h2 : c.toNat < 0x800
  · rw [encode_two (by omega) h2, List.cons_prefix_cons] at h
    have hfirst : first.toNat = 0xC0 + c.toNat / 64 := by rw [← h.1, UInt8.toNat_ofNat']; omega
    obtain ⟨lead, hlead, hlength, hadmits⟩ := lead?_two first (by omega) (by omega)
    have hbits := lead?_toNat hlead
    refine ⟨lead, _, hlead, tails?_of_prefix h.2 hlength.symm ?_ ?_, ?_⟩
    · exact List.forall_mem_singleton.mpr (isTail_ofNat _)
    · rintro b ⟨⟩
      exact hadmits _ (isTail_ofNat _)
    · simp only [codePoint, List.foldl_cons, List.foldl_nil, UInt8.toNat_ofNat']
      omega
  by_cases h3 : c.toNat < 0x10000
  · rw [encode_three (by omega) h3, List.cons_prefix_cons] at h
    have hfirst : first.toNat = 0xE0 + c.toNat / 4096 := by rw [← h.1, UInt8.toNat_ofNat']; omega
    have hsecond := @UInt8.toNat_ofNat' (0x80 + c.toNat / 64 % 64)
    obtain ⟨lead, hlead, hlength, hadmits⟩ := lead?_three first (by omega) (by omega)
    have hbits := lead?_toNat hlead
    refine ⟨lead, _, hlead, tails?_of_prefix h.2 hlength.symm ?_ ?_, ?_⟩
    · exact List.forall_mem_cons.mpr ⟨isTail_ofNat _, List.forall_mem_singleton.mpr (isTail_ofNat _)⟩
    · -- the first byte tells overlong forms and surrogates by the second
      rintro b ⟨⟩
      exact hadmits _ (isTail_ofNat _) (by omega) (by omega)
    · simp only [codePoint, List.foldl_cons, List.foldl_nil, UInt8.toNat_ofNat']
      omega
  · rw [encode_four (by omega), List.cons_prefix_cons] at h
    have hfirst : first.toNat = 0xF0 + c.toNat / 262144 := by rw [← h.1, UInt8.toNat_ofNat']; omega
    have hsecond := @UInt8.toNat_ofNat' (0x80 + c.toNat / 4096 % 64)
    obtain ⟨lead, hlead, hlength, hadmits⟩ := lead?_four first (by omega) (by omega)
    have hbits := lead?_toNat hlead
    refine ⟨lead, _, hlead, tails?_of_prefix h.2 hlength.symm ?_ ?_, ?_⟩
    · exact List.forall_mem_cons.mpr ⟨isTail_ofNat _, List.forall_mem_cons.mpr
        ⟨isTail_ofNat _, List.forall_mem_singleton.mpr (isTail_ofNat _)⟩⟩
    · rintro b ⟨⟩
      exact hadmits _ (isTail_ofNat _) (by omega) (by omega)
    · simp only [codePoint, List.foldl_cons, List.foldl_nil, UInt8.toNat_ofNat']
      omega

/-! ## The first character -/

theorem glyph_of_encode {c : Char} {first : UInt8} {rest : Bytes} (h : encode c <+: first :: rest) :
    glyph first rest = ⟨c, encode c⟩ := by
  unfold glyph
  rcases first_of_encode h with ⟨hc, hfirst⟩ | ⟨hc, hfirst⟩
  · rw [if_pos (UInt8.lt_iff_toNat_lt.mpr (by rw [hfirst]; exact hc)), encode_one hc, ← hfirst, UInt8.ofNat_toNat, hfirst,
      Char.ofNat_toNat]
  · have hascii : ¬ first < 0x80 := by
      rw [UInt8.lt_iff_toNat_lt]
      simp
      omega
    obtain ⟨lead, tails, hlead, htails, hcode⟩ := exists_tails_of_encode hascii h
    have hbytes := encode_codePoint hlead htails
    rw [hcode, Char.ofNat_toNat] at hbytes
    simp only [if_neg hascii, hlead, htails, hcode, Char.ofNat_toNat, hbytes]

theorem not_encode_prefix {first : UInt8} {rest : Bytes} (hascii : ¬ first < 0x80)
    (hnone : ∀ lead tails, lead? first = some lead → tails? lead rest ≠ some tails) (d : Char) :
    ¬ encode d <+: first :: rest := by
  intro hd
  obtain ⟨lead, tails, hlead, htails, -⟩ := exists_tails_of_encode hascii hd
  exact hnone lead tails hlead htails

theorem glyph_cases (first : UInt8) (rest : Bytes) :
    encode (glyph first rest).char = (glyph first rest).bytes ∨
      glyph first rest = .broken first ∧ ∀ d, ¬ encode d <+: first :: rest := by
  unfold glyph
  by_cases hascii : first < 0x80
  · rw [if_pos hascii]
    rw [UInt8.lt_iff_toNat_lt] at hascii
    have hchar : (Char.ofNat first.toNat).toNat = first.toNat := toNat_ofNat (.inl (by simp at hascii; omega))
    refine .inl ?_
    rw [encode_one (by rw [hchar]; exact hascii), hchar, UInt8.ofNat_toNat]
  · rw [if_neg hascii]
    cases hlead : lead? first with
    | none => exact .inr ⟨rfl, not_encode_prefix hascii (by simp [hlead])⟩
    | some lead =>
      cases htails : tails? lead rest with
      | none =>
        simp only [htails]
        refine .inr ⟨trivial, not_encode_prefix hascii fun lead' tails hlead' => ?_⟩
        rw [hlead, Option.some.injEq] at hlead'
        simp [← hlead', htails]
      | some tails =>
        simp only [htails]
        exact .inl (encode_codePoint hlead htails)

theorem fronts_glyph (first : UInt8) (rest : Bytes) : Fronts (glyph first rest).char (first :: rest) := by
  rcases glyph_cases first rest with hbytes | ⟨hbroken, hnone⟩
  · refine .inl ?_
    rw [hbytes, glyph_bytes]
    exact List.cons_prefix_cons.mpr ⟨rfl, List.take_prefix ..⟩
  · exact .inr ⟨by rw [hbroken]; rfl, List.cons_ne_nil _ _, hnone⟩

theorem fronts_of_reading {g : Glyph} {gs : List Glyph} (h : IsReading (g :: gs)) : Fronts g.char (text (g :: gs)) := by
  cases hbytes : text (g :: gs) with
  | nil => exact absurd (List.append_eq_nil_iff.mp hbytes).1 (h.bytes_ne_nil List.mem_cons_self)
  | cons first rest =>
    rw [IsReading, hbytes, glyphs_cons, List.cons.injEq] at h
    rw [← h.1]
    exact fronts_glyph first rest

/-! ## Texts of encoded characters -/

def written (c : Char) : Glyph := ⟨c, encode c⟩

theorem encode_ne_nil (c : Char) : encode c ≠ [] := by
  unfold encode
  dsimp only
  repeat' split
  all_goals exact List.cons_ne_nil _ _

theorem glyphs_encode_append (c : Char) (more : Bytes) : glyphs (encode c ++ more) = written c :: glyphs more := by
  obtain ⟨first, tails, hencode⟩ := List.exists_cons_of_ne_nil (encode_ne_nil c)
  have hglyph : glyph first (tails ++ more) = written c := by
    apply glyph_of_encode
    rw [hencode, ← List.cons_append]
    exact List.prefix_append ..
  rw [hencode, List.cons_append, glyphs_cons, hglyph, written, hencode, List.length_cons, Nat.add_sub_cancel,
    List.drop_left]

theorem glyphs_encoded_append (cs : List Char) (more : Bytes) :
    glyphs (cs.flatMap encode ++ more) = cs.map written ++ glyphs more := by
  induction cs with
  | nil => rfl
  | cons c cs ih =>
    rw [List.flatMap_cons, List.append_assoc, glyphs_encode_append, ih]
    rfl

theorem isBroken_written (c : Char) : (written c).isBroken = false := by
  by_cases hc : c = Glyph.replacement
  · subst hc
    decide
  · simp [Glyph.isBroken, written, hc]

theorem encode_of_mem_glyphs {text : Bytes} {g : Glyph} (h : g ∈ glyphs text) (hwhole : g.isBroken = false) :
    encode g.char = g.bytes := by
  induction text using glyphs.induct with
  | case1 => rw [glyphs_nil] at h; cases h
  | case2 first rest g' ih =>
    rw [glyphs_cons] at h
    rcases List.mem_cons.mp h with rfl | h
    · rcases glyph_cases first rest with hbytes | ⟨hbroken, -⟩
      · exact hbytes
      · rw [hbroken] at hwhole
        cases hwhole
    · exact ih h

theorem isValid_iff {text : Bytes} : isValid text = true ↔ ∃ cs : List Char, text = cs.flatMap encode := by
  constructor
  · intro hvalid
    refine ⟨(glyphs text).map Glyph.char, ?_⟩
    rw [List.flatMap_map]
    calc text = (glyphs text).flatMap Glyph.bytes := (text_glyphs text).symm
      _ = (glyphs text).flatMap fun g => encode g.char := by
        refine List.flatMap_congr fun g hg => (encode_of_mem_glyphs hg ?_).symm
        simpa using List.all_eq_true.mp hvalid g hg
  · rintro ⟨cs, rfl⟩
    have hglyphs := glyphs_encoded_append cs []
    rw [List.append_nil, glyphs_nil, List.append_nil] at hglyphs
    rw [isValid, hglyphs, List.all_map, List.all_eq_true]
    intro c _
    exact congrArg not (isBroken_written c)

theorem glyphs_valid_append {head : Bytes} (h : isValid head = true) (more : Bytes) :
    glyphs (head ++ more) = glyphs head ++ glyphs more := by
  obtain ⟨cs, rfl⟩ := isValid_iff.mp h
  have halone := glyphs_encoded_append cs []
  rw [List.append_nil, glyphs_nil, List.append_nil] at halone
  rw [glyphs_encoded_append, halone]

theorem isTail_head?_of_isValid {text : Bytes} (h : isValid text = true) : ∀ b ∈ text.head?, isTail b = false := by
  obtain ⟨cs, rfl⟩ := isValid_iff.mp h
  intro b hb
  cases cs with
  | nil => cases hb
  | cons c cs =>
    obtain ⟨first, tails, hencode⟩ := List.exists_cons_of_ne_nil (encode_ne_nil c)
    rw [List.flatMap_cons, hencode, List.cons_append, List.head?_cons, Option.mem_some] at hb
    subst hb
    have hprefix : encode c <+: first :: tails := ⟨[], by rw [List.append_nil, hencode]⟩
    have hfirst := first_of_encode hprefix
    rw [← Bool.not_eq_true, isTail_iff]
    omega

/-! ## Texts in front of others -/

/-- The characters of a text, counted, cover it in front of any other text: where it breaks off within a character, each
byte of its part of that character counts. -/
theorem length_le_covered (head more : Bytes) :
    head.length ≤ (text ((glyphs (head ++ more)).take (glyphs head).length)).length := by
  induction head using glyphs.induct with
  | case1 => exact Nat.zero_le _
  | case2 first rest g ih =>
    rw [List.cons_append, glyphs_cons, glyphs_cons first (rest ++ more), List.length_cons, List.length_cons,
      List.take_succ_cons, text_cons, List.length_append]
    by_cases hlength : (glyph first (rest ++ more)).bytes.length - 1 ≤ rest.length
    · have hpos := List.length_pos_iff.mpr (glyph_bytes_ne_nil first rest)
      have hsame := glyph_of_append hlength
      rw [← hsame] at hlength ⊢
      rw [List.drop_append_of_le_length hlength]
      dsimp only [g] at ih
      rw [List.length_drop] at ih
      omega
    · omega

theorem length_le_of_prefix {head : Bytes} {gs : List Glyph} (hread : IsReading gs) (h : head <+: text gs) :
    head.length ≤ (text (gs.take (glyphs head).length)).length := by
  obtain ⟨more, hmore⟩ := h
  have hcovered := length_le_covered head more
  rwa [hmore, hread] at hcovered

end Utf8

end BlockScript
