import Mathlib.Data.List.Basic
import BlockScript.Proofs.ScanLines

/-!
# Reading bytes as characters

The reading of a text is exact: the bytes of its characters put together are
the text again, and every run of characters is the reading of its own bytes.
An ASCII character is one byte, and no other character has an ASCII byte in it.
-/

namespace BlockScript

namespace Utf8

/-! ## The bytes of a reading -/

@[simp] theorem text_nil : text [] = [] := rfl

@[simp] theorem text_cons (g : Glyph) (gs : List Glyph) : text (g :: gs) = g.bytes ++ text gs := rfl

@[simp] theorem text_append (as bs : List Glyph) : text (as ++ bs) = text as ++ text bs := List.flatMap_append ..

theorem text_take_append_text_drop (n : Nat) (gs : List Glyph) : text (gs.take n) ++ text (gs.drop n) = text gs := by
  rw [← text_append, List.take_append_drop]

theorem glyphs_nil : glyphs [] = [] := by rw [glyphs]

theorem glyphs_cons (first : UInt8) (rest : Bytes) :
    glyphs (first :: rest) = glyph first rest :: glyphs (rest.drop ((glyph first rest).bytes.length - 1)) := by
  rw [glyphs]

theorem tails?_eq_some {lead : Lead} {rest tails : Bytes} (h : tails? lead rest = some tails) :
    tails = rest.take lead.tails ∧ tails.length = lead.tails ∧ (∀ b ∈ tails, isTail b = true) ∧
      ∀ b ∈ tails.head?, lead.low ≤ b ∧ b ≤ lead.high := by
  simp only [tails?] at h
  split at h
  · rename_i hcond
    cases h
    simp only [Bool.and_eq_true, decide_eq_true_eq, List.all_eq_true] at hcond
    refine ⟨rfl, hcond.1.1, hcond.1.2, ?_⟩
    intro b hb
    simpa [Option.mem_def.mp hb] using hcond.2
  · cases h

theorem glyph_bytes (first : UInt8) (rest : Bytes) :
    (glyph first rest).bytes = first :: rest.take ((glyph first rest).bytes.length - 1) := by
  unfold glyph
  split
  · simp
  · split
    · simp [Glyph.broken]
    · split
      · simp [Glyph.broken]
      · rename_i lead _ tails htails
        obtain ⟨rfl, hlen, -⟩ := tails?_eq_some htails
        simp [hlen]

theorem text_glyphs (source : Bytes) : text (glyphs source) = source := by
  induction source using glyphs.induct with
  | case1 => rw [glyphs_nil, text_nil]
  | case2 first rest g ih =>
    rw [glyphs_cons, text_cons, ih, glyph_bytes first rest, List.cons_append, List.length_cons,
      Nat.add_sub_cancel]
    rw [List.length_take, Nat.min_eq_left (length_glyph_le first rest), List.take_append_drop]

theorem glyph_of_append {first : UInt8} {a b : Bytes} (h : (glyph first (a ++ b)).bytes.length - 1 ≤ a.length) :
    glyph first a = glyph first (a ++ b) := by
  unfold glyph at h ⊢
  by_cases hascii : first < 0x80
  · simp only [if_pos hascii]
  · simp only [if_neg hascii] at h ⊢
    cases hlead : lead? first with
    | none => rfl
    | some lead =>
      simp only [hlead] at h ⊢
      have hsame : tails? lead a = tails? lead (a ++ b) := by
        by_cases hlen : lead.tails ≤ a.length
        · unfold tails?
          rw [List.take_append_of_le_length hlen]
        · -- the sequence is not complete in `a`, and what completes it would belong to the character
          have hnone : tails? lead a = none := by
            cases htails : tails? lead a with
            | none => rfl
            | some tails =>
              obtain ⟨rfl, hlength, -⟩ := tails?_eq_some htails
              rw [List.length_take] at hlength
              omega
          cases htails : tails? lead (a ++ b) with
          | none => exact hnone
          | some tails =>
            obtain ⟨-, hlength, -⟩ := tails?_eq_some htails
            simp only [htails, List.length_cons] at h
            omega
      rw [hsame]

/-- Wherever a reading is cut, its parts are the readings of their own bytes. -/
theorem glyphs_eq_append {source : Bytes} {as bs : List Glyph} (h : glyphs source = as ++ bs) :
    source = text as ++ text bs ∧ glyphs (text as) = as ∧ glyphs (text bs) = bs := by
  induction as generalizing source with
  | nil =>
    rw [List.nil_append] at h
    have hsource : text bs = source := by rw [← h, text_glyphs]
    exact ⟨hsource.symm, glyphs_nil, by rw [hsource, h]⟩
  | cons g as ih =>
    cases source with
    | nil => rw [glyphs_nil] at h; cases h
    | cons first rest =>
      rw [glyphs_cons, List.cons_append, List.cons.injEq] at h
      obtain ⟨rfl, hrest⟩ := h
      obtain ⟨hdrop, has, hbs⟩ := ih hrest
      have hbytes := glyph_bytes first rest
      have hle := length_glyph_le first rest
      generalize hn : (glyph first rest).bytes.length - 1 = n at hbytes hdrop hle
      have hsplit : rest = (rest.take n ++ text as) ++ text bs := by
        rw [List.append_assoc, ← hdrop, List.take_append_drop]
      have hlength : (rest.take n).length = n := by rw [List.length_take]; omega
      have hglyph : glyph first (rest.take n ++ text as) = glyph first rest := by
        have happend := @glyph_of_append first (rest.take n ++ text as) (text bs)
        rw [← hsplit, hn, List.length_append, hlength] at happend
        exact happend (Nat.le_add_right ..)
      refine ⟨?_, ?_, hbs⟩
      · rw [text_cons, hbytes, List.cons_append, List.cons_append, List.cons.injEq]
        exact ⟨rfl, hsplit⟩
      · rw [text_cons, hbytes, List.cons_append, glyphs_cons, hglyph, hn, List.drop_left' hlength, has]

def IsReading (gs : List Glyph) : Prop := glyphs (text gs) = gs

theorem isReading_glyphs (source : Bytes) : IsReading (glyphs source) := by
  rw [IsReading, text_glyphs]

theorem IsReading.bytes_ne_nil {gs : List Glyph} (h : IsReading gs) {g : Glyph} (hg : g ∈ gs) : g.bytes ≠ [] := by
  rw [← h] at hg
  exact bytes_ne_nil_of_mem_glyphs hg

theorem IsReading.append {as bs : List Glyph} (h : IsReading (as ++ bs)) : IsReading as ∧ IsReading bs :=
  (glyphs_eq_append h).2

theorem IsReading.drop {gs : List Glyph} (h : IsReading gs) (n : Nat) : IsReading (gs.drop n) := by
  rw [← List.take_append_drop n gs] at h
  exact h.append.2

/-! ## ASCII characters -/

theorem lead?_eq_some {first : UInt8} {lead : Lead} (h : lead? first = some lead) :
    lead.tails = 1 ∧ 2 ≤ lead.bits ∧ lead.bits ≤ 0x1F ∨
    lead.tails = 2 ∧ (lead.bits = 0 ∧ lead.low = 0xA0 ∨ lead.bits = 0xD ∧ lead.high = 0x9F ∨
      1 ≤ lead.bits ∧ lead.bits ≤ 0xF ∧ lead.bits ≠ 0xD) ∨
    lead.tails = 3 ∧ (lead.bits = 0 ∧ lead.low = 0x90 ∨ 1 ≤ lead.bits ∧ lead.bits ≤ 3 ∨
      lead.bits = 4 ∧ lead.high = 0x8F) := by
  simp only [lead?, UInt8.lt_iff_toNat_lt, UInt8.le_iff_toNat_le, ← UInt8.toNat_inj] at h
  repeat' split at h
  all_goals cases h
  all_goals simp at *
  all_goals omega

theorem isTail_iff {b : UInt8} : isTail b = true ↔ 0x80 ≤ b.toNat ∧ b.toNat ≤ 0xBF := by
  simp [isTail, UInt8.le_iff_toNat_le]

theorem codePoint_range {first : UInt8} {lead : Lead} {rest tails : Bytes} (hlead : lead? first = some lead)
    (htails : tails? lead rest = some tails) :
    lead.tails = 1 ∧ 0x80 ≤ codePoint lead tails ∧ codePoint lead tails < 0x800 ∨
    lead.tails = 2 ∧ 0x800 ≤ codePoint lead tails ∧ codePoint lead tails < 0x10000 ∧
      (codePoint lead tails < 0xD800 ∨ 0xDFFF < codePoint lead tails) ∨
    lead.tails = 3 ∧ 0x10000 ≤ codePoint lead tails ∧ codePoint lead tails < 0x110000 := by
  obtain ⟨-, hlength, htail, hhead⟩ := tails?_eq_some htails
  simp only [isTail_iff] at htail
  simp only [UInt8.le_iff_toNat_le] at hhead
  rcases lead?_eq_some hlead with ⟨h, hbits⟩ | ⟨h, hbits⟩ | ⟨h, hbits⟩
  · rw [h] at hlength
    obtain ⟨a, rfl⟩ := List.length_eq_one_iff.mp hlength
    have ha := htail a (by simp)
    refine .inl ⟨h, ?_⟩
    simp only [codePoint, List.foldl_cons, List.foldl_nil]
    omega
  · rw [h] at hlength
    obtain ⟨a, b, rfl⟩ := List.length_eq_two.mp hlength
    have ha := htail a (by simp)
    have hb := htail b (by simp)
    have ha' := hhead a rfl
    refine .inr (.inl ⟨h, ?_⟩)
    simp only [codePoint, List.foldl_cons, List.foldl_nil]
    rcases hbits with ⟨h0, hlow⟩ | ⟨hd, hhigh⟩ | hbits
    · rw [hlow] at ha'
      simp at ha'
      omega
    · rw [hhigh] at ha'
      simp at ha'
      omega
    · omega
  · rw [h] at hlength
    obtain ⟨a, b, c, rfl⟩ := List.length_eq_three.mp hlength
    have ha := htail a (by simp)
    have hb := htail b (by simp)
    have hc := htail c (by simp)
    have ha' := hhead a rfl
    refine .inr (.inr ⟨h, ?_⟩)
    simp only [codePoint, List.foldl_cons, List.foldl_nil]
    rcases hbits with ⟨h0, hlow⟩ | hbits | ⟨h4, hhigh⟩
    · rw [hlow] at ha'
      simp at ha'
      omega
    · omega
    · rw [hhigh] at ha'
      simp at ha'
      omega

theorem codePoint_bounds {first : UInt8} {lead : Lead} {rest tails : Bytes} (hlead : lead? first = some lead)
    (htails : tails? lead rest = some tails) :
    0x80 ≤ codePoint lead tails ∧ (codePoint lead tails).isValidChar := by
  have hrange := codePoint_range hlead htails
  unfold Nat.isValidChar
  omega

end Utf8

namespace Glyph

/-- An ASCII character is one byte, and no other character has an ASCII byte in it. -/
def Regular (g : Glyph) : Prop :=
  (∃ b : UInt8, b < 0x80 ∧ g = ⟨Char.ofNat b.toNat, [b]⟩) ∨ 0x80 ≤ g.char.toNat ∧ ∀ b ∈ g.bytes, 0x80 ≤ b

theorem regular_broken {b : UInt8} (h : ¬ b < 0x80) : (broken b).Regular := by
  refine .inr ⟨show 0x80 ≤ replacement.toNat by decide, ?_⟩
  intro b' hb'
  rw [List.mem_singleton.mp hb']
  exact UInt8.not_lt.mp h

end Glyph

namespace Utf8

theorem toNat_ofNat {n : Nat} (h : n.isValidChar) : (Char.ofNat n).toNat = n := by
  unfold Char.ofNat
  rw [dif_pos h]
  rfl

theorem regular_glyph (first : UInt8) (rest : Bytes) : (glyph first rest).Regular := by
  unfold glyph
  by_cases hascii : first < 0x80
  · rw [if_pos hascii]
    exact .inl ⟨first, hascii, rfl⟩
  · rw [if_neg hascii]
    cases hlead : lead? first with
    | none => exact Glyph.regular_broken hascii
    | some lead =>
      cases htails : tails? lead rest with
      | none =>
        simp only [htails]
        exact Glyph.regular_broken hascii
      | some tails =>
        simp only [htails]
        obtain ⟨hlow, hvalid⟩ := codePoint_bounds hlead htails
        obtain ⟨-, -, htail, -⟩ := tails?_eq_some htails
        refine .inr ⟨?_, ?_⟩
        · rwa [toNat_ofNat hvalid]
        · intro b hb
          rcases List.mem_cons.mp hb with rfl | hb
          · exact UInt8.not_lt.mp hascii
          · exact UInt8.le_iff_toNat_le.mpr (isTail_iff.mp (htail b hb)).1

theorem regular_of_mem_glyphs {source : Bytes} {g : Glyph} (h : g ∈ glyphs source) : g.Regular := by
  induction source using glyphs.induct with
  | case1 => rw [glyphs_nil] at h; cases h
  | case2 first rest g' ih =>
    rw [glyphs_cons] at h
    rcases List.mem_cons.mp h with rfl | h
    · exact regular_glyph first rest
    · exact ih h

theorem IsReading.regular {gs : List Glyph} (h : IsReading gs) {g : Glyph} (hg : g ∈ gs) : g.Regular := by
  rw [← h] at hg
  exact regular_of_mem_glyphs hg

end Utf8

namespace Glyph.Regular

variable {g : Glyph} {b : UInt8}

theorem bytes_of_ascii (hg : g.Regular) (hc : g.char.toNat < 0x80) : g.bytes = [UInt8.ofNat g.char.toNat] := by
  obtain ⟨b, hb, rfl⟩ | ⟨hlarge, -⟩ := hg
  · rw [UInt8.lt_iff_toNat_lt] at hb
    rw [Utf8.toNat_ofNat (by simp [Nat.isValidChar] at hb ⊢; omega), UInt8.ofNat_toNat]
  · omega

theorem char_of_mem (hg : g.Regular) (hb : b ∈ g.bytes) (hlt : b < 0x80) : g.char = Char.ofNat b.toNat := by
  obtain ⟨b', hb', rfl⟩ | ⟨-, hlarge⟩ := hg
  · rw [List.mem_singleton.mp hb]
  · exact absurd hlt (UInt8.not_lt.mpr (hlarge b hb))

end Glyph.Regular

end BlockScript
