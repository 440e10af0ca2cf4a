import BlockScript.Proofs.Pieces
import BlockScript.Number.Decimal
import BlockScript.Number.Numeral

/-!
# The texts of number literals

A literal is a row of digits, so the number it stands for is neither negative
nor infinite: its sign bit is clear, and its exponent field is not the
greatest. Such a number is written with digits and at most a point, and a digit
comes first.
-/

namespace BlockScript

namespace Binary64

open Float.Model Float.Model.UnpackedFloat

theorem unpackSign_of_lt {b : BitVec 64} (h : b.toNat < 2047 * Nat.pow 2 52) :
    Sign.ofBitVec (@unpackSign .binary64 b) = .positive := by
  have hzero : @unpackSign .binary64 b = 0#1 := by
    apply BitVec.eq_of_toNat_eq
    change (b.extractLsb 63 63).toNat = 0
    rw [BitVec.extractLsb_toNat, Nat.shiftRight_eq_div_pow]
    change b.toNat < 2047 * 2 ^ 52 at h
    omega
  rw [hzero]
  rfl

theorem unpackExponent_of_lt {b : BitVec 64} (h : b.toNat < 2047 * Nat.pow 2 52) :
    (@unpackExponent .binary64 b).toNat < 2047 := by
  change (b.extractLsb 62 52).toNat < 2047
  rw [BitVec.extractLsb_toNat, Nat.shiftRight_eq_div_pow]
  change b.toNat < 2047 * 2 ^ 52 at h
  omega

theorem packComponents_lt {e : BitVec 11} (he : e.toNat < 2047) (m : BitVec 52) :
    (packComponents .binary64 .positive e m).toNat < 2047 * Nat.pow 2 52 := by
  have hsum : (packComponents .binary64 .positive e m).toNat = e.toNat * 2 ^ 52 + m.toNat := by
    change (0#1 ++ e ++ m).toNat = _
    rw [BitVec.toNat_append, BitVec.toNat_append, ← Nat.shiftLeft_add_eq_or_of_lt m.isLt]
    simp [Nat.shiftLeft_eq]
  have hm := m.isLt
  change _ < 2047 * 2 ^ 52
  omega

theorem pack_finite_lt {m : Nat} {e : Int} (hm : 0 < m)
    (he : (e + Format.binary64.exponentBias + (52 : Nat)).toNat < 2047) :
    (UnpackedFloat.pack .binary64 (.finite .positive m e hm)).toNat < 2047 * Nat.pow 2 52 := by
  delta UnpackedFloat.pack
  dsimp only
  rw [if_neg (Nat.not_le.mpr (Nat.succ_lt_succ he))]
  split
  · refine packComponents_lt ?_ _
    rw [BitVec.toNat_ofNat]
    exact Nat.lt_of_le_of_lt (Nat.mod_le ..) he
  · exact packComponents_lt (by decide) _

/-- The bits of a finite number that is not negative are packed into those of another. -/
theorem toBits_ofBits_lt {b : UInt64} (h : b.toNat < 2047 * Nat.pow 2 52) :
    (Float.ofBits b).toBits.toNat < 2047 * Nat.pow 2 52 := by
  change (UnpackedFloat.pack .binary64 (UnpackedFloat.unpack .binary64 b.toBitVec)).toNat < _
  have hsign := unpackSign_of_lt h
  have hexponent := unpackExponent_of_lt h
  have hfinite : @unpackExponent .binary64 b.toBitVec ≠ -1#11 := by
    intro heq
    rw [heq] at hexponent
    exact absurd hexponent (by decide)
  delta UnpackedFloat.unpack
  dsimp only
  rw [hsign, if_neg hfinite]
  by_cases hzero : @unpackExponent .binary64 b.toBitVec = 0#11
  · rw [if_pos hzero]
    by_cases hmantissa : @unpackMantissa .binary64 b.toBitVec = 0#52
    · rw [dif_pos hmantissa]
      exact packComponents_lt (by decide) _
    · -- a number this small has the exponent of the least one with an implicit bit
      rw [dif_neg hmantissa]
      refine pack_finite_lt _ ?_
      have hfield : (@unpackExponent .binary64 b.toBitVec).toNat = 0 := by rw [hzero]; rfl
      omega
  · rw [if_neg hzero]
    refine pack_finite_lt _ ?_
    omega

theorem ofFloat_assemble {magnitude : Nat} (h : magnitude < 2047 * Nat.pow 2 52) :
    ∃ mantissa exponent, ofFloat (assemble false magnitude) = .finite false mantissa exponent := by
  have htoNat : (UInt64.ofNat magnitude).toNat = magnitude := by
    rw [UInt64.toNat_ofNat']
    change magnitude < 2047 * 2 ^ 52 at h
    omega
  have hbits : (assemble false magnitude).toBits.toNat < 2047 * 2 ^ 52 := by
    simp only [assemble, Bool.false_eq_true, if_false, Nat.add_zero]
    exact toBits_ofBits_lt (by rwa [htoNat])
  generalize hnat : (assemble false magnitude).toBits.toNat = bits at hbits
  have hsign : decide (bits / Nat.pow 2 63 % 2 = 1) = false := by
    rw [decide_eq_false_iff_not]
    have : bits / 2 ^ 63 = 0 := Nat.div_eq_of_lt (by omega)
    exact fun h => absurd (this ▸ h : 0 % 2 = 1) (by decide)
  have hfield : ¬ bits / Nat.pow 2 52 % Nat.pow 2 11 = 2047 := by
    change ¬ bits / 2 ^ 52 % 2 ^ 11 = 2047
    omega
  simp only [ofFloat, hnat, if_neg hfield, hsign]
  split
  · exact ⟨_, _, rfl⟩
  · exact ⟨_, _, rfl⟩

theorem ofFraction?_eq_some {num den : Nat} {x : Float} (h : ofFraction? false num den = some x) :
    ∃ magnitude < 2047 * Nat.pow 2 52, x = assemble false magnitude := by
  unfold ofFraction? at h
  split at h
  · cases h
    exact ⟨0, by decide, rfl⟩
  · dsimp only at h
    split at h
    · rename_i hlt
      cases h
      exact ⟨_, hlt, rfl⟩
    · cases h

end Binary64

namespace Decimal

def IsUnsigned (text : Bytes) : Prop :=
  (∃ b ∈ text.head?, Source.isDigitByte b = true) ∧ ∀ b ∈ text, Source.isDigitByte b = true ∨ b = 0x2E

theorem digitByte_ofNat (n : Nat) : ∀ b ∈ Bytes.ofNat n, Source.isDigitByte b = true := by
  intro b hb
  unfold Bytes.ofNat ascii at hb
  rw [Nat.toString_eq_ofList_toDigits, String.toList_ofList] at hb
  obtain ⟨c, hc, rfl⟩ := List.mem_map.mp hb
  have hdigit : Source.isDigit c = true := by
    have := Nat.isDigit_of_mem_toDigits (by decide) (by decide) hc
    simpa [Char.isDigit, Source.isDigit, Char.le_def] using this
  rw [Source.isDigit_iff] at hdigit
  rw [Source.isDigitByte_iff, UInt8.toNat_ofNat']
  omega

theorem ofNat_ne_nil (n : Nat) : Bytes.ofNat n ≠ [] := by
  unfold Bytes.ofNat ascii
  rw [Nat.toString_eq_ofList_toDigits, String.toList_ofList]
  simp

theorem isUnsigned_of_digits (text rest : Bytes) (hne : text ≠ []) (htext : ∀ b ∈ text, Source.isDigitByte b = true)
    (hrest : ∀ b ∈ rest, Source.isDigitByte b = true ∨ b = 0x2E) : IsUnsigned (text ++ rest) := by
  obtain ⟨b, text, rfl⟩ := List.exists_cons_of_ne_nil hne
  refine ⟨⟨b, rfl, htext b (by simp)⟩, fun c hc => ?_⟩
  rcases List.mem_append.mp hc with hc | hc
  · exact .inl (htext c hc)
  · exact hrest c hc

theorem digitByte_zeros (n : Nat) : ∀ b ∈ zeros n, Source.isDigitByte b = true := by
  intro b hb
  rw [(List.mem_replicate.mp hb).2]
  decide

theorem isUnsigned_layout (d : Digits) : IsUnsigned d.layout := by
  have hdigits := digitByte_ofNat d.digits
  have hzeros := digitByte_zeros
  unfold Digits.layout
  dsimp only
  split
  · rw [List.append_assoc]
    refine isUnsigned_of_digits [0x30] ([0x2E] ++ (zeros (-d.point).toNat ++ Bytes.ofNat d.digits)) (by simp)
      (by simp; rfl) ?_
    grind
  · rename_i hpoint
    split
    · refine isUnsigned_of_digits _ _ (ofNat_ne_nil _) hdigits ?_
      grind
    · rw [List.append_assoc]
      have htake : (Bytes.ofNat d.digits).take d.point.toNat ≠ [] := by
        rw [ne_eq, List.take_eq_nil_iff]
        rintro (hp | hnil)
        · omega
        · exact ofNat_ne_nil _ hnil
      refine isUnsigned_of_digits _ _ htake (fun b hb => hdigits b (List.mem_of_mem_take hb)) ?_
      have : ascii "." = [0x2E] := rfl
      grind [List.mem_of_mem_drop]

theorem isUnsigned_text {x : Float} {mantissa : Nat} {exponent : Int}
    (h : Binary64.ofFloat x = .finite false mantissa exponent) : IsUnsigned (text x) := by
  unfold text
  rw [h]
  simp only [Bool.false_eq_true, if_false]
  split
  · exact ⟨⟨_, rfl, rfl⟩, fun b hb => .inl (List.mem_singleton.mp hb ▸ rfl)⟩
  · exact isUnsigned_layout _

end Decimal

namespace Numeral

variable {lexeme : Bytes}

theorem isSign_of_digit {b : UInt8} (h : Source.isDigitByte b = true) : isSign b = false := by
  simp only [isSign, Bool.or_eq_false_iff, decide_eq_false_iff_not]
  constructor <;> rintro rfl <;> exact absurd h (by decide)

theorem lower_of_digit {b : UInt8} (h : Source.isDigitByte b = true) : lower b = b := by
  have hlt : ¬ 'A'.toUInt8 ≤ b := by
    rw [UInt8.le_iff_toNat_le]
    have : 'A'.toUInt8.toNat = 0x41 := rfl
    have := (Source.isDigitByte_iff b).mp h
    omega
  simp [lower, hlt]

theorem splitSign_of_digits (hdigits : ∀ b ∈ lexeme, Source.isDigitByte b = true) :
    splitSign lexeme = (false, lexeme) := by
  cases lexeme with
  | nil => rfl
  | cons b rest => simp [splitSign, isSign_of_digit (hdigits b (by simp))]

theorem named?_of_digits (hdigits : ∀ b ∈ lexeme, Source.isDigitByte b = true) : named? lexeme = none := by
  have hmap : lexeme.map lower = lexeme := by
    rw [List.map_congr_left fun b hb => lower_of_digit (hdigits b hb), List.map_id']
  have hname : ∀ name ∈ [ascii "inf", ascii "infinity", ascii "nan"], ∃ b ∈ name, Source.isDigitByte b = false := by
    decide
  have hne : ∀ name ∈ [ascii "inf", ascii "infinity", ascii "nan"], lexeme ≠ name := by
    rintro name hmem rfl
    obtain ⟨b, hb, hletter⟩ := hname _ hmem
    rw [hdigits b hb] at hletter
    cases hletter
  simp only [List.forall_mem_cons] at hne
  simp [named?, splitSign_of_digits hdigits, hmap, hne]

theorem isUnsigned_read? {x : Float} (hdigits : ∀ b ∈ lexeme, Source.isDigitByte b = true)
    (h : read? lexeme = some x) : Decimal.IsUnsigned (Decimal.text x) := by
  unfold read? at h
  simp only [named?_of_digits hdigits, splitSign_of_digits hdigits] at h
  obtain ⟨p, -, hp⟩ := Option.bind_eq_some_iff.mp h
  have hmagnitude : ∃ magnitude < 2047 * Nat.pow 2 52, x = Binary64.assemble false magnitude := by
    unfold Parts.value? at hp
    dsimp only at hp
    split at hp
    · cases hp
      exact ⟨0, by decide, rfl⟩
    · exact Binary64.ofFraction?_eq_some hp
  obtain ⟨magnitude, hlt, rfl⟩ := hmagnitude
  obtain ⟨mantissa, exponent, hfinite⟩ := Binary64.ofFloat_assemble hlt
  exact Decimal.isUnsigned_text hfinite

end Numeral

end BlockScript
