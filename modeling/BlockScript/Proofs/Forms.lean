import BlockScript.Proofs.Pieces
import BlockScript.Syntax.Render

/-!
# Reading nested parentheses

The texts of trees are words, quoted texts and lists of such forms between
parentheses, with one blank between neighbours. A quoted text may hold blanks
and parentheses, since it ends at the next quote, and a word ends at the first
byte that is not plain. So where one form ends and the next begins can be told
from the bytes alone, and different forms have different texts.
-/

namespace BlockScript

inductive Form where
  | word (text : Bytes)
  | quoted (text : Bytes)
  | list (parts : List Form)

namespace Form

mutual

def text : Form → Bytes
  | word t => t
  | quoted t => ascii "\"" ++ t ++ ascii "\""
  | list parts => parenthesized (texts parts)

def texts : List Form → List Bytes
  | [] => []
  | f :: fs => f.text :: texts fs

end

@[simp] theorem text_word (t : Bytes) : (word t).text = t := rfl

@[simp] theorem text_list (fs : List Form) : (list fs).text = parenthesized (texts fs) := rfl

@[simp] theorem texts_nil : texts [] = [] := rfl

@[simp] theorem texts_cons (f : Form) (fs : List Form) : texts (f :: fs) = f.text :: texts fs := rfl

@[simp] theorem texts_append (fs gs : List Form) : texts (fs ++ gs) = texts fs ++ texts gs := by
  induction fs with
  | nil => rfl
  | cons f fs ih => simp [ih]

def isPlain (b : UInt8) : Bool := !(ascii " ()\"").contains b

def isBare (t : Bytes) : Bool := !t.isEmpty && t.all isPlain

theorem isBare_iff {t : Bytes} : isBare t = true ↔ t ≠ [] ∧ ∀ b ∈ t, isPlain b = true := by
  simp [isBare]

mutual

def Readable : Form → Prop
  | word t => isBare t = true
  | quoted t => 0x22 ∉ t
  | list parts => AllReadable parts

def AllReadable : List Form → Prop
  | [] => True
  | f :: fs => f.Readable ∧ AllReadable fs

end

theorem AllReadable.append {fs gs : List Form} (hf : AllReadable fs) (hg : AllReadable gs) : AllReadable (fs ++ gs) := by
  induction fs with
  | nil => exact hg
  | cons f fs ih => exact ⟨hf.1, ih hf.2⟩

/-! ## The rest of a list -/

def remainder : List Form → Bytes
  | [] => ascii ")"
  | f :: fs => ascii " " ++ f.text ++ remainder fs

theorem text_list_nil : (list []).text = ascii "(" ++ ascii ")" := rfl

theorem text_list_cons (f : Form) (fs : List Form) : (list (f :: fs)).text = ascii "(" ++ (f.text ++ remainder fs) := by
  have hjoin (t : Bytes) : Bytes.join (ascii " ") (t :: texts fs) ++ ascii ")" = t ++ remainder fs := by
    induction fs generalizing t with
    | nil => simp [Bytes.join, remainder]
    | cons g fs ih =>
      rw [remainder, texts_cons, List.append_assoc, ← ih]
      simp [Bytes.join]
  rw [text_list, texts_cons, parenthesized, List.append_assoc, hjoin]

theorem isPlain_remainder (fs : List Form) (rest : Bytes) : ∀ b ∈ (remainder fs ++ rest).head?, isPlain b = false := by
  cases fs with
  | nil => rintro b ⟨⟩; rfl
  | cons f fs => rintro b ⟨⟩; rfl

/-! ## First bytes -/

def Leads : Form → UInt8 → Prop
  | word _, b => isPlain b = true
  | quoted _, b => b = 0x22
  | list _, b => b = 0x28

theorem exists_leads {f : Form} (h : f.Readable) : ∃ b t, f.text = b :: t ∧ f.Leads b := by
  cases f with
  | word t =>
    obtain ⟨hne, hplain⟩ := isBare_iff.mp h
    obtain ⟨b, t, rfl⟩ := List.exists_cons_of_ne_nil hne
    exact ⟨b, t, rfl, hplain b (by simp)⟩
  | quoted t => exact ⟨0x22, _, rfl, rfl⟩
  | list fs => exact ⟨0x28, _, rfl, rfl⟩

theorem leads_of_append_eq {f g : Form} {r s : Bytes} (hf : f.Readable) (hg : g.Readable)
    (h : f.text ++ r = g.text ++ s) : ∃ b, f.Leads b ∧ g.Leads b := by
  obtain ⟨b, t, ht, hb⟩ := exists_leads hf
  obtain ⟨c, u, hu, hc⟩ := exists_leads hg
  rw [ht, hu] at h
  exact ⟨b, hb, (List.cons.inj h).1 ▸ hc⟩

theorem close_ne_text {f : Form} (hf : f.Readable) (r s : Bytes) : ascii ")" ++ r ≠ f.text ++ s := by
  obtain ⟨b, t, ht, hb⟩ := exists_leads hf
  intro h
  rw [ht] at h
  obtain rfl : 0x29 = b := (List.cons.inj h).1
  cases f <;> cases hb

theorem eq_of_append_eq {p : UInt8 → Bool} {a b r s : Bytes} (ha : ∀ x ∈ a, p x = true) (hb : ∀ x ∈ b, p x = true)
    (hr : ∀ x ∈ r.head?, p x = false) (hs : ∀ x ∈ s.head?, p x = false) (h : a ++ r = b ++ s) : a = b ∧ r = s := by
  have hab : a = b := by
    rw [← Source.takeWhile_append_of_head? ha hr, h, Source.takeWhile_append_of_head? hb hs]
  exact ⟨hab, List.append_cancel_left (hab ▸ h)⟩

mutual

theorem text_append_inj {f g : Form} {r s : Bytes} (hf : f.Readable) (hg : g.Readable)
    (hr : ∀ b ∈ r.head?, isPlain b = false) (hs : ∀ b ∈ s.head?, isPlain b = false) (h : f.text ++ r = g.text ++ s) :
    f = g ∧ r = s := by
  obtain ⟨b, hb, hb'⟩ := leads_of_append_eq hf hg h
  match f, g with
  | word t, word u =>
    obtain ⟨rfl, rfl⟩ := eq_of_append_eq (isBare_iff.mp hf).2 (isBare_iff.mp hg).2 hr hs h
    exact ⟨rfl, rfl⟩
  | quoted t, quoted u =>
    simp only [text, List.append_assoc, List.append_cancel_left_eq] at h
    have hin {t : Bytes} (ht : 0x22 ∉ t) : ∀ x ∈ t, (x != 0x22) = true := by grind
    obtain ⟨rfl, hrest⟩ := eq_of_append_eq (hin hf) (hin hg) (by rintro _ ⟨⟩; rfl) (by rintro _ ⟨⟩; rfl) h
    exact ⟨rfl, List.append_cancel_left hrest⟩
  | list [], list [] => exact ⟨rfl, List.append_cancel_left h⟩
  | list [], list (g :: gs) =>
    simp only [text_list_nil, text_list_cons, List.append_assoc, List.append_cancel_left_eq] at h
    exact absurd h (close_ne_text hg.1 _ _)
  | list (f :: fs), list [] =>
    simp only [text_list_nil, text_list_cons, List.append_assoc, List.append_cancel_left_eq] at h
    exact absurd h.symm (close_ne_text hf.1 _ _)
  | list (f :: fs), list (g :: gs) =>
    simp only [text_list_cons, List.append_assoc, List.append_cancel_left_eq] at h
    obtain ⟨rfl, hrest⟩ := text_append_inj hf.1 hg.1 (isPlain_remainder fs r) (isPlain_remainder gs s) h
    obtain ⟨rfl, rfl⟩ := remainder_append_inj hf.2 hg.2 hrest
    exact ⟨rfl, rfl⟩
  -- forms of different kinds begin with different bytes
  | word _, quoted _ | word _, list _ => cases hb'; cases hb
  | quoted _, word _ | quoted _, list _ | list _, word _ | list _, quoted _ => cases hb; cases hb'

theorem remainder_append_inj {fs gs : List Form} {r s : Bytes} (hf : AllReadable fs) (hg : AllReadable gs)
    (h : remainder fs ++ r = remainder gs ++ s) : fs = gs ∧ r = s := by
  match fs, gs with
  | [], [] => exact ⟨rfl, List.append_cancel_left h⟩
  | [], g :: gs => cases h
  | f :: fs, [] => cases h
  | f :: fs, g :: gs =>
    simp only [remainder, List.append_assoc, List.append_cancel_left_eq] at h
    obtain ⟨rfl, hrest⟩ := text_append_inj hf.1 hg.1 (isPlain_remainder fs r) (isPlain_remainder gs s) h
    obtain ⟨rfl, rfl⟩ := remainder_append_inj hf.2 hg.2 hrest
    exact ⟨rfl, rfl⟩

end

theorem text_injective {f g : Form} (hf : f.Readable) (hg : g.Readable) (h : f.text = g.text) : f = g :=
  (text_append_inj (r := []) (s := []) hf hg (by simp) (by simp) (by simpa using h)).1

end Form

end BlockScript
