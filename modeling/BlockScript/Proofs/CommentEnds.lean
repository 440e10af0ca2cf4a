import Mathlib.Order.Bounds.Defs
import BlockScript.Proofs.LexicalErrors
import BlockScript.Proofs.Progress

/-!
# A comment ends right behind its terminator

The end of a comment is looked for character by character, and as many
characters are passed as the terminator has. Both come to the same as looking
for its bytes: a terminator that is valid text begins with no byte that could
belong to a character in front of it, and it is read the same wherever it
stands. So the broken characters of a comment neither hide nor stretch its end.
-/

namespace BlockScript

/-- `stop` is right behind the first place from `start` on where `mark` stands in the text, or the end of the text if it
stands nowhere there. -/
def Bytes.StopsBehind (mark text : Bytes) (start stop : Nat) : Prop :=
  (∃ i, IsLeast {i | start ≤ i ∧ mark <+: text.drop i} i ∧ stop = i + mark.length) ∨
    (∀ i, start ≤ i → ¬ mark <+: text.drop i) ∧ stop = text.length

theorem Bytes.StopsBehind.of_drop {mark text : Bytes} {n stop : Nat} (hn : n ≤ text.length)
    (h : Bytes.StopsBehind mark (text.drop n) 0 stop) : Bytes.StopsBehind mark text n (n + stop) := by
  rcases h with ⟨i, ⟨⟨-, hi⟩, hleast⟩, rfl⟩ | ⟨hnone, rfl⟩
  · refine .inl ⟨n + i, ⟨⟨Nat.le_add_right .., by rwa [← List.drop_drop]⟩, ?_⟩, by omega⟩
    rintro j ⟨hnj, hj⟩
    obtain ⟨m, rfl⟩ := Nat.exists_eq_add_of_le hnj
    rw [← List.drop_drop] at hj
    exact Nat.add_le_add_left (hleast ⟨Nat.zero_le m, hj⟩) n
  · refine .inr ⟨?_, by rw [List.length_drop]; omega⟩
    intro j hnj hj
    obtain ⟨m, rfl⟩ := Nat.exists_eq_add_of_le hnj
    rw [← List.drop_drop] at hj
    exact hnone m (Nat.zero_le m) hj

namespace Source

section

variable {terminator : Bytes} {rest : List Glyph}

theorem exists_boundary (hne : terminator ≠ []) (hvalid : Utf8.isValid terminator = true)
    (hread : Utf8.IsReading rest) {j : Nat} (h : terminator <+: (Utf8.text rest).drop j) :
    ∃ k < rest.length, j = (Utf8.text (rest.take k)).length ∧ terminator <+: Utf8.text (rest.drop k) := by
  have hback : (Utf8.text rest).drop j ≠ [] := fun hnil => hne (List.prefix_nil.mp (hnil ▸ h))
  have hhead : ∀ c ∈ ((Utf8.text rest).drop j).head?, Utf8.isTail c = false := by
    obtain ⟨more, hmore⟩ := h
    rw [← hmore, List.head?_append_of_ne_nil _ hne]
    exact Utf8.isTail_head?_of_isValid hvalid
  -- no character reaches across a byte that completes nothing
  have hsplit := Utf8.glyphs_append ((Utf8.text rest).take j) hhead
  rw [List.take_append_drop, hread] at hsplit
  have htake := (congrArg (List.take _) hsplit).trans List.take_left
  have hdrop := (congrArg (List.drop _) hsplit).trans List.drop_left
  refine ⟨(Utf8.glyphs ((Utf8.text rest).take j)).length, ?_, ?_, ?_⟩
  · have hlength := congrArg List.length hsplit
    have hpos := length_glyphs_pos hback
    rw [List.length_append] at hlength
    omega
  · have hlt := List.length_pos_iff.mpr hback
    rw [List.length_drop] at hlt
    rw [htake, Utf8.text_glyphs, List.length_take]
    omega
  · rwa [hdrop, Utf8.text_glyphs]

theorem text_take_of_prefix (hvalid : Utf8.isValid terminator = true) (hread : Utf8.IsReading rest)
    (h : terminator <+: Utf8.text rest) : Utf8.text (rest.take (Utf8.glyphs terminator).length) = terminator := by
  obtain ⟨more, hmore⟩ := h
  have hsplit := Utf8.glyphs_valid_append hvalid more
  rw [hmore, hread] at hsplit
  rw [hsplit, List.take_left, Utf8.text_glyphs]

theorem length_text_take_mono (rest : List Glyph) {k l : Nat} (h : k ≤ l) :
    (Utf8.text (rest.take k)).length ≤ (Utf8.text (rest.take l)).length := by
  have hle := length_text_take_le k (rest.take l)
  rwa [List.take_take, Nat.min_eq_left h] at hle

theorem text_drop (rest : List Glyph) (k : Nat) :
    Utf8.text (rest.drop k) = (Utf8.text rest).drop (Utf8.text (rest.take k)).length := by
  have hdrop := congrArg (List.drop (Utf8.text (rest.take k)).length) (Utf8.text_take_append_text_drop k rest)
  rwa [List.drop_left] at hdrop

theorem comment_stopsBehind (hne : terminator ≠ []) (hvalid : Utf8.isValid terminator = true)
    (hread : Utf8.IsReading rest) :
    Bytes.StopsBehind terminator (Utf8.text rest) 0 (Utf8.text (rest.take (commentLength terminator rest))).length := by
  obtain ⟨hquiet, hfound⟩ := lengthBefore_spec terminator rest
  have hle := lengthBefore_le terminator rest
  unfold commentLength
  generalize lengthBefore terminator rest = k at *
  have hlater : ∀ j, terminator <+: (Utf8.text rest).drop j →
      ∃ l, k ≤ l ∧ l < rest.length ∧ j = (Utf8.text (rest.take l)).length := by
    intro j hj
    obtain ⟨l, hl, hlength, hprefix⟩ := exists_boundary hne hvalid hread hj
    exact ⟨l, Nat.le_of_not_lt fun hlt => hquiet l hlt hprefix, hl, hlength⟩
  rcases Nat.lt_or_eq_of_le hle with hlt | heq
  · refine .inl ⟨(Utf8.text (rest.take k)).length, ⟨⟨Nat.zero_le _, ?_⟩, ?_⟩, ?_⟩
    · rw [← text_drop]
      exact hfound hlt
    · rintro j ⟨-, hj⟩
      obtain ⟨l, hkl, -, rfl⟩ := hlater j hj
      exact length_text_take_mono rest hkl
    · rw [List.take_add, Utf8.text_append, List.length_append,
        text_take_of_prefix hvalid (hread.drop k) (hfound hlt)]
  · refine .inr ⟨?_, ?_⟩
    · intro j _ hj
      obtain ⟨l, hkl, hl, -⟩ := hlater j hj
      omega
    · rw [List.take_of_length_le (by omega)]

end

theorem Progress.Step.comment (terminator : Bytes) (p : Position) {g : Glyph} (hg : g.char = '#') (rest : List Glyph)
    (found : List Token) :
    Progress.Step terminator ⟨p, g :: rest, found⟩
      ⟨p.afterAll (g :: rest.take (commentLength terminator rest)), rest.drop (commentLength terminator rest), found⟩ := by
  have hpiece : piece terminator g rest = .ok ⟨none, commentLength terminator rest⟩ := by
    rw [piece, hg]
    rfl
  have hstep := @Progress.Step.pass terminator p g rest found _ hpiece
  rwa [Piece.tokens, List.append_nil] at hstep

theorem exists_number_sign {gs : List Glyph} (hread : Utf8.IsReading gs) (h : (Utf8.text gs).head? = some 0x23) :
    ∃ g rest, gs = g :: rest ∧ g.char = '#' ∧ g.bytes = [0x23] := by
  obtain ⟨g, hg, hchar⟩ := exists_head_of_byte hread h (by decide)
  obtain ⟨rest, rfl⟩ := List.head?_eq_some_iff.mp hg
  exact ⟨g, rest, rfl, hchar, bytes_of_char (hread.regular List.mem_cons_self) (by decide) hchar⟩

/-- If scanning comes to a number sign, it goes on right behind the first place behind it where the terminator stands, or
at the end of the source if the terminator stands nowhere behind it. Nothing in between is a token. -/
theorem comment_ends_behind_terminator {source terminator : Bytes} (hne : terminator ≠ [])
    (hvalid : Utf8.isValid terminator = true) {s : Progress} (hs : s.Reached source terminator) {o : Nat}
    (ho : s.position.offset = o) (hsign : source[o]? = some 0x23) :
    ∃ (stop : Nat) (q : Position), Bytes.StopsBehind terminator source (o + 1) stop ∧ q.offset = stop ∧
      (∀ s', Progress.Step terminator s s' ↔ s' = ⟨q, Utf8.glyphs (source.drop stop), s.found⟩) ∧
      tokens source terminator =
        (tokensFrom terminator q (Utf8.glyphs (source.drop stop))).map (s.found ++ ·) := by
  have hleft := hs.left_eq ho
  obtain ⟨p, gs, found⟩ := s
  dsimp only at hleft ho ⊢
  have hread : Utf8.IsReading gs := by
    rw [hleft]
    exact Utf8.isReading_glyphs _
  have htext : Utf8.text gs = source.drop o := by rw [hleft, Utf8.text_glyphs]
  obtain ⟨g, rest, rfl, hchar, hbytes⟩ := exists_number_sign hread (by rw [htext, List.head?_drop, hsign])
  have hrest : Utf8.text rest = source.drop (o + 1) := by
    rw [Utf8.text_cons, hbytes] at htext
    rw [← List.drop_drop, ← htext]
    rfl
  have hstep := Progress.Step.comment terminator p hchar rest found
  have hnext := hs.step hstep
  have hoffset : (p.afterAll (g :: rest.take (commentLength terminator rest))).offset =
      (o + 1 + (Utf8.text (rest.take (commentLength terminator rest))).length : Nat) := by
    rw [Position.offset_afterAll, ho, Utf8.text_cons, hbytes, List.length_append, List.length_singleton]
    omega
  have hstops := comment_stopsBehind hne hvalid (@Utf8.IsReading.append [g] rest hread).2
  rw [hrest] at hstops
  obtain ⟨hlt, -⟩ := List.getElem?_eq_some_iff.mp hsign
  refine ⟨_, _, hstops.of_drop hlt, hoffset, fun s' => ⟨fun h => ?_, ?_⟩, ?_⟩
  · rw [← hnext.left_eq hoffset]
    exact h.unique hstep
  · rintro rfl
    rw [← hnext.left_eq hoffset]
    exact hstep
  · have hterminator : terminatorOr terminator = terminator := by
      rw [terminatorOr, if_neg (by simpa using hne)]
    rw [tokens, hterminator, hnext.tokensFrom_eq, ← hnext.left_eq hoffset]

namespace CommentEnds

/-- A comment with two bytes out of a character right in front of the first of three letters. -/
def frayed : Bytes := ascii "x#" ++ [0xE2, 0x82, 0xC3, 0xA9, 0xC3, 0xA9, 0xC3, 0xA9] ++ ascii "=1"

def twice : Bytes := [0xC3, 0xA9, 0xC3, 0xA9]

def opened : Progress := ⟨⟨1, 1, 2⟩, Utf8.glyphs (frayed.drop 1), [⟨.identifier, ascii "x", .start⟩]⟩

theorem reached_opened : opened.Reached frayed twice := by
  have hglyphs : Utf8.glyphs frayed = ⟨'x', [0x78]⟩ :: Utf8.glyphs (frayed.drop 1) := by decide +kernel
  have hword : piece twice ⟨'x', [0x78]⟩ (Utf8.glyphs (frayed.drop 1)) = .ok ⟨some (.identifier, ascii "x"), 0⟩ := by
    decide +kernel
  have hstart : Progress.Reached frayed twice ⟨.start, ⟨'x', [0x78]⟩ :: Utf8.glyphs (frayed.drop 1), []⟩ := by
    rw [← hglyphs]
    exact .start
  exact hstart.step (.pass hword)

theorem comment_frayed :
    opened.Reached frayed twice ∧ frayed[1]? = some 0x23 ∧
    (∃ (stop : Nat) (q : Position), Bytes.StopsBehind twice frayed (1 + 1) stop ∧ q.offset = stop ∧
      (∀ s', Progress.Step twice opened s' ↔ s' = ⟨q, Utf8.glyphs (frayed.drop stop), opened.found⟩) ∧
      tokens frayed twice = (tokensFrom twice q (Utf8.glyphs (frayed.drop stop))).map (opened.found ++ ·)) ∧
    tokens frayed twice = .ok [⟨.identifier, ascii "x", ⟨0, 1, 1⟩⟩, ⟨.identifier, [0xC3, 0xA9], ⟨8, 1, 7⟩⟩,
      ⟨.equals, ascii "=", ⟨10, 1, 8⟩⟩, ⟨.number, ascii "1", ⟨11, 1, 9⟩⟩, .endOfInput ⟨12, 1, 10⟩] := by
  have hvalid : Utf8.isValid twice = true := by decide +kernel
  refine ⟨reached_opened, rfl, ?_, by decide +kernel⟩
  exact comment_ends_behind_terminator (by decide) hvalid reached_opened rfl rfl

end CommentEnds

end Source

end BlockScript
