import Mathlib.Data.List.Induction
import BlockScript.Proofs.Positions

/-!
# Scanning piece by piece

Scanning passes a source one piece after the other. Wherever it stands, it has
taken the characters in front of that place and no others, and it has counted
them: so every position that comes of a source can be read off the source.
-/

namespace BlockScript

namespace Source

/-! ## Steps and runs -/

/-- How far scanning has come: where it stands, the characters from there on, and the tokens in front. -/
structure Progress where
  position : Position
  left : List Glyph
  found : List Token

namespace Progress

inductive Step (terminator : Bytes) : Progress → Progress → Prop
  | pass {p : Position} {g : Glyph} {rest : List Glyph} {found : List Token} {pc : Piece} :
      piece terminator g rest = .ok pc → Step terminator ⟨p, g :: rest, found⟩
        ⟨p.afterAll (g :: rest.take pc.extra), rest.drop pc.extra, found ++ pc.tokens p⟩

/-- Scanning the source comes this far. -/
inductive Reached (source terminator : Bytes) : Progress → Prop
  | start : Reached source terminator ⟨.start, Utf8.glyphs source, []⟩
  | step {s s' : Progress} : Reached source terminator s → Step terminator s s' → Reached source terminator s'

variable {source terminator : Bytes} {s s' : Progress}

theorem Step.passes (h : Step terminator s s') :
    ∃ taken, s.left = taken ++ s'.left ∧ s'.position = s.position.afterAll taken := by
  cases h with
  | @pass p g rest found pc hp =>
    exact ⟨g :: rest.take pc.extra, by rw [List.cons_append, List.take_append_drop], rfl⟩

theorem Reached.passes (h : s.Reached source terminator) :
    ∃ done, Utf8.glyphs source = done ++ s.left ∧ s.position = Position.start.afterAll done := by
  induction h with
  | start => exact ⟨[], rfl, rfl⟩
  | step _ hstep ih =>
    obtain ⟨done, hdone, hposition⟩ := ih
    obtain ⟨taken, htaken, hposition'⟩ := hstep.passes
    refine ⟨done ++ taken, ?_, ?_⟩
    · rw [hdone, htaken, List.append_assoc]
    · rw [hposition', hposition, Position.afterAll_append]

theorem Reached.left_eq (h : s.Reached source terminator) {n : Nat} (hn : s.position.offset = n) :
    s.left = Utf8.glyphs (source.drop n) := by
  obtain ⟨done, hdone, hposition⟩ := h.passes
  obtain ⟨hsource, -, hleft⟩ := Utf8.glyphs_eq_append hdone
  have hlength : (Utf8.text done).length = n := by
    rw [hposition, Position.offset_afterAll] at hn
    simp only [Position.start] at hn
    omega
  rw [hsource, List.drop_left' hlength, hleft]

theorem Step.unique {s'' : Progress} (h : Step terminator s s') (h' : Step terminator s s'') : s' = s'' := by
  cases h with
  | pass hp =>
    cases h' with
    | pass hp' =>
      rw [hp] at hp'
      cases hp'
      rfl

theorem Step.tokensFrom_eq (h : Step terminator s s') :
    (tokensFrom terminator s.position s.left).map (s.found ++ ·) =
      (tokensFrom terminator s'.position s'.left).map (s'.found ++ ·) := by
  cases h with
  | @pass p g rest found pc hp =>
    dsimp only
    rw [tokensFrom_cons hp]
    cases tokensFrom terminator (p.afterAll (g :: rest.take pc.extra)) (rest.drop pc.extra) with
    | error e => rfl
    | ok more => exact congrArg Except.ok (List.append_assoc ..).symm

theorem Reached.tokensFrom_eq (h : s.Reached source terminator) :
    tokensFrom terminator .start (Utf8.glyphs source) =
      (tokensFrom terminator s.position s.left).map (s.found ++ ·) := by
  induction h with
  | start =>
    cases tokensFrom terminator .start (Utf8.glyphs source) with
    | error e => rfl
    | ok ts => rfl
  | step _ hstep ih => rw [ih, hstep.tokensFrom_eq]

end Progress

def positions : Except LexError (List Token) → List Position
  | .ok ts => ts.map Token.position
  | .error e => [e.position]

theorem position_of_mem_tokens {pc : Piece} {p q : Position} (h : q ∈ (pc.tokens p).map Token.position) : q = p := by
  obtain ⟨token?, extra⟩ := pc
  cases token? with
  | none => cases h
  | some t => exact List.mem_singleton.mp h

theorem exists_reached_of_mem_positions {source terminator : Bytes} {s : Progress} (hs : s.Reached source terminator)
    {q : Position} (hq : q ∈ positions (tokensFrom terminator s.position s.left)) :
    ∃ s' : Progress, s'.Reached source terminator ∧ s'.position = q := by
  obtain ⟨p, gs, found⟩ := s
  dsimp only at hq
  induction p, gs using piece_induction terminator generalizing found with
  | nil p =>
    rw [tokensFrom] at hq
    exact ⟨_, hs, (List.mem_singleton.mp hq).symm⟩
  | stuck p g rest cause hp =>
    rw [tokensFrom_error hp] at hq
    exact ⟨_, hs, (List.mem_singleton.mp hq).symm⟩
  | cut p g rest pc hp ih =>
    have hnext := hs.step (.pass hp)
    rw [tokensFrom_cons hp] at hq
    cases hmore : tokensFrom terminator (p.afterAll (g :: rest.take pc.extra)) (rest.drop pc.extra) with
    | error e =>
      rw [hmore] at hq ih
      exact ih _ hnext hq
    | ok more =>
      rw [hmore] at hq ih
      rw [Except.map, positions, List.map_append] at hq
      rcases List.mem_append.mp hq with hq | hq
      · exact ⟨_, hs, (position_of_mem_tokens hq).symm⟩
      · exact ih _ hnext hq

end Source

/-! ## Counting -/

namespace Position

/-- The position is what counting in the source gives: `upper` are the characters of the lines above it, `left` those in
front of it in its own line, and `right` those behind it. -/
structure Counts (source : Bytes) (upper left right : List Glyph) (p : Position) : Prop where
  reading : Utf8.glyphs source = upper ++ left ++ right
  above : upper = [] ∨ [10] <:+ Utf8.text upper
  beside : 10 ∉ Utf8.text left
  offset : p.offset = (Utf8.text (upper ++ left)).length
  line : p.line = 1 + (source.take p.offset.toNat).count 10
  column : p.column = 1 + left.length

theorem exists_lines (gs : List Glyph) :
    ∃ upper left, gs = upper ++ left ∧ (upper = [] ∨ ∃ g ∈ upper.getLast?, g.char = '\n') ∧
      (∀ g ∈ left, g.char ≠ '\n') ∧ (start.afterAll gs).column = 1 + left.length := by
  induction gs using List.reverseRec with
  | nil => exact ⟨[], [], rfl, .inl rfl, by simp, rfl⟩
  | append_singleton gs g ih =>
    have hlast : start.afterAll (gs ++ [g]) = (start.afterAll gs).after g := afterAll_append ..
    rw [hlast, after]
    by_cases hg : g.char = '\n'
    · refine ⟨gs ++ [g], [], by simp, .inr ⟨g, by simp, hg⟩, by simp, ?_⟩
      simp [hg]
    · obtain ⟨upper, left, rfl, habove, hbeside, hcolumn⟩ := ih
      refine ⟨upper, left ++ [g], by simp, habove, ?_, ?_⟩
      · intro u hu
        rcases List.mem_append.mp hu with hu | hu
        · exact hbeside u hu
        · rwa [List.mem_singleton.mp hu]
      · simp only [if_neg hg, hcolumn, List.length_append, List.length_singleton]
        omega

theorem newline_suffix {gs : List Glyph} (hgs : ∀ g ∈ gs, g.Regular) {g : Glyph} (hlast : g ∈ gs.getLast?)
    (hg : g.char = '\n') : [10] <:+ Utf8.text gs := by
  obtain ⟨front, rfl⟩ := List.getLast?_eq_some_iff.mp hlast
  have hbytes : g.bytes = [10] := Source.bytes_of_char (hgs g (by simp)) (by decide) hg
  rw [Utf8.text_append, Utf8.text_cons, hbytes]
  exact List.suffix_append ..

theorem newline_notMem {gs : List Glyph} (hgs : ∀ g ∈ gs, g.Regular) (hnone : ∀ g ∈ gs, g.char ≠ '\n') :
    10 ∉ Utf8.text gs := by
  intro hmem
  obtain ⟨g, hg, hchar⟩ := Source.exists_of_byte hgs hmem (by decide)
  exact hnone g hg hchar

theorem counts_afterAll {source : Bytes} {done right : List Glyph} (h : Utf8.glyphs source = done ++ right) :
    ∃ upper left, (start.afterAll done).Counts source upper left right := by
  have hregular : ∀ g ∈ done, g.Regular := by
    intro g hg
    exact Utf8.regular_of_mem_glyphs (by rw [h]; exact List.mem_append_left _ hg)
  have hoffset : (start.afterAll done).offset = (Utf8.text done).length := by
    rw [offset_afterAll]
    exact Int.zero_add _
  have htake : source.take (Utf8.text done).length = Utf8.text done := by
    rw [(Utf8.glyphs_eq_append h).1, List.take_left]
  obtain ⟨upper, left, rfl, habove, hbeside, hcolumn⟩ := exists_lines done
  refine ⟨upper, left, h, ?_, ?_, hoffset, ?_, hcolumn⟩
  · refine habove.imp_right fun ⟨g, hlast, hg⟩ => ?_
    exact newline_suffix (fun u hu => hregular u (List.mem_append_left _ hu)) hlast hg
  · exact newline_notMem (fun u hu => hregular u (List.mem_append_right _ hu)) hbeside
  · rw [hoffset, Int.toNat_natCast, htake, line_afterAll _ hregular]
    rfl

end Position

namespace Source

/-- Whatever the bytes of a source and the terminator of its comments are: the position of each token, or that of the
error, stands between two characters of the source, and its line and column are what counting in the source gives. -/
theorem positions_count_the_source {source terminator : Bytes} {p : Position}
    (h : p ∈ positions (tokens source terminator)) :
    ∃ upper left right, p.Counts source upper left right := by
  obtain ⟨s, hs, rfl⟩ := exists_reached_of_mem_positions Progress.Reached.start h
  obtain ⟨done, hdone, hposition⟩ := hs.passes
  obtain ⟨upper, left, hcounts⟩ := Position.counts_afterAll hdone
  rw [hposition]
  exact ⟨upper, left, s.left, hcounts⟩

namespace Progress

/-- A string over two lines and a comment over three, with broken characters in both. -/
def winding : Bytes :=
  ascii "\"a\n" ++ [0xC3, 0xA9, 0xFF] ++ ascii "\";#" ++ [0xE2, 0x82] ++ ascii "\n" ++ [0xC3, 0xA9] ++ ascii "\n  b"

def turn : Bytes := [0xC3, 0xA9] ++ ascii "\n"

theorem positions_winding :
    tokens winding turn = .ok [⟨.string, ascii "a\n" ++ [0xC3, 0xA9, 0xFF], ⟨0, 1, 1⟩⟩,
      ⟨.semicolon, ascii ";", ⟨7, 2, 4⟩⟩, ⟨.identifier, ascii "b", ⟨17, 4, 3⟩⟩, .endOfInput ⟨18, 4, 4⟩] ∧
    (∃ upper left right, Position.Counts winding upper left right ⟨7, 2, 4⟩) ∧
    (∃ upper left right, Position.Counts winding upper left right ⟨17, 4, 3⟩) ∧
    tokens (winding ++ ascii "|") turn = .error ⟨.loneOperator, '|', ⟨18, 4, 4⟩⟩ ∧
    (∃ upper left right, Position.Counts (winding ++ ascii "|") upper left right ⟨18, 4, 4⟩) := by
  have htokens : tokens winding turn = .ok [⟨.string, ascii "a\n" ++ [0xC3, 0xA9, 0xFF], ⟨0, 1, 1⟩⟩,
      ⟨.semicolon, ascii ";", ⟨7, 2, 4⟩⟩, ⟨.identifier, ascii "b", ⟨17, 4, 3⟩⟩, .endOfInput ⟨18, 4, 4⟩] := by
    decide +kernel
  have herror : tokens (winding ++ ascii "|") turn = .error ⟨.loneOperator, '|', ⟨18, 4, 4⟩⟩ := by decide +kernel
  refine ⟨htokens, ?_, ?_, herror, ?_⟩
  · refine @positions_count_the_source _ turn _ ?_
    rw [htokens]
    simp [positions]
  · refine @positions_count_the_source _ turn _ ?_
    rw [htokens]
    simp [positions]
  · refine @positions_count_the_source _ turn _ ?_
    rw [herror]
    simp [positions]

end Progress

end Source

end BlockScript
