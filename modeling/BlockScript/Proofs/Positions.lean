import BlockScript.Proofs.Tokenizing

/-!
# Positions count what is in front of them

The scanner reaches a position by passing characters one by one. Its offset
counts their bytes, and its line the newlines among these bytes. So where a
source stands behind another one with a newline between them is known from the
bytes of the first alone, and the tokens of both together are those of each.
-/

namespace BlockScript

namespace Position

theorem count_newline {g : Glyph} (hg : g.Regular) : g.bytes.count 10 = if g.char = '\n' then 1 else 0 := by
  by_cases h : g.char = '\n'
  · have hbytes : g.bytes = [10] := by
      rw [hg.bytes_of_ascii (by rw [h]; decide), h]
      rfl
    simp [h, hbytes]
  · have hnot : 10 ∉ g.bytes := fun hmem => h (hg.char_of_mem hmem (by decide))
    simp [h, List.count_eq_zero.mpr hnot]

theorem line_after (p : Position) {g : Glyph} (hg : g.Regular) : (p.after g).line = p.line + g.bytes.count 10 := by
  rw [count_newline hg]
  unfold after
  by_cases h : g.char = '\n' <;> simp [h]

theorem line_afterAll (p : Position) {gs : List Glyph} (hgs : ∀ g ∈ gs, g.Regular) :
    (p.afterAll gs).line = p.line + (Utf8.text gs).count 10 := by
  induction gs generalizing p with
  | nil => simp [afterAll]
  | cons g gs ih =>
    change ((p.after g).afterAll gs).line = _
    rw [ih _ fun g' hg' => hgs g' (List.mem_cons_of_mem _ hg'), line_after p (hgs g List.mem_cons_self),
      Utf8.text_cons, List.count_append]
    omega

theorem offset_end (source : Bytes) : (start.afterAll (Utf8.glyphs source)).offset = source.length := by
  rw [offset_afterAll, Utf8.text_glyphs]
  simp [start]

theorem line_end (source : Bytes) : (start.afterAll (Utf8.glyphs source)).line = source.count 10 + 1 := by
  rw [line_afterAll _ fun g => Utf8.regular_of_mem_glyphs, Utf8.text_glyphs]
  simp only [start]
  omega

end Position

namespace Source

/-- The tokens of two sources with a newline between them are those of the first, and those of the second as far down
as the first is long. If the second has an error instead of tokens, so have both together, as far down. -/
theorem tokens_compose_at_newline {a : Bytes} {ts : List Token} (h : tokens a defaultTerminator = .ok ts) (b : Bytes) :
    let both := a ++ ascii "\n" ++ b
    let down := Position.shift (a.length + 1) (a.count 10 + 1)
    ∃ front q, ts = front ++ [.endOfInput q] ∧ (∀ t ∈ front, t.kind ≠ .endOfInput) ∧
      ((∃ us, tokens both defaultTerminator = .ok us) ↔ ∃ us, tokens b defaultTerminator = .ok us) ∧
      (∀ us, tokens b defaultTerminator = .ok us →
        tokens both defaultTerminator = .ok (front ++ us.map (Token.move down))) ∧
      (∀ e, tokens b defaultTerminator = .error e → tokens both defaultTerminator = .error (e.move down)) := by
  intro both down
  have hend : tokensFrom defaultTerminator .start (Utf8.glyphs a) = .ok ts := h
  obtain ⟨front, rfl, hfront⟩ := tokensFrom_eq_ok hend
  have hboth := tokens_append_newline h b
  rw [Position.offset_end, Position.line_end] at hboth
  have hnewline : both = a ++ 10 :: b := by
    show a ++ ascii "\n" ++ b = _
    rw [List.append_assoc]
    rfl
  rw [hnewline]
  refine ⟨front, _, rfl, hfront, ?_, fun us hus => ?_, fun e he => ?_⟩
  · cases hb : tokens b defaultTerminator with
    | ok us => simp [hboth, hb]
    | error e => simp [hboth, hb]
  · rw [hboth, hus]
  · rw [hboth, he]

namespace Positions

/-- A name and a comment that breaks off within a character. -/
def unended : Bytes := ascii "x #" ++ [0xE2, 0x82]

def unendedTokens : List Token := [⟨.identifier, ascii "x", ⟨0, 1, 1⟩⟩, .endOfInput ⟨5, 1, 6⟩]

def faulty : Bytes := ascii "y\n|"

theorem tokens_unended : tokens unended defaultTerminator = .ok unendedTokens ∧
    tokens (unended ++ ascii "\n" ++ ascii "y") defaultTerminator =
      .ok [⟨.identifier, ascii "x", ⟨0, 1, 1⟩⟩, ⟨.identifier, ascii "y", ⟨6, 2, 1⟩⟩, .endOfInput ⟨7, 2, 2⟩] ∧
    tokens (unended ++ ascii "\n" ++ faulty) defaultTerminator = .error ⟨.loneOperator, '|', ⟨8, 3, 1⟩⟩ := by
  have hfirst : tokens unended defaultTerminator = .ok unendedTokens := by decide +kernel
  have hline : tokens (ascii "y") defaultTerminator =
      .ok [⟨.identifier, ascii "y", ⟨0, 1, 1⟩⟩, .endOfInput ⟨1, 1, 2⟩] := by decide +kernel
  have hfaulty : tokens faulty defaultTerminator = .error ⟨.loneOperator, '|', ⟨2, 2, 1⟩⟩ := by decide +kernel
  obtain ⟨front, q, hts, -, -, hok, -⟩ := tokens_compose_at_newline hfirst (ascii "y")
  obtain ⟨-, -, -, -, -, -, herror⟩ := tokens_compose_at_newline hfirst faulty
  have hfront : front = [⟨.identifier, ascii "x", ⟨0, 1, 1⟩⟩] := by
    simpa [unendedTokens] using (congrArg List.dropLast hts).symm
  subst hfront
  exact ⟨hfirst, hok _ hline, herror _ hfaulty⟩

end Positions

end Source

end BlockScript
