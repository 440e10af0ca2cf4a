import BlockScript.Proofs.Pieces

/-!
# Tokenizing loses and invents nothing

The tokens of a source stand in it side by side, each as it is written and as
long as it can be, and between them there are only blanks and comments.
-/

namespace BlockScript

namespace Position

theorem offset_after (p : Position) (g : Glyph) : (p.after g).offset = p.offset + g.bytes.length := by
  unfold after
  split <;> rfl

theorem offset_afterAll (p : Position) (gs : List Glyph) :
    (p.afterAll gs).offset = p.offset + (Utf8.text gs).length := by
  induction gs generalizing p with
  | nil => simp [afterAll]
  | cons g gs ih =>
    have hstep : p.afterAll (g :: gs) = (p.after g).afterAll gs := rfl
    rw [hstep, ih, offset_after, Utf8.text_cons, List.length_append]
    omega

end Position

namespace Token

def stop (t : Token) : Int := t.position.offset + t.written.length

def Covers (t : Token) (i : Nat) : Prop := t.position.offset ≤ i ∧ i < t.stop

theorem written_ne_nil {t : Token} (hkind : t.kind ≠ .endOfInput) (hwf : t.WellFormed) : t.written ≠ [] := by
  have hspelling : ∀ kind : TokenKind, [] ∉ kind.words ++ kind.symbols := by
    intro kind
    cases kind with
    | other code => simp [TokenKind.words, TokenKind.symbols]
    | _ => decide
  obtain ⟨kind, lexeme, p⟩ := t
  unfold WellFormed at hwf
  unfold written
  cases kind with
  | endOfInput => exact absurd rfl hkind
  | string => simp [ascii]
  | number => exact hwf.1
  | identifier =>
    rintro rfl
    simp [Source.isWord, Utf8.glyphs_nil] at hwf
  | _ =>
    rintro rfl
    exact hspelling _ hwf

end Token

namespace Source

structure Faithful (source terminator : Bytes) (tokens : List Token) : Prop where
  closed : ∃ (ts : List Token) (p : Position), tokens = ts ++ [.endOfInput p] ∧ p.offset = source.length ∧
    ∀ t ∈ ts, t.kind ≠ .endOfInput
  increasing : tokens.Pairwise fun t u => t.position.offset < u.position.offset
  disjoint : tokens.Pairwise fun t u => t.stop ≤ u.position.offset
  present : ∀ t ∈ tokens, ∃ before after, source = before ++ (t.written ++ after) ∧
    t.position.offset = before.length ∧ t.EndsBefore after
  wellFormed : ∀ t ∈ tokens, t.WellFormed
  -- what no token covers is blank or belongs to a comment, and a comment touches no token
  covered : ∀ before b after, source = before ++ b :: after → (∀ t ∈ tokens, ¬ t.Covers before.length) →
    isBlankByte b = true ∨ ∃ start text rest, source = start ++ (text ++ rest) ∧ IsComment terminator text rest ∧
      start.length ≤ before.length ∧ before.length < start.length + text.length ∧
      ∀ t ∈ tokens, t.stop ≤ start.length ∨ start.length + text.length ≤ t.position.offset

namespace Cut

variable {terminator source : Bytes} {p : Position} {ts : List Token}

theorem wellFormed (h : Cut terminator p source ts) : ∀ t ∈ ts, t.WellFormed := by
  induction h with
  | nil p => simp [Token.endOfInput, Token.WellFormed]
  | cons hstands _ ih =>
    intro t ht
    rcases List.mem_append.mp ht with ht | ht
    · cases hstands with
      | blank => cases ht
      | comment => cases ht
      | token _ _ hwf =>
        rw [List.mem_singleton.mp ht]
        exact hwf
    · exact ih t ht

theorem present (h : Cut terminator p source ts) :
    ∀ t ∈ ts, ∃ before after, source = before ++ (t.written ++ after) ∧
      t.position.offset = p.offset + before.length ∧ t.EndsBefore after := by
  induction h with
  | nil p =>
    intro t ht
    rw [List.mem_singleton.mp ht]
    refine ⟨[], [], rfl, by simp [Token.endOfInput], ?_⟩
    exact ⟨by simp [Token.endOfInput], by simp [Token.endOfInput, TokenKind.words], by simp⟩
  | @cons p text after ts us hstands _ ih =>
    intro t ht
    rcases List.mem_append.mp ht with ht | ht
    · cases hstands with
      | blank => cases ht
      | comment => cases ht
      | token hp _ _ hend =>
        rw [List.mem_singleton.mp ht]
        exact ⟨[], after, rfl, by simp [hp], hend⟩
    · obtain ⟨before, rest, rfl, hoffset, hend⟩ := ih t ht
      refine ⟨text ++ before, rest, by simp, ?_, hend⟩
      rw [hoffset, Position.offset_afterAll, Utf8.text_glyphs, List.length_append]
      omega

theorem offset_le (h : Cut terminator p source ts) : ∀ t ∈ ts, p.offset ≤ t.position.offset := by
  intro t ht
  obtain ⟨before, -, -, hoffset, -⟩ := h.present t ht
  omega

theorem ordered (h : Cut terminator p source ts) :
    ts.Pairwise fun t u => t.position.offset < u.position.offset ∧ t.stop ≤ u.position.offset := by
  induction h with
  | nil p => simp
  | @cons p text after ts us hstands hcut ih =>
    have hle := hcut.offset_le
    rw [Position.offset_afterAll, Utf8.text_glyphs] at hle
    cases hstands with
    | blank => exact ih
    | comment => exact ih
    | @token t _ hp hkind hwf _ =>
      have hpos : 0 < t.written.length := List.length_pos_iff.mpr (Token.written_ne_nil hkind hwf)
      rw [List.singleton_append, List.pairwise_cons]
      refine ⟨?_, ih⟩
      intro u hu
      have := hle u hu
      rw [Token.stop, hp]
      omega

theorem covered (h : Cut terminator p source ts) :
    ∀ before b after, source = before ++ b :: after →
      (∀ t ∈ ts, ¬ (t.position.offset ≤ p.offset + before.length ∧ p.offset + before.length < t.stop)) →
      isBlankByte b = true ∨ ∃ start text rest, source = start ++ (text ++ rest) ∧ IsComment terminator text rest ∧
        start.length ≤ before.length ∧ before.length < start.length + text.length ∧
        ∀ t ∈ ts, t.stop ≤ p.offset + start.length ∨ p.offset + start.length + text.length ≤ t.position.offset := by
  induction h with
  | nil p =>
    intro before b after hsource
    simp at hsource
  | @cons p text rest ts us hstands hcut ih =>
    intro before b after hsource huncovered
    have hle := hcut.offset_le
    simp only [Position.offset_afterAll, Utf8.text_glyphs] at hle ih
    rcases Nat.lt_or_ge before.length text.length with hlt | hge
    · cases hstands with
      | blank hblank =>
        obtain rfl : before = [] := List.eq_nil_of_length_eq_zero (Nat.lt_one_iff.mp hlt)
        cases hsource
        exact .inl hblank
      | comment hcomment =>
        refine .inr ⟨[], text, rest, rfl, hcomment, Nat.zero_le _, by simpa using hlt, ?_⟩
        intro t ht
        have := hle t ht
        exact .inr (by simp; omega)
      | @token t _ hp _ _ _ =>
        refine absurd ⟨?_, ?_⟩ (huncovered t (by simp))
        · rw [hp]; omega
        · rw [Token.stop, hp]; omega
    · -- the byte lies behind the first piece
      have hprefix : text <+: before := by
        refine List.prefix_of_prefix_length_le (List.prefix_append text rest) ?_ hge
        rw [hsource]
        exact List.prefix_append ..
      obtain ⟨more, rfl⟩ := hprefix
      have hrest : rest = more ++ b :: after := by simpa using hsource
      simp only [List.length_append] at huncovered ⊢
      rcases ih more b after hrest (fun t ht hcovers => huncovered t (by simp [ht]) (by omega)) with
        hblank | ⟨start, text', rest', hstart, hcomment, hfrom, hto, hapart⟩
      · exact .inl hblank
      · refine .inr ⟨text ++ start, text', rest', by rw [hstart, List.append_assoc], hcomment, ?_, ?_, ?_⟩
        · simp only [List.length_append]; omega
        · simp only [List.length_append]; omega
        · intro t ht
          simp only [List.length_append]
          rcases List.mem_append.mp ht with ht | ht
          · left
            cases hstands with
            | blank => cases ht
            | comment => cases ht
            | token hp =>
              rw [List.mem_singleton.mp ht, Token.stop, hp]
              omega
          · have := hapart t ht
            omega

end Cut

/-- Whatever the bytes of a source and the terminator of its comments are: if it has tokens, they are the source. -/
theorem tokens_faithful {source terminator : Bytes} {ts : List Token} (h : tokens source terminator = .ok ts) :
    Faithful source (terminatorOr terminator) ts := by
  have hcut := cut_of_tokens h
  have hstart : Position.start.offset = 0 := rfl
  refine ⟨?_, hcut.ordered.imp And.left, hcut.ordered.imp And.right, ?_, hcut.wellFormed, ?_⟩
  · obtain ⟨us, rfl, hus⟩ := tokensFrom_eq_ok h
    refine ⟨us, _, rfl, ?_, hus⟩
    rw [Position.offset_afterAll, Utf8.text_glyphs, hstart, Int.zero_add]
  · intro t ht
    obtain ⟨before, after, hsource, hoffset, hend⟩ := hcut.present t ht
    exact ⟨before, after, hsource, by rw [hoffset, hstart, Int.zero_add], hend⟩
  · intro before b after hsource huncovered
    have := hcut.covered before b after hsource
    simp only [hstart, Int.zero_add] at this
    exact this huncovered

/-- A condition with a string and a comment that hold a number sign, a quote and bytes that are no characters; the
comment ends in front of the last three tokens. -/
def scribble : Bytes := ascii "if x1>=2\x7bs=\"#\xff\"\x7d#!\"\xff#;b==c"

theorem tokens_scribble :
    ∃ ts, tokens scribble (ascii "#;") = .ok ts ∧ Faithful scribble (ascii "#;") ts ∧
      ts.map Token.kind = [.ifKeyword, .identifier, .greaterOrEqual, .number, .openBrace, .identifier, .equals, .string,
        .closeBrace, .identifier, .equality, .identifier, .endOfInput] := by
  have hkinds : (tokens scribble (ascii "#;")).map (List.map Token.kind) = .ok [.ifKeyword, .identifier,
      .greaterOrEqual, .number, .openBrace, .identifier, .equals, .string, .closeBrace, .identifier, .equality,
      .identifier, .endOfInput] := by decide +kernel
  cases h : tokens scribble (ascii "#;") with
  | error e =>
    rw [h] at hkinds
    cases hkinds
  | ok ts =>
    rw [h] at hkinds
    exact ⟨ts, rfl, tokens_faithful h, Except.ok.inj hkinds⟩

end Source

end BlockScript
