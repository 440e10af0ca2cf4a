import Mathlib.Data.List.Forall2
import BlockScript.Proofs.Derivation
import BlockScript.Proofs.Relocation
import BlockScript.Proofs.Rendering
import BlockScript.Session

/-!
# Parsing line by line

Nothing that follows a semicolon continues what stands in front of it. So
sources that end with a semicolon can be put below each other, and the whole is
parsed to the programs of its parts, one behind the other.
-/

namespace BlockScript

/-! ## Behind a semicolon -/

def Phrase.expressionLasts : List TokenKind := [.number, .string, .identifier, .closeParen]

theorem Writes.last {L : Layout} {phrase : Phrase} {ts : List Token} (h : Writes L phrase ts) :
    match phrase with
    | .expression .. => ∃ t, ts.getLast? = some t ∧ t.kind ∈ Phrase.expressionLasts
    | _ => True := by
  induction h with
  | number ht | string ht | identifier ht => exact ⟨_, rfl, by simp [ht, Phrase.expressionLasts]⟩
  | group _ _ hr | call _ _ _ _ _ hr => exact ⟨_, List.getLast?_concat, by simp [hr, Phrase.expressionLasts]⟩
  | unary _ _ _ ih =>
    obtain ⟨t, ht, hkind⟩ := ih
    exact ⟨t, by rw [List.getLast?_cons, ht]; rfl, hkind⟩
  | binary _ _ _ _ _ ih | logical _ _ _ _ _ ih | assign _ _ _ _ ih =>
    obtain ⟨t, ht, hkind⟩ := ih
    exact ⟨t, by rw [List.getLast?_append_cons, List.getLast?_cons, ht]; rfl, hkind⟩
  | _ => trivial

theorem Writes.last_of_endsInExpression {L : Layout} {s : Stmt} {ts : List Token} (h : Writes L (.statement s) ts)
    (hs : s.endsInExpression = true) : ∃ t, ts.getLast? = some t ∧ t.kind ∈ Phrase.expressionLasts := by
  cases h with
  | declare _ _ _ _ he =>
    obtain ⟨t, ht, hkind⟩ := he.last
    exact ⟨t, by rw [List.getLast?_append_cons, List.getLast?_cons, ht]; rfl, hkind⟩
  | expr he => exact he.last
  | _ => cases hs

theorem Writes.ne_nil_of_cons {L : Layout} {s : Stmt} {ss : List Stmt} {ts : List Token}
    (h : Writes L (.statements (s :: ss)) ts) : ts ≠ [] := by
  cases h with
  | cons hs =>
    obtain ⟨t, us, rfl, -⟩ := hs.exists_cons rfl
    simp

theorem Writes.append {program more : Program} {ts us : List Token} {t : Token}
    (h : Writes .free (.statements program) ts) (hlast : ts.getLast? = some t) (ht : t.kind = .semicolon)
    (hmore : Writes .free (.statements more) us) : Writes .free (.statements (program ++ more)) (ts ++ us) := by
  induction program generalizing ts with
  | nil =>
    cases h
    cases hlast
  | cons s ss ih =>
    cases h with
    | cons hs hend hss =>
      cases ss with
      | nil =>
        cases hss
        rw [List.append_nil] at hlast ⊢
        refine .cons hs ?_ hmore
        rcases hend with ⟨rfl, -⟩ | hclosed
        · -- an expression does not end with the semicolon
          refine .inl ⟨rfl, fun he => ?_⟩
          obtain ⟨u, hu, hkind⟩ := hs.last_of_endsInExpression he
          rw [List.append_nil, hu] at hlast
          cases hlast
          rw [ht] at hkind
          exact absurd hkind (by decide)
        · exact .inr hclosed
      | cons s' ss =>
        obtain ⟨v, vs, rfl⟩ := List.exists_cons_of_ne_nil hss.ne_nil_of_cons
        rw [List.getLast?_append_cons] at hlast
        rw [List.append_assoc]
        refine .cons hs ?_ (ih hss hlast)
        rcases hend with ⟨rfl, hstops⟩ | hclosed
        · exact .inl ⟨rfl, hstops⟩
        · exact .inr hclosed

/-! ## Sources -/

def Source.lastKind? (source : Bytes) : Option TokenKind :=
  match Source.tokens source defaultTerminator with
  | .ok tokens => (Parse.body tokens).getLast?.map Token.kind
  | .error _ => none

/-- A program whose last token is a semicolon. -/
def Source.IsLine (source : Bytes) : Prop :=
  (Program.ofSource source defaultTerminator).isOk = true ∧ lastKind? source = some .semicolon

instance (source : Bytes) : Decidable (Source.IsLine source) := inferInstanceAs (Decidable (_ ∧ _))

namespace Program

theorem ofSource_eq_ok {source terminator : Bytes} {program : Program} (h : ofSource source terminator = .ok program) :
    ∃ ts q, Source.tokens source terminator = .ok (ts ++ [.endOfInput q]) ∧ Parse.body (ts ++ [.endOfInput q]) = ts ∧
      Writes .free (.statements program) ts := by
  unfold ofSource at h
  split at h
  · cases h
  · rename_i tokens htokens
    split at h
    · cases h
    · rename_i program' hprogram
      cases h
      obtain ⟨ts, q, rfl, hts⟩ := Source.tokens_eq_ok htokens
      have hbody : Parse.body (ts ++ [.endOfInput q]) = ts := Parse.body_append hts (by simp [Token.endOfInput])
      refine ⟨ts, q, htokens, hbody, ?_⟩
      have hwrites := writes_of_ofTokens hprogram
      rwa [hbody] at hwrites

theorem exists_of_isLine {line : Bytes} (h : Source.IsLine line) :
    ∃ program ts q t, ofSource line Source.defaultTerminator = .ok program ∧
      Source.tokens line Source.defaultTerminator = .ok (ts ++ [.endOfInput q]) ∧
      Writes .free (.statements program) ts ∧ ts.getLast? = some t ∧ t.kind = .semicolon := by
  obtain ⟨hparses, hlast⟩ := h
  cases hprogram : ofSource line Source.defaultTerminator with
  | error e =>
    rw [hprogram] at hparses
    cases hparses
  | ok program =>
    obtain ⟨ts, q, htokens, hbody, hts⟩ := ofSource_eq_ok hprogram
    simp only [Source.lastKind?, htokens, hbody] at hlast
    obtain ⟨t, ht, hkind⟩ := Option.map_eq_some_iff.mp hlast
    exact ⟨program, ts, q, t, rfl, htokens, hts, ht, hkind⟩

theorem ofSource_append_newline {a b : Bytes} {program more : Program} {ts : List Token} {p : Position} {t : Token}
    (ha : Source.tokens a Source.defaultTerminator = .ok (ts ++ [.endOfInput p]))
    (hts : Writes .free (.statements program) ts) (hlast : ts.getLast? = some t) (ht : t.kind = .semicolon)
    (hb : ofSource b Source.defaultTerminator = .ok more) :
    ∃ f, ofSource (a ++ 10 :: b) Source.defaultTerminator = .ok (program ++ (Transcription.moved f).block more) := by
  obtain ⟨us, q, htokens, -, hus⟩ := ofSource_eq_ok hb
  let f := Position.shift (p.offset + 1) p.line
  have hwrites := hts.append hlast ht (hus.moved f)
  have hend : ∀ t ∈ [(Token.endOfInput q).move f].head?, t.kind = .endOfInput := by simp [Token.endOfInput]
  refine ⟨f, ?_⟩
  rw [ofSource, Source.tokens_append_newline ha, htokens]
  simp only [List.map_append, List.map_cons, List.map_nil, ← List.append_assoc, f,
    ofTokens_of_writes (.refl .free) hwrites hend]

theorem ofSource_join {lines : List Bytes} (hne : lines ≠ []) (h : ∀ line ∈ lines, Source.IsLine line) :
    ∃ program programs, ofSource (Bytes.join (ascii "\n") lines) Source.defaultTerminator = .ok program ∧
      List.Forall₂ (fun line part => ofSource line Source.defaultTerminator = .ok part ∧ part ≠ []) lines programs ∧
      Transcription.unplaced.block program = Transcription.unplaced.block programs.flatten := by
  induction lines with
  | nil => exact absurd rfl hne
  | cons line more ih =>
    obtain ⟨part, ts, q, t, hpart, htokens, hts, hlast, ht⟩ := exists_of_isLine (h line List.mem_cons_self)
    have hnil : part ≠ [] := by
      rintro rfl
      cases hts
      cases hlast
    cases more with
    | nil => exact ⟨part, [part], by simpa [Bytes.join] using hpart, .cons ⟨hpart, hnil⟩ .nil, by simp⟩
    | cons next more =>
      obtain ⟨program, programs, hprogram, hparts, hflatten⟩ :=
        ih nofun fun l hl => h l (List.mem_cons_of_mem _ hl)
      obtain ⟨f, hf⟩ := ofSource_append_newline htokens hts hlast ht hprogram
      have hjoin : Bytes.join (ascii "\n") (line :: next :: more) =
          line ++ 10 :: Bytes.join (ascii "\n") (next :: more) := by
        have hnewline : ascii "\n" = [10] := by decide
        simp [Bytes.join, hnewline, List.intercalate_cons_cons]
      refine ⟨_, part :: programs, hjoin ▸ hf, .cons ⟨hpart, hnil⟩ hparts, ?_⟩
      rw [List.flatten_cons, Transcription.block_append, Transcription.block_append,
        Transcription.unplaced_block_moved, hflatten]

end Program

end BlockScript
