import BlockScript.Proofs.Derivation
import BlockScript.Proofs.Rendering

/-!
# The parser accepts its grammar and nothing else

A sequence of tokens is parsed to a program exactly if its tokens, up to the
mark for the end of input, are a way to write that program. So there is one
such program at most, and no token is left out or used twice.
-/

namespace BlockScript

/-! ## The tokens of the grammar -/

def TokenKind.isUsed : TokenKind → Bool
  | .endOfInput | .returnKeyword | .dot | .openBracket | .closeBracket | .other _ => false
  | _ => true

theorem TokenKind.isUsed_of_isTypeName {kind : TokenKind} (h : kind.isTypeName = true) : kind.isUsed = true := by
  revert h
  cases kind <;> simp [isTypeName, isUsed]

namespace Layout

theorem kind_of_annotation {ts : List Token} (h : Layout.free.annotation ts) :
    ∀ t ∈ ts, t.kind = .colon ∨ t.kind.isTypeName = true := by
  obtain rfl | ⟨t, u, rfl, ht, hu⟩ := h
  · simp
  · simp [ht, hu]

theorem kind_of_ending {s : Stmt} {us vs : List Token} (h : Layout.free.ending s us vs) :
    ∀ t ∈ us, t.kind = .semicolon := by
  obtain ⟨rfl, -⟩ | ⟨-, t, rfl, ht⟩ := h
  · simp
  · simp [ht]

end Layout

theorem Token.isUsed_of_binaryRank? {t : Token} {q : Nat} (h : t.binaryRank? = some q) : t.kind.isUsed = true := by
  unfold binaryRank? at h
  split at h <;> simp_all [TokenKind.isUsed]

theorem Token.isUsed_of_logicalRank? {t : Token} {q : Nat} (h : t.logicalRank? = some q) : t.kind.isUsed = true := by
  unfold logicalRank? at h
  split at h <;> simp_all [TokenKind.isUsed]

theorem Token.isUsed_of_declKind? {t : Token} {kind : DeclKind} (h : t.declKind? = some kind) :
    t.kind.isUsed = true := by
  unfold declKind? at h
  split at h <;> simp_all [TokenKind.isUsed]

theorem Writes.isUsed {phrase : Phrase} {ts : List Token} (h : Writes .free phrase ts) :
    ∀ t ∈ ts, t.kind.isUsed = true := by
  induction h with
  | unary _ ht => grind [Token.isSign, TokenKind.isUsed]
  | binary _ ht => grind [Token.isUsed_of_binaryRank?]
  | logical _ ht => grind [Token.isUsed_of_logicalRank?]
  | declare hk =>
    grind [Token.isUsed_of_declKind?, Layout.kind_of_annotation, TokenKind.isUsed_of_isTypeName, TokenKind.isUsed]
  | _ =>
    grind [Layout.kind_of_annotation, Layout.kind_of_ending, TokenKind.isUsed_of_isTypeName, TokenKind.isUsed]

/-! ## Counting else -/

namespace Stmt

mutual

def elses : Stmt → Nat
  | .program body | .function _ _ body | .whileLoop _ body => allElses body
  | .ifElse _ body arms otherwise => allElses body + (armElses arms + lastElses otherwise)
  | .declare .. | .expr _ | .missing | .foreign _ => 0

def allElses : List Stmt → Nat
  | [] => 0
  | s :: ss => s.elses + allElses ss

def armElses : List (Expr × List Stmt) → Nat
  | [] => 0
  | (_, body) :: arms => 1 + allElses body + armElses arms

def lastElses : Option (List Stmt) → Nat
  | none => 0
  | some body => 1 + allElses body

end

end Stmt

def Phrase.elses : Phrase → Nat
  | expression .. | arguments _ | parameters _ => 0
  | block body | statements body => Stmt.allElses body
  | branches arms otherwise => Stmt.armElses arms + Stmt.lastElses otherwise
  | statement s => s.elses

def Token.isElse (t : Token) : Bool := t.kind = .elseKeyword

theorem Layout.countP_isElse_of_annotation {ts : List Token} (h : Layout.free.annotation ts) :
    ts.countP Token.isElse = 0 := by
  refine List.countP_eq_zero.mpr fun t ht => ?_
  rcases kind_of_annotation h t ht with hk | hk
  · simp [Token.isElse, hk]
  · cases hkind : t.kind <;> simp_all [Token.isElse, TokenKind.isTypeName]

theorem Layout.countP_isElse_of_ending {s : Stmt} {us vs : List Token} (h : Layout.free.ending s us vs) :
    us.countP Token.isElse = 0 :=
  List.countP_eq_zero.mpr fun t ht => by simp [Token.isElse, kind_of_ending h t ht]

theorem Writes.countP_isElse {phrase : Phrase} {ts : List Token} (h : Writes .free phrase ts) :
    ts.countP Token.isElse = phrase.elses := by
  induction h with
  | unary _ ht => grind [Token.isElse, Token.isSign, Phrase.elses]
  | binary _ ht => grind [Token.isElse, Token.binaryRank?, Phrase.elses]
  | logical _ ht => grind [Token.isElse, Token.logicalRank?, Phrase.elses]
  | declare hk =>
    grind [Token.isElse, Token.declKind?, Layout.countP_isElse_of_annotation, Phrase.elses, Stmt.elses]
  | _ => grind [Token.isElse, Layout.countP_isElse_of_annotation, Layout.countP_isElse_of_ending, Phrase.elses,
      Stmt.elses, Stmt.allElses, Stmt.armElses, Stmt.lastElses]

/-! ## Acceptance -/

theorem Parse.exists_eq_body_append (tokens : List Token) :
    ∃ rest, tokens = body tokens ++ rest ∧ ∀ t ∈ rest.head?, t.kind = .endOfInput := by
  refine ⟨tokens.dropWhile fun t => !isEnd t, List.takeWhile_append_dropWhile.symm, fun t ht => ?_⟩
  have hend := List.head?_dropWhile_not (fun t => !isEnd t) tokens
  rw [Option.mem_def.mp ht] at hend
  simpa [isEnd] using hend

theorem Program.ofTokens_body {tokens : List Token} {program : Program}
    (h : Writes .free (.statements program) (Parse.body tokens)) : Program.ofTokens tokens = .ok program := by
  obtain ⟨rest, htokens, hrest⟩ := Parse.exists_eq_body_append tokens
  rw [htokens]
  exact Program.ofTokens_of_writes (.refl .free) h hrest

def TokenKind.unused : List TokenKind := [.returnKeyword, .dot, .openBracket, .closeBracket]

theorem TokenKind.isUsed_of_mem_unused {kind : TokenKind} (h : kind ∈ unused) : kind.isUsed = false := by
  simp only [unused, List.mem_cons, List.not_mem_nil, or_false] at h
  rcases h with rfl | rfl | rfl | rfl <;> rfl

theorem Program.ofTokens_accepts (tokens : List Token) :
    (∀ program, Program.ofTokens tokens = .ok program ↔ Writes .free (.statements program) (Parse.body tokens)) ∧
    (∀ program, Program.ofTokens tokens = .ok program →
      (Parse.body tokens).countP Token.isElse = Stmt.allElses program) ∧
    ((∃ t ∈ Parse.body tokens, t.kind ∈ TokenKind.unused) → ∃ errors, Program.ofTokens tokens = .error errors) := by
  refine ⟨fun program => ⟨Program.writes_of_ofTokens, Program.ofTokens_body⟩, fun program h => ?_, fun hunused => ?_⟩
  · exact (Program.writes_of_ofTokens h).countP_isElse
  · obtain ⟨t, ht, hkind⟩ := hunused
    cases h : Program.ofTokens tokens with
    | error errors => exact ⟨errors, rfl⟩
    | ok program =>
      have hused := (Program.writes_of_ofTokens h).isUsed t ht
      rw [TokenKind.isUsed_of_mem_unused hkind] at hused
      cases hused

namespace Acceptance

/-- The tokens of `if a { } else { (b) = -1 }`, with more behind the mark for their end. -/
def choice : List Token :=
  [.bare .ifKeyword, .named (ascii "a"), .bare .openBrace, .bare .closeBrace, .bare .elseKeyword, .bare .openBrace,
   .bare .openParen, .named (ascii "b"), .bare .closeParen, .bare .equals, ⟨.arithmetic, ascii "-", .nowhere⟩,
   .one, .bare .closeBrace, .endOfInput .nowhere, .bare .closeBracket]

def choiceTree : Program :=
  [.ifElse (.identifier (ascii "a")) [] []
    (some [.expr (.assign (ascii "b") (.unary ⟨.arithmetic, ascii "-", .nowhere⟩ (.number Numeral.one)))])]

def leaving : List Token := [.named (ascii "a"), .bare .returnKeyword, .endOfInput .nowhere]

theorem accepts_choice : Program.ofTokens choice = .ok choiceTree ∧
    Writes .free (.statements choiceTree) (Parse.body choice) ∧ (Parse.body choice).countP Token.isElse = 1 ∧
    (∃ t ∈ Parse.body leaving, t.kind ∈ TokenKind.unused) ∧ ∃ errors, Program.ofTokens leaving = .error errors := by
  have hparse : Program.ofTokens choice = .ok choiceTree := rfl
  have hreturn : ∃ t ∈ Parse.body leaving, t.kind ∈ TokenKind.unused := ⟨.bare .returnKeyword, by decide, by decide⟩
  obtain ⟨hiff, hcount, -⟩ := Program.ofTokens_accepts choice
  exact ⟨hparse, (hiff choiceTree).mp hparse, hcount choiceTree hparse, hreturn,
    (Program.ofTokens_accepts leaving).2.2 hreturn⟩

end Acceptance

end BlockScript
