import BlockScript.Syntax.Parse

/-!
# The grammar

Which tokens a tree may be written as. Operators are ranked by how tightly
they bind: assignment 0, `or` 1, `and` 2, equality 3, comparison 4, sums 5,
products 6, the operators in front of an operand 7, calls 8. An expression
written at a rank stands there without parentheses only if its own operator
binds at least that tightly; parentheses may always be added.

What closes a statement and whether types are annotated is left to a layout.
-/

namespace BlockScript

namespace Token

def logicalRank? (t : Token) : Option Nat :=
  match t.kind with
  | .or => some 1
  | .and => some 2
  | _ => none

def binaryRank? (t : Token) : Option Nat :=
  match t.kind with
  | .equality | .notEquality => some 3
  | .greaterThan | .greaterOrEqual | .lessThan | .lessOrEqual => some 4
  | .arithmetic =>
    if t.lexeme = ascii "+" ∨ t.lexeme = ascii "-" then some 5
    else if t.lexeme = ascii "*" ∨ t.lexeme = ascii "/" ∨ t.lexeme = ascii "%" then some 6
    else none
  | _ => none

def isSign (t : Token) : Prop := t.kind = .exclamation ∨ t.kind = .arithmetic ∧ t.lexeme = ascii "-"

def declKind? (t : Token) : Option DeclKind :=
  match t.kind with
  | .varKeyword => some .var
  | .constKeyword => some .const
  | .finalKeyword => some .final
  | _ => none

end Token

inductive Phrase where
  | expression (rank : Nat) (e : Expr)
  | arguments (es : List Expr)
  | parameters (names : List Name)
  | block (body : Block)
  | branches (arms : List (Expr × Block)) (otherwise : Option Block)
  | statement (s : Stmt)
  | statements (ss : List Stmt)

/-- `ending s us vs`: the statement `s` may be closed by the tokens `us` when those of the statements behind it are
`vs`. -/
structure Layout where
  ending : Stmt → List Token → List Token → Prop
  annotation : List Token → Prop

inductive Writes (L : Layout) : Phrase → List Token → Prop
  | number {p t x} : t.kind = .number → Numeral.read? t.lexeme = some x → Writes L (.expression p (.number x)) [t]
  | string {p t} : t.kind = .string → Writes L (.expression p (.string t.lexeme)) [t]
  | identifier {p t} : t.kind = .identifier → Writes L (.expression p (.identifier t.lexeme)) [t]
  | group {p e l r ts} : l.kind = .openParen → Writes L (.expression 0 e) ts → r.kind = .closeParen →
      Writes L (.expression p e) (l :: ts ++ [r])
  | call {p callee es l r ts us} : p ≤ 8 → Writes L (.expression 8 callee) ts → l.kind = .openParen →
      Writes L (.arguments es) us → es.length ≤ 255 → r.kind = .closeParen →
      Writes L (.expression p (.call callee es)) (ts ++ l :: us ++ [r])
  | unary {p t e ts} : p ≤ 7 → t.isSign → Writes L (.expression 7 e) ts → Writes L (.expression p (.unary t e)) (t :: ts)
  | binary {p q t left right ts us} : p ≤ q → t.binaryRank? = some q → Writes L (.expression q left) ts →
      Writes L (.expression (q + 1) right) us → Writes L (.expression p (.binary t left right)) (ts ++ t :: us)
  | logical {p q t left right ts us} : p ≤ q → t.logicalRank? = some q → Writes L (.expression q left) ts →
      Writes L (.expression (q + 1) right) us → Writes L (.expression p (.logical t left right)) (ts ++ t :: us)
  -- the name that is assigned to may stand in parentheses
  | assign {t name e ts us} : Writes L (.expression 1 (.identifier name)) ts → t.kind = .equals →
      Writes L (.expression 0 e) us → Writes L (.expression 0 (.assign name e)) (ts ++ t :: us)
  | noArguments : Writes L (.arguments []) []
  | argument {e ts} : Writes L (.expression 0 e) ts → Writes L (.arguments [e]) ts
  | moreArguments {e f es t ts us} : Writes L (.expression 0 e) ts → t.kind = .comma →
      Writes L (.arguments (f :: es)) us → Writes L (.arguments (e :: f :: es)) (ts ++ t :: us)
  | noParameters : Writes L (.parameters []) []
  | parameter {t ts} : t.kind = .identifier → L.annotation ts → Writes L (.parameters [t.lexeme]) (t :: ts)
  | moreParameters {t c n ns ts us} : t.kind = .identifier → L.annotation ts → c.kind = .comma →
      Writes L (.parameters (n :: ns)) us → Writes L (.parameters (t.lexeme :: n :: ns)) (t :: ts ++ c :: us)
  | block {body l r ts} : l.kind = .openBrace → Writes L (.statements body) ts → r.kind = .closeBrace →
      Writes L (.block body) (l :: ts ++ [r])
  | noBranch : Writes L (.branches [] none) []
  | otherwise {body t ts} : t.kind = .elseKeyword → Writes L (.block body) ts →
      Writes L (.branches [] (some body)) (t :: ts)
  | elseIf {check body arms rest t u ts us vs} : t.kind = .elseKeyword → u.kind = .ifKeyword →
      Writes L (.expression 0 check) ts → Writes L (.block body) us → Writes L (.branches arms rest) vs →
      Writes L (.branches ((check, body) :: arms) rest) (t :: u :: ts ++ us ++ vs)
  | plain {k t ts} : k.kind = .varKeyword → t.kind = .identifier → L.annotation ts →
      Writes L (.statement (.declare .var t.lexeme none)) (k :: t :: ts)
  | declare {k t q kind e ts us} : k.declKind? = some kind → t.kind = .identifier → L.annotation ts →
      q.kind = .equals → Writes L (.expression 0 e) us →
      Writes L (.statement (.declare kind t.lexeme (some e))) (k :: t :: ts ++ q :: us)
  | function {k t l r names body ts us vs} : k.kind = .fnKeyword → t.kind = .identifier → l.kind = .openParen →
      Writes L (.parameters names) ts → names.length ≤ 255 → r.kind = .closeParen → L.annotation us →
      Writes L (.block body) vs →
      Writes L (.statement (.function t.lexeme names body)) (k :: t :: l :: ts ++ r :: us ++ vs)
  | ifElse {k check body arms rest ts us vs} : k.kind = .ifKeyword → Writes L (.expression 0 check) ts →
      Writes L (.block body) us → Writes L (.branches arms rest) vs →
      Writes L (.statement (.ifElse check body arms rest)) (k :: ts ++ us ++ vs)
  | whileLoop {k check body ts us} : k.kind = .whileKeyword → Writes L (.expression 0 check) ts →
      Writes L (.block body) us → Writes L (.statement (.whileLoop check body)) (k :: ts ++ us)
  | expr {e ts} : Writes L (.expression 0 e) ts → Writes L (.statement (.expr e)) ts
  | nil : Writes L (.statements []) []
  | cons {s ss ts us vs} : Writes L (.statement s) ts → L.ending s us vs → Writes L (.statements ss) vs →
      Writes L (.statements (s :: ss)) (ts ++ us ++ vs)

/-! ## Lookahead -/

namespace Token

def continues? (t : Token) : Option Nat :=
  match t.kind with
  | .equals => some 0
  | .openParen => some 8
  | _ => t.logicalRank?.or t.binaryRank?

end Token

def Stops (rank : Nat) (rest : List Token) : Prop := ∀ t ∈ rest.head?, ∀ q ∈ t.continues?, q < rank

theorem Stops.nil (rank : Nat) : Stops rank [] := nofun

theorem Stops.cons {rank : Nat} {t : Token} (h : ∀ q ∈ t.continues?, q < rank) (rest : List Token) :
    Stops rank (t :: rest) := by
  intro u hu
  cases hu
  exact h

def TokenKind.separators : List TokenKind := [.semicolon, .comma, .closeParen, .openBrace, .closeBrace]

theorem Token.continues?_eq_none {t : Token} (h : t.kind ∈ TokenKind.separators) : t.continues? = none := by
  simp only [TokenKind.separators, List.mem_cons, List.not_mem_nil, or_false] at h
  rcases h with h | h | h | h | h <;> simp [continues?, logicalRank?, binaryRank?, h]

theorem Stops.of_separator {t : Token} (h : t.kind ∈ TokenKind.separators) (rank : Nat) (rest : List Token) :
    Stops rank (t :: rest) := Stops.cons (by simp [Token.continues?_eq_none h]) rest

theorem Stops.mono {p q : Nat} (h : p ≤ q) {rest : List Token} (hs : Stops p rest) : Stops q rest :=
  fun t ht r hr => Nat.lt_of_lt_of_le (hs t ht r hr) h

/-! ## Layouts -/

namespace Stmt

def isOpen : Stmt → Bool
  | .declare .. | .expr _ => true
  | _ => false

def endsInExpression : Stmt → Bool
  | .declare _ _ (some _) | .expr _ => true
  | _ => false

theorem isOpen_of_endsInExpression {s : Stmt} (h : s.endsInExpression = true) : s.isOpen = true := by
  cases s with
  | declare | expr => rfl
  | _ => cases h

end Stmt

namespace Layout

/-- A semicolon behind every declaration and every expression, none elsewhere, and no types. -/
def rendered : Layout where
  ending s us _ := if s.isOpen then ∃ t, us = [t] ∧ t.kind = .semicolon else us = []
  annotation ts := ts = []

/-- Semicolons and types as one likes, except that a semicolon has to part an expression from what would continue
it. -/
def free : Layout where
  ending s us vs :=
    us = [] ∧ (s.endsInExpression = true → Stops 0 vs) ∨ s.isOpen = true ∧ ∃ t, us = [t] ∧ t.kind = .semicolon
  annotation ts := ts = [] ∨ ∃ t u, ts = [t, u] ∧ t.kind = .colon ∧ u.kind.isTypeName = true

end Layout

namespace Layout

structure Refines (L M : Layout) : Prop where
  ending {s us vs} : L.ending s us vs → M.ending s us vs
  annotation {ts} : L.annotation ts → M.annotation ts

theorem Refines.refl (L : Layout) : L.Refines L := ⟨id, id⟩

theorem rendered_refines_free : rendered.Refines free where
  ending {s us vs} h := by
    by_cases hs : s.isOpen = true
    · exact .inr ⟨hs, (if_pos hs).mp h⟩
    · exact .inl ⟨(if_neg hs).mp h, fun he => absurd (Stmt.isOpen_of_endsInExpression he) hs⟩
  annotation h := .inl h

end Layout

/-! ## First tokens -/

namespace Phrase

def expressionFirsts : List TokenKind := [.number, .string, .identifier, .openParen, .exclamation, .arithmetic]

def statementFirsts : List TokenKind :=
  [.varKeyword, .constKeyword, .finalKeyword, .fnKeyword, .ifKeyword, .whileKeyword] ++ expressionFirsts

def firsts : Phrase → List TokenKind
  | expression .. | arguments _ => expressionFirsts
  | parameters _ => [.identifier]
  | block _ => [.openBrace]
  | branches .. => [.elseKeyword]
  | statement _ | statements _ => statementFirsts

def isList : Phrase → Bool
  | arguments _ | parameters _ | branches .. | statements _ => true
  | _ => false

end Phrase

theorem Writes.first {L : Layout} {phrase : Phrase} {ts : List Token} (h : Writes L phrase ts) :
    ts = [] ∧ phrase.isList = true ∨ ∃ t us, ts = t :: us ∧ t.kind ∈ phrase.firsts := by
  induction h with
  | noArguments | noParameters | noBranch | nil => exact .inl ⟨rfl, rfl⟩
  | number ht | string ht | identifier ht => exact .inr ⟨_, _, rfl, by simp [ht, Phrase.firsts, Phrase.expressionFirsts]⟩
  | group hl => exact .inr ⟨_, _, rfl, by simp [hl, Phrase.firsts, Phrase.expressionFirsts]⟩
  | unary _ ht =>
    refine .inr ⟨_, _, rfl, ?_⟩
    rcases ht with hk | ⟨hk, -⟩ <;> simp [hk, Phrase.firsts, Phrase.expressionFirsts]
  -- everything else begins with a phrase that is not empty
  | call _ _ _ _ _ _ ih | binary _ _ _ _ ih | logical _ _ _ _ ih | assign _ _ _ ih | argument _ ih
  | moreArguments _ _ _ ih =>
    obtain ⟨-, h⟩ | ⟨t, us, rfl, h⟩ := ih
    · cases h
    · exact .inr ⟨t, _, rfl, h⟩
  | parameter ht | moreParameters ht => exact .inr ⟨_, _, rfl, by simp [ht, Phrase.firsts]⟩
  | block hl => exact .inr ⟨_, _, rfl, by simp [hl, Phrase.firsts]⟩
  | otherwise ht | elseIf ht => exact .inr ⟨_, _, rfl, by simp [ht, Phrase.firsts]⟩
  | plain hk | function hk | ifElse hk | whileLoop hk =>
    exact .inr ⟨_, _, rfl, by simp [hk, Phrase.firsts, Phrase.statementFirsts]⟩
  | @declare k _ _ kind _ _ _ hk =>
    refine .inr ⟨_, _, rfl, ?_⟩
    unfold Token.declKind? at hk
    split at hk <;> simp_all [Phrase.firsts, Phrase.statementFirsts]
  | expr _ ih =>
    obtain ⟨-, h⟩ | ⟨t, us, rfl, h⟩ := ih
    · cases h
    · exact .inr ⟨t, _, rfl, List.mem_append_right _ h⟩
  | cons _ _ _ ih =>
    obtain ⟨-, h⟩ | ⟨t, us, rfl, h⟩ := ih
    · cases h
    · exact .inr ⟨t, _, rfl, h⟩

theorem Writes.exists_cons {L : Layout} {phrase : Phrase} {ts : List Token} (h : Writes L phrase ts)
    (hp : phrase.isList = false) : ∃ t us, ts = t :: us ∧ t.kind ∈ phrase.firsts := by
  obtain ⟨-, hl⟩ | hcons := h.first
  · rw [hp] at hl
    cases hl
  · exact hcons

theorem Writes.head_mem_firsts {L : Layout} {phrase : Phrase} {ts : List Token} (h : Writes L phrase ts) {t : Token}
    (ht : t ∈ ts.head?) : t.kind ∈ phrase.firsts := by
  obtain ⟨rfl, -⟩ | ⟨u, us, rfl, hu⟩ := h.first
  · cases ht
  · cases ht
    exact hu

end BlockScript
