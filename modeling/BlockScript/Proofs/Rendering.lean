import BlockScript.Proofs.Reading

/-!
# Parsing undoes rendering

Every tree that the language can express has a rendering, and each of its
renderings, with as few parentheses as the ranks of the operators allow or with
more, is parsed to that very tree.
-/

namespace BlockScript

/-! ## Whole programs -/

theorem Writes.kind_ne_endOfInput {L : Layout} (hL : L.Refines .free) {phrase : Phrase} {ts : List Token}
    (h : Writes L phrase ts) : ∀ t ∈ ts, t.kind ≠ .endOfInput := by
  have hann : ∀ {ts}, L.annotation ts → ∀ t ∈ ts, t.kind ≠ .endOfInput := by
    intro ts ha
    obtain rfl | ⟨t, u, rfl, ht, hu⟩ := hL.annotation ha
    · nofun
    · have : u.kind ≠ .endOfInput := fun hk => by rw [hk] at hu; cases hu
      simp [ht, this]
  have hend : ∀ {s us vs}, L.ending s us vs → ∀ t ∈ us, t.kind ≠ .endOfInput := by
    intro s us vs he
    obtain ⟨rfl, -⟩ | ⟨-, t, rfl, ht⟩ := hL.ending he
    · nofun
    · simp [ht]
  induction h with
  | unary _ ht => grind [Token.isSign]
  | binary _ ht => grind [Token.binaryRank?]
  | logical _ ht => grind [Token.logicalRank?]
  | declare hk => grind [Token.declKind?]
  | _ => grind

theorem Parse.body_append {ts rest : List Token} (hts : ∀ t ∈ ts, t.kind ≠ .endOfInput)
    (hrest : ∀ t ∈ rest.head?, t.kind = .endOfInput) : body (ts ++ rest) = ts := by
  have hend : rest.takeWhile (fun t => !isEnd t) = [] := by
    cases rest with
    | nil => rfl
    | cons t rest => simp [isEnd, hrest t rfl]
  have hall : ∀ t ∈ ts, (!isEnd t) = true := fun t ht => by simp [isEnd, hts t ht]
  rw [body, List.takeWhile_append_of_pos hall, hend, List.append_nil]

theorem Program.ofTokens_of_writes {L : Layout} (hL : L.Refines .free) {program : Program} {ts rest : List Token}
    (h : Writes L (.statements program) ts) (hrest : ∀ t ∈ rest.head?, t.kind = .endOfInput) :
    Program.ofTokens (ts ++ rest) = .ok program := by
  obtain ⟨-, hread⟩ := h.readBack hL ts.length ts.length (Nat.le_refl _) (Nat.le_refl _)
  simp only [Program.ofTokens, Parse.body_append (h.kind_ne_endOfInput hL) hrest, hread]

/-! ## Trees that can be written -/

namespace Expr

mutual

/-- Numbers have a numeral, operators stand where they belong, and no call has more arguments than fit. -/
def Expressible : Expr → Prop
  | .number x => ∃ lexeme, Numeral.read? lexeme = some x
  | .string _ | .identifier _ => True
  | .assign _ e => e.Expressible
  | .binary t left right => t.binaryRank?.isSome = true ∧ left.Expressible ∧ right.Expressible
  | .logical t left right => t.logicalRank?.isSome = true ∧ left.Expressible ∧ right.Expressible
  | .unary t e => t.isSign ∧ e.Expressible
  | .call callee es => callee.Expressible ∧ AllExpressible es ∧ es.length ≤ 255
  | .missing | .foreign _ => False

def AllExpressible : List Expr → Prop
  | [] => True
  | e :: es => e.Expressible ∧ AllExpressible es

end

end Expr

namespace Stmt

mutual

def Expressible : Stmt → Prop
  | .declare kind _ none => kind = .var
  | .declare kind _ (some e) => kind ≠ .unnamed ∧ e.Expressible
  | .function _ names body => names.length ≤ 255 ∧ AllExpressible body
  | .ifElse check body arms otherwise =>
    check.Expressible ∧ AllExpressible body ∧ ArmsExpressible arms ∧ ElseExpressible otherwise
  | .whileLoop check body => check.Expressible ∧ AllExpressible body
  | .expr e => e.Expressible
  | .program _ | .missing | .foreign _ => False

def AllExpressible : List Stmt → Prop
  | [] => True
  | s :: ss => s.Expressible ∧ AllExpressible ss

def ArmsExpressible : List (Expr × List Stmt) → Prop
  | [] => True
  | (check, body) :: arms => check.Expressible ∧ AllExpressible body ∧ ArmsExpressible arms

def ElseExpressible : Option (List Stmt) → Prop
  | none => True
  | some body => AllExpressible body

end

end Stmt

def Program.Expressible (program : Program) : Prop := Stmt.AllExpressible program

def Token.bare (kind : TokenKind) : Token := ⟨kind, [], .nowhere⟩

def Token.named (name : Name) : Token := ⟨.identifier, name, .nowhere⟩

theorem Writes.exists_grouped {L : Layout} {e : Expr} {ts : List Token} (h : Writes L (.expression 0 e) ts) (p : Nat) :
    ∃ us, Writes L (.expression p e) us :=
  ⟨_, .group (l := .bare .openParen) (r := .bare .closeParen) rfl h rfl⟩

mutual

theorem Expr.exists_writes : ∀ {e : Expr}, e.Expressible → ∀ p, ∃ ts, Writes .rendered (.expression p e) ts
  | .number x, h, p => by
    obtain ⟨lexeme, hx⟩ := h
    exact ⟨_, .number (t := ⟨.number, lexeme, .nowhere⟩) rfl hx⟩
  | .string s, _, p => ⟨_, .string (t := ⟨.string, s, .nowhere⟩) rfl⟩
  | .identifier name, _, p => ⟨_, .identifier (t := .named name) rfl⟩
  | .assign name e, h, p => by
    have he : e.Expressible := h
    obtain ⟨us, hus⟩ := Expr.exists_writes he 0
    exact Writes.exists_grouped (.assign (t := .bare .equals) (.identifier (t := .named name) rfl) rfl hus) p
  | .binary t left right, h, p => by
    obtain ⟨ht, hleft, hright⟩ := h
    obtain ⟨q, hq⟩ := Option.isSome_iff_exists.mp ht
    obtain ⟨ts, hts⟩ := Expr.exists_writes hleft q
    obtain ⟨us, hus⟩ := Expr.exists_writes hright (q + 1)
    exact Writes.exists_grouped (.binary (Nat.zero_le q) hq hts hus) p
  | .logical t left right, h, p => by
    obtain ⟨ht, hleft, hright⟩ := h
    obtain ⟨q, hq⟩ := Option.isSome_iff_exists.mp ht
    obtain ⟨ts, hts⟩ := Expr.exists_writes hleft q
    obtain ⟨us, hus⟩ := Expr.exists_writes hright (q + 1)
    exact Writes.exists_grouped (.logical (Nat.zero_le q) hq hts hus) p
  | .unary t e, h, p => by
    obtain ⟨ht, he⟩ := h
    obtain ⟨ts, hts⟩ := Expr.exists_writes he 7
    exact Writes.exists_grouped (.unary (Nat.zero_le 7) ht hts) p
  | .call callee es, h, p => by
    obtain ⟨hcallee, hes, hlen⟩ := h
    obtain ⟨ts, hts⟩ := Expr.exists_writes hcallee 8
    obtain ⟨us, hus⟩ := Expr.exists_writes_arguments hes
    exact Writes.exists_grouped
      (.call (l := .bare .openParen) (r := .bare .closeParen) (Nat.zero_le 8) hts rfl hus hlen rfl) p

theorem Expr.exists_writes_arguments :
    ∀ {es : List Expr}, Expr.AllExpressible es → ∃ ts, Writes .rendered (.arguments es) ts
  | [], _ => ⟨[], .noArguments⟩
  | [e], h => by
    obtain ⟨ts, hts⟩ := Expr.exists_writes h.1 0
    exact ⟨ts, .argument hts⟩
  | e :: f :: es, h => by
    obtain ⟨ts, hts⟩ := Expr.exists_writes h.1 0
    obtain ⟨us, hus⟩ := Expr.exists_writes_arguments h.2
    exact ⟨_, .moreArguments (t := .bare .comma) hts rfl hus⟩

end

theorem exists_writes_parameters : ∀ names : List Name, ∃ ts, Writes .rendered (.parameters names) ts
  | [] => ⟨[], .noParameters⟩
  | [name] => ⟨_, .parameter (t := .named name) rfl rfl⟩
  | name :: n :: names => by
    obtain ⟨ts, hts⟩ := exists_writes_parameters (n :: names)
    exact ⟨_, .moreParameters (t := .named name) (c := .bare .comma) rfl rfl rfl hts⟩

theorem Layout.exists_ending (s : Stmt) (vs : List Token) : ∃ us, rendered.ending s us vs := by
  by_cases hs : s.isOpen = true
  · exact ⟨[.bare .semicolon], (if_pos hs).mpr ⟨_, rfl, rfl⟩⟩
  · exact ⟨[], (if_neg hs).mpr rfl⟩

mutual

theorem Stmt.exists_writes : ∀ {s : Stmt}, s.Expressible → ∃ ts, Writes .rendered (.statement s) ts
  | .declare kind name none, h => by
    obtain rfl : kind = .var := h
    exact ⟨_, .plain (k := .bare .varKeyword) (t := .named name) rfl rfl rfl⟩
  | .declare kind name (some e), h => by
    obtain ⟨hkind, he⟩ := h
    obtain ⟨us, hus⟩ := Expr.exists_writes he 0
    obtain ⟨k, hk⟩ : ∃ k : Token, k.declKind? = some kind := by
      cases kind with
      | var => exact ⟨.bare .varKeyword, rfl⟩
      | const => exact ⟨.bare .constKeyword, rfl⟩
      | final => exact ⟨.bare .finalKeyword, rfl⟩
      | unnamed => exact absurd rfl hkind
    exact ⟨_, .declare (t := .named name) (q := .bare .equals) hk rfl rfl rfl hus⟩
  | .function name names body, h => by
    obtain ⟨hlen, hbody⟩ := h
    obtain ⟨ts, hts⟩ := exists_writes_parameters names
    obtain ⟨vs, hvs⟩ := Stmt.exists_writes_block hbody
    exact ⟨_, .function (k := .bare .fnKeyword) (t := .named name) (l := .bare .openParen)
      (r := .bare .closeParen) rfl rfl rfl hts hlen rfl rfl hvs⟩
  | .ifElse check body arms otherwise, h => by
    obtain ⟨hcheck, hbody, harms, helse⟩ := h
    obtain ⟨ts, hts⟩ := Expr.exists_writes hcheck 0
    obtain ⟨us, hus⟩ := Stmt.exists_writes_block hbody
    obtain ⟨vs, hvs⟩ := Stmt.exists_writes_branches harms (Stmt.exists_writes_else helse)
    exact ⟨_, .ifElse (k := .bare .ifKeyword) rfl hts hus hvs⟩
  | .whileLoop check body, h => by
    obtain ⟨hcheck, hbody⟩ := h
    obtain ⟨ts, hts⟩ := Expr.exists_writes hcheck 0
    obtain ⟨us, hus⟩ := Stmt.exists_writes_block hbody
    exact ⟨_, .whileLoop (k := .bare .whileKeyword) rfl hts hus⟩
  | .expr e, h => by
    have he : e.Expressible := h
    obtain ⟨ts, hts⟩ := Expr.exists_writes he 0
    exact ⟨ts, .expr hts⟩

theorem Stmt.exists_writes_all :
    ∀ {ss : List Stmt}, Stmt.AllExpressible ss → ∃ ts, Writes .rendered (.statements ss) ts
  | [], _ => ⟨[], .nil⟩
  | s :: ss, h => by
    obtain ⟨ts, hts⟩ := Stmt.exists_writes h.1
    obtain ⟨vs, hvs⟩ := Stmt.exists_writes_all h.2
    obtain ⟨us, hus⟩ := Layout.exists_ending s vs
    exact ⟨_, .cons hts hus hvs⟩

theorem Stmt.exists_writes_block {body : List Stmt} (h : Stmt.AllExpressible body) :
    ∃ ts, Writes .rendered (.block body) ts := by
  obtain ⟨ts, hts⟩ := Stmt.exists_writes_all h
  exact ⟨_, .block (l := .bare .openBrace) (r := .bare .closeBrace) rfl hts rfl⟩

theorem Stmt.exists_writes_else :
    ∀ {otherwise : Option (List Stmt)}, Stmt.ElseExpressible otherwise →
      ∃ ts, Writes .rendered (.branches [] otherwise) ts
  | none, _ => ⟨[], .noBranch⟩
  | some body, h => by
    obtain ⟨ts, hts⟩ := Stmt.exists_writes_block h
    exact ⟨_, .otherwise (t := .bare .elseKeyword) rfl hts⟩

theorem Stmt.exists_writes_branches {otherwise : Option (List Stmt)} :
    ∀ {arms : List (Expr × List Stmt)}, Stmt.ArmsExpressible arms →
      (∃ ts, Writes .rendered (.branches [] otherwise) ts) → ∃ ts, Writes .rendered (.branches arms otherwise) ts
  | [], _, helse => helse
  | (check, body) :: arms, h, helse => by
    obtain ⟨hcheck, hbody, harms⟩ := h
    obtain ⟨ts, hts⟩ := Expr.exists_writes hcheck 0
    obtain ⟨us, hus⟩ := Stmt.exists_writes_block hbody
    obtain ⟨vs, hvs⟩ := Stmt.exists_writes_branches harms helse
    exact ⟨_, .elseIf (t := .bare .elseKeyword) (u := .bare .ifKeyword) rfl rfl hts hus hvs⟩

end

/-- Every expressible program has a rendering, and every rendering of it is parsed to exactly that program. What comes
behind the first mark for the end of input, or the lack of such a mark, makes no difference. -/
theorem ofTokens_rendered {program : Program} (h : program.Expressible) :
    (∃ ts, Writes .rendered (.statements program) ts) ∧
      ∀ ts rest, Writes .rendered (.statements program) ts → (∀ t ∈ rest.head?, t.kind = .endOfInput) →
        Program.ofTokens (ts ++ rest) = .ok program :=
  ⟨Stmt.exists_writes_all h, fun _ _ hts hrest => Program.ofTokens_of_writes Layout.rendered_refines_free hts hrest⟩

theorem Numeral.read?_one_isSome : (read? (ascii "1")).isSome = true := rfl

def Numeral.one : Float := (read? (ascii "1")).get read?_one_isSome

def Token.one : Token := ⟨.number, ascii "1", .nowhere⟩

theorem Token.read?_one : Numeral.read? one.lexeme = some Numeral.one := (Option.some_get _).symm

/-- `x = -f(a, (b)) - (c - 1) * e or !y; if (x) { var z; } else { const k = s; }` with its tree. -/
def crowded : Program × List Token :=
  let minus : Token := ⟨.arithmetic, ascii "-", .nowhere⟩
  let star : Token := ⟨.arithmetic, ascii "*", .nowhere⟩
  let name (c : String) : Token := .named (ascii c)
  let read (c : String) : Expr := .identifier (ascii c)
  let difference : Expr := .binary minus (.unary minus (.call (read "f") [read "a", read "b"]))
    (.binary star (.binary minus (read "c") (.number Numeral.one)) (read "e"))
  ([.expr (.assign (ascii "x") (.logical (.bare .or) difference (.unary (.bare .exclamation) (read "y")))),
    .ifElse (read "x") [.declare .var (ascii "z") none] [] (some [.declare .const (ascii "k") (some (read "s"))])],
   [name "x", .bare .equals, minus, name "f", .bare .openParen, name "a", .bare .comma, .bare .openParen, name "b",
    .bare .closeParen, .bare .closeParen, minus, .bare .openParen, name "c", minus, .one, .bare .closeParen, star,
    name "e", .bare .or, .bare .exclamation, name "y", .bare .semicolon,
    .bare .ifKeyword, .bare .openParen, name "x", .bare .closeParen, .bare .openBrace, .bare .varKeyword, name "z",
    .bare .semicolon, .bare .closeBrace, .bare .elseKeyword, .bare .openBrace, .bare .constKeyword, name "k",
    .bare .equals, name "s", .bare .semicolon, .bare .closeBrace])

theorem writes_crowded : Writes .rendered (.statements crowded.1) crowded.2 := by
  have hread : ∀ p name, Writes .rendered (.expression p (.identifier name)) [.named name] :=
    fun _ name => .identifier (t := .named name) rfl
  have hsemi : ∀ {s vs}, s.isOpen = true → Layout.rendered.ending s [.bare .semicolon] vs :=
    fun hs => (if_pos hs).mpr ⟨_, rfl, rfl⟩
  have hnone : ∀ {s vs}, s.isOpen = false → Layout.rendered.ending s [] vs :=
    fun hs => (if_neg (by simp [hs])).mpr rfl
  have hcall := Writes.unary (p := 5) (t := ⟨.arithmetic, ascii "-", .nowhere⟩) (by decide) (.inr ⟨rfl, rfl⟩)
    (.call (p := 7) (l := .bare .openParen) (r := .bare .closeParen) (by decide) (hread 8 (ascii "f")) rfl
      (.moreArguments (t := .bare .comma) (hread 0 (ascii "a")) rfl
        (.argument (.group (l := .bare .openParen) (r := .bare .closeParen) rfl (hread 0 (ascii "b")) rfl)))
      (by decide) rfl)
  have hproduct := Writes.binary (p := 6) (q := 6) (t := ⟨.arithmetic, ascii "*", .nowhere⟩) (by decide) (by decide)
    (.group (l := .bare .openParen) (r := .bare .closeParen) rfl
      (.binary (p := 0) (q := 5) (t := ⟨.arithmetic, ascii "-", .nowhere⟩) (by decide) (by decide)
        (hread 5 (ascii "c")) (.number (t := .one) rfl Token.read?_one)) rfl)
    (hread 7 (ascii "e"))
  have hdisjunction := Writes.logical (p := 0) (q := 1) (t := .bare .or) (by decide) (by decide)
    (.binary (p := 1) (q := 5) (t := ⟨.arithmetic, ascii "-", .nowhere⟩) (by decide) (by decide) hcall hproduct)
    (.unary (p := 2) (t := .bare .exclamation) (by decide) (.inl rfl) (hread 7 (ascii "y")))
  have hassign := Writes.expr (.assign (t := .bare .equals) (hread 1 (ascii "x")) rfl hdisjunction)
  have hthen := Writes.block (l := .bare .openBrace) (r := .bare .closeBrace) rfl
    (.cons (.plain (k := .bare .varKeyword) (t := .named (ascii "z")) rfl rfl rfl) (hsemi rfl) .nil) rfl
  have helse := Writes.block (l := .bare .openBrace) (r := .bare .closeBrace) rfl
    (.cons (.declare (k := .bare .constKeyword) (t := .named (ascii "k")) (q := .bare .equals) rfl rfl rfl rfl
      (hread 0 (ascii "s"))) (hsemi rfl) .nil) rfl
  have hif := Writes.ifElse (k := .bare .ifKeyword) rfl
    (.group (l := .bare .openParen) (r := .bare .closeParen) rfl (hread 0 (ascii "x")) rfl) hthen
    (.otherwise (t := .bare .elseKeyword) rfl helse)
  exact .cons hassign (hsemi rfl) (.cons hif (hnone rfl) .nil)

theorem ofTokens_crowded :
    Program.Expressible crowded.1 ∧ Writes .rendered (.statements crowded.1) crowded.2 ∧
      Program.ofTokens (crowded.2 ++ [.endOfInput .start]) = .ok crowded.1 := by
  have hexpressible : Program.Expressible crowded.1 := by
    refine ⟨⟨rfl, ⟨rfl, ⟨.inr ⟨rfl, rfl⟩, trivial, ⟨trivial, trivial, trivial⟩, by decide⟩, ?_⟩, .inl rfl, trivial⟩, ?_,
      trivial⟩
    · exact ⟨rfl, ⟨rfl, trivial, _, Token.read?_one⟩, trivial⟩
    · exact ⟨trivial, ⟨rfl, trivial⟩, trivial, ⟨nofun, trivial⟩, trivial⟩
  exact ⟨hexpressible, writes_crowded,
    (ofTokens_rendered hexpressible).2 _ _ writes_crowded (by intro t ht; cases ht; rfl)⟩

end BlockScript
