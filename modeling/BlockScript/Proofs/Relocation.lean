import BlockScript.Proofs.Grammar
import BlockScript.Proofs.ScanLines
import BlockScript.Proofs.Transcription

/-!
# Moving tokens

Trees keep the tokens of their operators, with the positions these were read
at. To move a tree is to give all of them other positions. The grammar does not
look at positions, so a tree is written with moved tokens exactly where it is
moved itself.
-/

namespace BlockScript

namespace Transcription

def moved (f : Position → Position) : Transcription where
  name := id
  operator := Token.move f
  connective := Token.move f
  kind := id
  name_inj h := h
  lexeme_operator _ := rfl
  meaning_connective _ := rfl
  lexeme_connective _ := rfl
  isConstant_kind _ := rfl

def unplaced : Transcription := moved fun _ => .nowhere

theorem halt_moved (f : Position → Position) (halt : Halt) : (moved f).halt halt = halt :=
  halt_eq_self (moved f) (fun _ => rfl) halt

/-! ## Moving twice -/

section

variable (f g : Position → Position)

@[simp] theorem name_moved : (moved f).name = id := rfl

@[simp] theorem kind_moved : (moved f).kind = id := rfl

@[simp] theorem operator_moved (t : Token) : (moved f).operator t = t.move f := rfl

@[simp] theorem connective_moved (t : Token) : (moved f).connective t = t.move f := rfl

@[simp] theorem move_move (t : Token) : (t.move f).move g = t.move (g ∘ f) := rfl

mutual

theorem expr_moved : ∀ e : Expr, (moved g).expr ((moved f).expr e) = (moved (g ∘ f)).expr e
  | .number _ | .string _ | .identifier _ | .missing | .foreign _ => by simp [expr]
  | .assign _ value => by simp [expr, expr_moved value]
  | .binary _ left right | .logical _ left right => by simp [expr, expr_moved left, expr_moved right]
  | .unary _ operand => by simp [expr, expr_moved operand]
  | .call callee arguments => by simp [expr, expr_moved callee, exprs_moved arguments]

theorem exprs_moved : ∀ es : List Expr, (moved g).exprs ((moved f).exprs es) = (moved (g ∘ f)).exprs es
  | [] => by simp [exprs]
  | e :: es => by simp [exprs, expr_moved e, exprs_moved es]

end

mutual

theorem stmt_moved : ∀ s : Stmt, (moved g).stmt ((moved f).stmt s) = (moved (g ∘ f)).stmt s
  | .program body => by simp [stmt, block_moved body]
  | .declare _ _ none => by simp [stmt]
  | .declare _ _ (some e) => by simp [stmt, expr_moved f g e]
  | .function _ _ body => by simp [stmt, block_moved body]
  | .ifElse check body elseIfs rest => by
    simp [stmt, expr_moved f g check, block_moved body, arms_moved elseIfs, otherwise_moved rest]
  | .whileLoop check body => by simp [stmt, expr_moved f g check, block_moved body]
  | .expr e => by simp [stmt, expr_moved f g e]
  | .missing | .foreign _ => by simp [stmt]

theorem block_moved : ∀ ss : List Stmt, (moved g).block ((moved f).block ss) = (moved (g ∘ f)).block ss
  | [] => by simp [block]
  | s :: ss => by simp [block, stmt_moved s, block_moved ss]

theorem arms_moved : ∀ elseIfs : List (Expr × List Stmt),
    (moved g).arms ((moved f).arms elseIfs) = (moved (g ∘ f)).arms elseIfs
  | [] => by simp [arms]
  | (check, body) :: rest => by simp [arms, expr_moved f g check, block_moved body, arms_moved rest]

theorem otherwise_moved : ∀ rest : Option (List Stmt),
    (moved g).otherwise ((moved f).otherwise rest) = (moved (g ∘ f)).otherwise rest
  | none => by simp [otherwise]
  | some body => by simp [otherwise, block_moved body]

end

end

theorem unplaced_block_moved (f : Position → Position) (body : Block) :
    unplaced.block ((moved f).block body) = unplaced.block body := block_moved f (fun _ => .nowhere) body

end Transcription

/-! ## Writing moved trees -/

section

variable (f : Position → Position)

@[simp] theorem Token.kind_move (t : Token) : (t.move f).kind = t.kind := rfl

theorem Stops.move {rank : Nat} {rest : List Token} (h : Stops rank rest) : Stops rank (rest.map (Token.move f)) := by
  cases rest with
  | nil => exact .nil rank
  | cons t rest => exact .cons (t := t.move f) (h t rfl) _

def Phrase.moved : Phrase → Phrase
  | expression rank e => expression rank ((Transcription.moved f).expr e)
  | arguments es => arguments ((Transcription.moved f).exprs es)
  | parameters names => parameters names
  | block body => block ((Transcription.moved f).block body)
  | branches arms rest => branches ((Transcription.moved f).arms arms) ((Transcription.moved f).otherwise rest)
  | statement s => statement ((Transcription.moved f).stmt s)
  | statements ss => statements ((Transcription.moved f).block ss)

theorem Layout.annotation_move {ts : List Token} (h : Layout.free.annotation ts) :
    Layout.free.annotation (ts.map (Token.move f)) := by
  rcases h with rfl | ⟨t, u, rfl, ht, hu⟩
  · exact .inl rfl
  · exact .inr ⟨t.move f, u.move f, rfl, ht, hu⟩

theorem Layout.ending_move {s : Stmt} {us vs : List Token} (h : Layout.free.ending s us vs) :
    Layout.free.ending ((Transcription.moved f).stmt s) (us.map (Token.move f)) (vs.map (Token.move f)) := by
  have hopen : ((Transcription.moved f).stmt s).isOpen = s.isOpen := by
    cases s <;> simp [Transcription.stmt, Stmt.isOpen]
  have hends : ((Transcription.moved f).stmt s).endsInExpression = s.endsInExpression := by
    cases s with
    | declare kind name value => cases value <;> simp [Transcription.stmt, Stmt.endsInExpression]
    | _ => simp [Transcription.stmt, Stmt.endsInExpression]
  rcases h with ⟨rfl, hstops⟩ | ⟨ho, t, rfl, ht⟩
  · exact .inl ⟨rfl, fun h => (hstops (hends ▸ h)).move f⟩
  · exact .inr ⟨hopen ▸ ho, t.move f, rfl, ht⟩

theorem Writes.moved {phrase : Phrase} {ts : List Token} (h : Writes .free phrase ts) :
    Writes .free (phrase.moved f) (ts.map (Token.move f)) := by
  induction h with
  | number ht hx => exact .number ht hx
  | string ht => exact .string (t := Token.move f _) ht
  | identifier ht => exact .identifier (t := Token.move f _) ht
  | group hl _ hr ih =>
    rw [List.map_append]
    exact .group hl ih hr
  | call hp _ hl _ hlen hr ih ihs =>
    rw [List.map_append, List.map_append]
    exact .call hp ih hl ihs (by rwa [Transcription.exprs_eq_map, List.length_map]) hr
  | unary hp ht _ ih => exact .unary hp ht ih
  | binary hp ht _ _ ih ih' =>
    rw [List.map_append]
    exact .binary hp ht ih ih'
  | logical hp ht _ _ ih ih' =>
    rw [List.map_append]
    exact .logical hp ht ih ih'
  | assign _ ht _ ih ih' =>
    rw [List.map_append]
    exact .assign ih ht ih'
  | noArguments => exact .noArguments
  | argument _ ih => exact .argument ih
  | moreArguments _ ht _ ih ih' =>
    rw [List.map_append]
    exact .moreArguments ih ht ih'
  | noParameters => exact .noParameters
  | parameter ht hann => exact .parameter (t := Token.move f _) ht (Layout.annotation_move f hann)
  | moreParameters ht hann hc _ ih =>
    rw [List.map_append]
    exact .moreParameters (t := Token.move f _) ht (Layout.annotation_move f hann) hc ih
  | block hl _ hr ih =>
    rw [List.map_append]
    exact .block hl ih hr
  | noBranch => exact .noBranch
  | otherwise ht _ ih => exact .otherwise ht ih
  | elseIf ht hu _ _ _ ih ihs ih' =>
    rw [List.map_append, List.map_append]
    exact .elseIf ht hu ih ihs ih'
  | plain hk ht hann => exact .plain (t := Token.move f _) hk ht (Layout.annotation_move f hann)
  | declare hk ht hann hq _ ih =>
    rw [List.map_append]
    exact .declare (t := Token.move f _) hk ht (Layout.annotation_move f hann) hq ih
  | function hk ht hl _ hlen hr hann _ ih ihs =>
    rw [List.map_append, List.map_append, Phrase.moved, Transcription.stmt, Transcription.name_moved, List.map_id]
    exact .function (t := Token.move f _) hk ht hl ih hlen hr (Layout.annotation_move f hann) ihs
  | ifElse hk _ _ _ ih ihs ih' =>
    rw [List.map_append, List.map_append]
    exact .ifElse hk ih ihs ih'
  | whileLoop hk _ _ ih ihs =>
    rw [List.map_append]
    exact .whileLoop hk ih ihs
  | expr _ ih => exact .expr ih
  | nil => exact .nil
  | cons _ hend _ ih ihs =>
    rw [List.map_append, List.map_append]
    exact .cons ih (Layout.ending_move f hend) ihs

end

end BlockScript
