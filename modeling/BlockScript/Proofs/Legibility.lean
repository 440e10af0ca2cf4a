import BlockScript.Proofs.Forms
import BlockScript.Proofs.Literals
import BlockScript.Proofs.ProperRuns

/-!
# The text of a program tells its tree

Texts of trees are not escaped, and names may look like the words that name
constructs. Still no two programs that were parsed have the same text unless
they are the same tree: strings hold no quotes, names and numbers hold neither
blanks nor parentheses, a number begins with a digit and a name with a letter,
and the first word of a list tells the construct.
-/

namespace BlockScript

/-! ## The same tree -/

namespace Expr

mutual

/-- Operators are compared by their lexemes and numbers by their texts. -/
def SameAs : Expr → Expr → Prop
  | .number x, .number y => Decimal.text x = Decimal.text y
  | .string v, .string w => v = w
  | .identifier n, .identifier m => n = m
  | .assign n e, .assign m f => n = m ∧ e.SameAs f
  | .binary t a b, .binary u c d => t.lexeme = u.lexeme ∧ a.SameAs c ∧ b.SameAs d
  | .logical t a b, .logical u c d => t.lexeme = u.lexeme ∧ a.SameAs c ∧ b.SameAs d
  | .unary t e, .unary u f => t.lexeme = u.lexeme ∧ e.SameAs f
  | .call e es, .call f fs => e.SameAs f ∧ AllSame es fs
  | .missing, .missing => True
  | .foreign s, .foreign t => s = t
  | _, _ => False

def AllSame : List Expr → List Expr → Prop
  | [], [] => True
  | e :: es, f :: fs => e.SameAs f ∧ AllSame es fs
  | _, _ => False

end

end Expr

namespace Stmt

mutual

def SameAs : Stmt → Stmt → Prop
  | .program p, .program q => AllSame p q
  | .declare k n none, .declare l m none => k = l ∧ n = m
  | .declare k n (some e), .declare l m (some f) => k = l ∧ n = m ∧ e.SameAs f
  | .function n ps p, .function m qs q => n = m ∧ ps = qs ∧ AllSame p q
  | .ifElse c p as o, .ifElse d q bs o' => c.SameAs d ∧ AllSame p q ∧ ArmsSame as bs ∧ ElseSame o o'
  | .whileLoop c p, .whileLoop d q => c.SameAs d ∧ AllSame p q
  | .expr e, .expr f => e.SameAs f
  | .missing, .missing => True
  | .foreign s, .foreign t => s = t
  | _, _ => False
termination_by structural s => s

def AllSame : List Stmt → List Stmt → Prop
  | [], [] => True
  | s :: ss, t :: ts => s.SameAs t ∧ AllSame ss ts
  | _, _ => False
termination_by structural s => s

def ArmsSame : List (Expr × List Stmt) → List (Expr × List Stmt) → Prop
  | [], [] => True
  | (c, p) :: as, (d, q) :: bs => c.SameAs d ∧ AllSame p q ∧ ArmsSame as bs
  | _, _ => False
termination_by structural s => s

/-- No last branch differs from an empty one. -/
def ElseSame : Option (List Stmt) → Option (List Stmt) → Prop
  | none, none => True
  | some p, some q => AllSame p q
  | _, _ => False
termination_by structural s => s

end

end Stmt

def Program.SameAs (p q : Program) : Prop := Stmt.AllSame p q

/-! ## Trees as forms -/

def parameterForms : List Name → List Form
  | [] => []
  | [n] => [.word n]
  | n :: m :: ns => .word (n ++ ascii ",") :: parameterForms (m :: ns)

abbrev keyword (text : String) : Form := .word (ascii text)

namespace Expr

mutual

def form : Expr → Form
  | .number x => .word (Decimal.text x)
  | .string v => .quoted v
  | .identifier n => .word n
  | .assign n e => .list [keyword "set", .word n, e.form]
  | .binary t a b | .logical t a b => .list [.word t.lexeme, a.form, b.form]
  | .unary t e => .list [.word t.lexeme, e.form]
  | .call e es => .list (keyword "call" :: e.form :: forms es)
  | .missing => .word missingText
  | .foreign type => .word (bracketed type)

def forms : List Expr → List Form
  | [] => []
  | e :: es => e.form :: forms es

end

mutual

theorem text_form : ∀ e : Expr, e.form.text = e.text
  | .number _ | .string _ | .identifier _ | .missing | .foreign _ => rfl
  | .assign n e => by simp [form, text, text_form e]
  | .binary t a b | .logical t a b => by simp [form, text, text_form a, text_form b]
  | .unary t e => by simp [form, text, text_form e]
  | .call e es => by simp [form, text, text_form e, texts_forms es]

theorem texts_forms : ∀ es : List Expr, Form.texts (forms es) = texts es
  | [] => rfl
  | e :: es => by simp [forms, texts, text_form e, texts_forms es]

end

end Expr

namespace Stmt

def scopeForm (statements : List Form) : Form := .list (keyword "scope" :: statements)

mutual

def form : Stmt → Form
  | .program p => .list (keyword "program" :: forms p)
  | .declare k n none => .list [.word k.text, .word n]
  | .declare k n (some e) => .list [.word k.text, .word n, e.form]
  | .function n ps p => .list (keyword "fn" :: .word n :: .list (parameterForms ps) :: forms p)
  | .ifElse c p as o =>
    .list (keyword "if" :: .list [keyword "then", c.form, scopeForm (forms p)] :: (armForms as ++ elseForms o))
  | .whileLoop c p => .list [keyword "while", c.form, scopeForm (forms p)]
  | .expr e => e.form
  | .missing => .word missingText
  | .foreign type => .word (bracketed type)

def forms : List Stmt → List Form
  | [] => []
  | s :: ss => s.form :: forms ss

def armForms : List (Expr × List Stmt) → List Form
  | [] => []
  | (c, p) :: as => .list [keyword "elif", c.form, scopeForm (forms p)] :: armForms as

def elseForms : Option (List Stmt) → List Form
  | none => []
  | some p => [.list [keyword "else", scopeForm (forms p)]]

end

theorem parenthesized_parameters (ps : List Name) :
    parenthesized (Form.texts (parameterForms ps)) = ascii "(" ++ Bytes.join (ascii ", ") ps ++ ascii ")" := by
  have hjoin : Bytes.join (ascii " ") (Form.texts (parameterForms ps)) = Bytes.join (ascii ", ") ps := by
    fun_induction parameterForms ps with
    | case1 => rfl
    | case2 n => rfl
    | case3 n m ns ih =>
      obtain ⟨f, fs, hforms⟩ : ∃ f fs, parameterForms (m :: ns) = f :: fs := by
        cases ns <;> exact ⟨_, _, rfl⟩
      rw [hforms] at ih ⊢
      simp only [Form.texts_cons, Form.text_word, Bytes.join, List.intercalate_cons_cons] at ih ⊢
      rw [ih]
      simp [ascii]
  rw [parenthesized, hjoin]

theorem text_scopeForm {fs : List Form} {ts : List Bytes} (h : Form.texts fs = ts) : (scopeForm fs).text = scope ts := by
  rw [scopeForm, Form.text_list, Form.texts_cons, h]
  rfl

mutual

theorem text_form : ∀ s : Stmt, s.form.text = s.text
  | .missing | .foreign _ => rfl
  | .expr e => e.text_form
  | .declare k n none => by simp [form, text]
  | .declare k n (some e) => by simp [form, text, e.text_form]
  | .program p => by simp [form, text, texts_forms p]
  | .function n ps p => by simp [form, text, texts_forms p, parenthesized_parameters]
  | .ifElse c p as o => by
    simp [form, text, c.text_form, text_scopeForm (texts_forms p), texts_armForms as, texts_elseForms o]
  | .whileLoop c p => by simp [form, text, c.text_form, text_scopeForm (texts_forms p)]

theorem texts_forms : ∀ ss : List Stmt, Form.texts (forms ss) = texts ss
  | [] => rfl
  | s :: ss => by simp [forms, texts, text_form s, texts_forms ss]

theorem texts_armForms : ∀ as : List (Expr × List Stmt), Form.texts (armForms as) = armTexts as
  | [] => rfl
  | (c, p) :: as => by simp [armForms, armTexts, c.text_form, text_scopeForm (texts_forms p), texts_armForms as]

theorem texts_elseForms : ∀ o : Option (List Stmt), Form.texts (elseForms o) = elseTexts o
  | none => rfl
  | some p => by simp [elseForms, elseTexts, text_scopeForm (texts_forms p)]

end

end Stmt

/-! ## Legible trees -/

namespace Source

theorem special_notMem_word {text : Bytes} (h : isWord text = true) : ∀ b ∈ text, b ∉ ascii " ()\"," := by
  intro b hb hspecial
  have hbreaks : (ascii " ()\",").all (fun b => b < 0x80 && !continuesWord (Char.ofNat b.toNat)) = true := by decide
  simp only [List.all_eq_true, Bool.and_eq_true, decide_eq_true_eq, Bool.not_eq_true'] at hbreaks
  obtain ⟨hlt, hstop⟩ := hbreaks b hspecial
  rw [← Utf8.text_glyphs text] at hb
  obtain ⟨g, hg, hbytes⟩ := List.mem_flatMap.mp hb
  have hchar := (Utf8.regular_of_mem_glyphs hg).char_of_mem hbytes hlt
  have hgoes : continuesWord g.char = true := by
    unfold isWord at h
    split at h
    · rename_i first more hglyphs
      simp only [Bool.and_eq_true, List.all_eq_true] at h
      rw [hglyphs] at hg
      rcases List.mem_cons.mp hg with rfl | hg
      · simp [continuesWord, h.1]
      · exact h.2 g hg
    · cases h
  rw [hchar, hstop] at hgoes
  cases hgoes

theorem isDigitByte_of_word {text : Bytes} (h : isWord text = true) :
    ∃ b rest, text = b :: rest ∧ isDigitByte b = false := by
  unfold isWord at h
  split at h
  · rename_i g more hglyphs
    have hread := Utf8.isReading_glyphs text
    rw [hglyphs] at hread
    obtain ⟨b, bs, hbytes⟩ := List.exists_cons_of_ne_nil (hread.bytes_ne_nil List.mem_cons_self)
    refine ⟨b, bs ++ Utf8.text more, by rw [← Utf8.text_glyphs text, hglyphs, Utf8.text_cons, hbytes]; rfl, ?_⟩
    -- a digit in front would be the first character, and that is a letter
    rw [Bool.eq_false_iff]
    intro hdigit
    have hbounds := (isDigitByte_iff b).mp hdigit
    have hchar := (hread.regular List.mem_cons_self).char_of_mem (b := b) (by simp [hbytes])
      (UInt8.lt_iff_toNat_lt.mpr (by simp; omega))
    simp only [Bool.and_eq_true] at h
    have hletter := isDigit_of_letter h.1
    rw [hchar, ← Bool.not_eq_true, isDigit_iff, Utf8.toNat_ofNat (.inl (by omega))] at hletter
    exact hletter hbounds
  · cases h

end Source

namespace Operator

def logicals : List Bytes := [ascii "and", ascii "&&", ascii "or", ascii "||"]

theorem mem_logicals {op : Bytes} (h : (LogicalOp.ofLexeme? op).isSome = true) : op ∈ logicals := by
  unfold LogicalOp.ofLexeme? at h
  split at h
  · grind [logicals]
  · split at h
    · grind [logicals]
    · cases h

end Operator

namespace Expr

mutual

/-- What the lexemes of a source are like, and nothing that no source has. -/
def Legible : Expr → Prop
  | .number x => Decimal.IsUnsigned (Decimal.text x)
  | .string v => 0x22 ∉ v
  | .identifier n => Source.isWord n = true
  | .assign n e => Source.isWord n = true ∧ e.Legible
  | .binary t a b => t.lexeme ∈ Operator.binaries ∧ a.Legible ∧ b.Legible
  | .logical t a b => t.lexeme ∈ Operator.logicals ∧ a.Legible ∧ b.Legible
  | .unary t e => t.lexeme ∈ Operator.unaries ∧ e.Legible
  | .call e es => e.Legible ∧ AllLegible es
  | .missing | .foreign _ => False

def AllLegible : List Expr → Prop
  | [] => True
  | e :: es => e.Legible ∧ AllLegible es

end

end Expr

namespace Stmt

mutual

def Legible : Stmt → Prop
  | .declare k n v => k ≠ .unnamed ∧ Source.isWord n = true ∧ ∀ e ∈ v, e.Legible
  | .function n ps p => Source.isWord n = true ∧ (∀ m ∈ ps, Source.isWord m = true) ∧ AllLegible p
  | .ifElse c p as o => c.Legible ∧ AllLegible p ∧ ArmsLegible as ∧ ElseLegible o
  | .whileLoop c p => c.Legible ∧ AllLegible p
  | .expr e => e.Legible
  | .program _ | .missing | .foreign _ => False

def AllLegible : List Stmt → Prop
  | [] => True
  | s :: ss => s.Legible ∧ AllLegible ss

def ArmsLegible : List (Expr × List Stmt) → Prop
  | [] => True
  | (c, p) :: as => c.Legible ∧ AllLegible p ∧ ArmsLegible as

def ElseLegible : Option (List Stmt) → Prop
  | none => True
  | some p => AllLegible p

end

end Stmt

def Phrase.Legible : Phrase → Prop
  | expression _ e => e.Legible
  | arguments es => Expr.AllLegible es
  | parameters names => ∀ n ∈ names, Source.isWord n = true
  | block p | statements p => Stmt.AllLegible p
  | branches as o => Stmt.ArmsLegible as ∧ Stmt.ElseLegible o
  | statement s => s.Legible

namespace Token

theorem WellFormed.identifier {t : Token} (h : t.WellFormed) (hk : t.kind = .identifier) :
    Source.isWord t.lexeme = true := by
  simp only [WellFormed, hk] at h
  exact h.1

theorem WellFormed.string {t : Token} (h : t.WellFormed) (hk : t.kind = .string) : 0x22 ∉ t.lexeme := by
  simpa only [WellFormed, hk] using h

theorem WellFormed.number {t : Token} (h : t.WellFormed) (hk : t.kind = .number) {x : Float}
    (hx : Numeral.read? t.lexeme = some x) : Decimal.IsUnsigned (Decimal.text x) := by
  simp only [WellFormed, hk] at h
  exact Numeral.isUnsigned_read? h.2 hx

theorem declKind?_ne_unnamed {t : Token} {k : DeclKind} (h : t.declKind? = some k) : k ≠ .unnamed := by
  unfold declKind? at h
  split at h <;> cases h <;> simp

end Token

theorem Writes.legible {phrase : Phrase} {ts : List Token} (h : Writes .free phrase ts)
    (hts : ∀ t ∈ ts, t.WellFormed) : phrase.Legible := by
  induction h with
  | number hk hx => exact (hts _ (by simp)).number hk hx
  | string hk => exact (hts _ (by simp)).string hk
  | identifier hk => exact (hts _ (by simp)).identifier hk
  | unary _ ht => grind [Token.WellFormed.unary, Phrase.Legible, Expr.Legible]
  | binary _ ht => grind [Token.WellFormed.binary, Phrase.Legible, Expr.Legible]
  | logical _ ht => grind [Token.WellFormed.logical, Operator.mem_logicals, Phrase.Legible, Expr.Legible]
  | _ =>
    grind [Phrase.Legible, Expr.Legible, Expr.AllLegible, Stmt.Legible, Stmt.AllLegible, Stmt.ArmsLegible,
      Stmt.ElseLegible, Token.WellFormed.identifier, Token.declKind?_ne_unnamed]

/-! ### Their forms can be read -/

namespace Form

theorem readable_number {t : Bytes} (h : Decimal.IsUnsigned t) : (word t).Readable := by
  obtain ⟨⟨b, hb, -⟩, hall⟩ := h
  refine isBare_iff.mpr ⟨List.ne_nil_of_mem (List.mem_of_mem_head? hb), fun c hc => ?_⟩
  rcases hall c hc with hdigit | rfl
  · have hspecial : (ascii " ()\"").all (fun c => !Source.isDigitByte c) = true := by decide
    simp only [List.all_eq_true, Bool.not_eq_true'] at hspecial
    grind [isPlain]
  · rfl

theorem readable_name {t : Bytes} (h : Source.isWord t = true) : (word t).Readable := by
  obtain ⟨b, rest, rfl, -⟩ := Source.isDigitByte_of_word h
  refine isBare_iff.mpr ⟨by simp, fun c hc => ?_⟩
  have hspecial := Source.special_notMem_word h c hc
  have hcomma : ascii " ()\"," = ascii " ()\"" ++ ascii "," := rfl
  grind [isPlain]

theorem readable_parameters : ∀ {ps : List Name}, (∀ n ∈ ps, Source.isWord n = true) → AllReadable (parameterForms ps)
  | [], _ => trivial
  | [n], h => ⟨readable_name (h n (by simp)), trivial⟩
  | n :: m :: ns, h => by
    obtain ⟨hne, hplain⟩ := isBare_iff.mp (readable_name (h n (by simp)))
    refine ⟨isBare_iff.mpr ⟨by simp [hne], ?_⟩, readable_parameters fun k hk => h k (List.mem_cons_of_mem _ hk)⟩
    intro b hb
    rcases List.mem_append.mp hb with hb | hb
    · exact hplain b hb
    · rw [List.mem_singleton.mp hb]
      rfl

theorem readable_operator : ∀ op ∈ Operator.binaries ++ Operator.logicals ++ Operator.unaries, isBare op = true := by
  decide

end Form

mutual

theorem Expr.readable_form : ∀ {e : Expr}, e.Legible → e.form.Readable
  | .number _, h => Form.readable_number h
  | .string _, h => h
  | .identifier _, h => Form.readable_name h
  | .assign _ _, h => ⟨rfl, Form.readable_name h.1, readable_form h.2, trivial⟩
  | .binary _ _ _, h => ⟨Form.readable_operator _ (by simp [h.1]), readable_form h.2.1, readable_form h.2.2, trivial⟩
  | .logical _ _ _, h => ⟨Form.readable_operator _ (by simp [h.1]), readable_form h.2.1, readable_form h.2.2, trivial⟩
  | .unary _ _, h => ⟨Form.readable_operator _ (by simp [h.1]), readable_form h.2, trivial⟩
  | .call _ _, h => ⟨rfl, readable_form h.1, readable_forms h.2⟩

theorem Expr.readable_forms : ∀ {es : List Expr}, AllLegible es → Form.AllReadable (forms es)
  | [], _ => trivial
  | _ :: _, h => ⟨readable_form h.1, readable_forms h.2⟩

end

namespace Stmt

theorem readable_kind : ∀ k : DeclKind, (Form.word k.text).Readable
  | .var | .const | .final | .unnamed => rfl

mutual

theorem readable_form : ∀ {s : Stmt}, s.Legible → s.form.Readable
  | .declare k _ none, h => ⟨readable_kind k, Form.readable_name h.2.1, trivial⟩
  | .declare k _ (some e), h => ⟨readable_kind k, Form.readable_name h.2.1, Expr.readable_form (h.2.2 e rfl), trivial⟩
  | .function _ _ _, h =>
    ⟨rfl, Form.readable_name h.1, Form.readable_parameters h.2.1, readable_forms h.2.2⟩
  | .ifElse _ _ _ _, h =>
    ⟨rfl, ⟨rfl, Expr.readable_form h.1, ⟨rfl, readable_forms h.2.1⟩, trivial⟩,
      (readable_armForms h.2.2.1).append (readable_elseForms h.2.2.2)⟩
  | .whileLoop _ _, h => ⟨rfl, Expr.readable_form h.1, ⟨rfl, readable_forms h.2⟩, trivial⟩
  | .expr _, h => Expr.readable_form h

theorem readable_forms : ∀ {ss : List Stmt}, AllLegible ss → Form.AllReadable (forms ss)
  | [], _ => trivial
  | _ :: _, h => ⟨readable_form h.1, readable_forms h.2⟩

theorem readable_armForms : ∀ {as : List (Expr × List Stmt)}, ArmsLegible as → Form.AllReadable (armForms as)
  | [], _ => trivial
  | (_, _) :: _, h =>
    ⟨⟨rfl, Expr.readable_form h.1, ⟨rfl, readable_forms h.2.1⟩, trivial⟩, readable_armForms h.2.2⟩

theorem readable_elseForms : ∀ {o : Option (List Stmt)}, ElseLegible o → Form.AllReadable (elseForms o)
  | none, _ => trivial
  | some _, h => ⟨⟨rfl, ⟨rfl, readable_forms h⟩, trivial⟩, trivial⟩

end

end Stmt

/-! ## Telling constructs apart -/

namespace Expr

inductive Node where
  | number
  | string
  | identifier
  | assign
  | call
  | binary
  | logical
  | unary
  | unknown
  deriving DecidableEq

def node : Expr → Node
  | .number _ => .number
  | .string _ => .string
  | .identifier _ => .identifier
  | .assign _ _ => .assign
  | .binary _ _ _ => .binary
  | .logical _ _ _ => .logical
  | .unary _ _ => .unary
  | .call _ _ => .call
  | .missing | .foreign _ => .unknown

def Node.ofHead (head : Bytes) (count : Nat) : Node :=
  if head = ascii "set" then .assign
  else if head = ascii "call" then .call
  else if head ∈ Operator.logicals then .logical
  else if head ∈ Operator.unaries ∧ count = 1 then .unary
  else .binary

def Node.ofForm : Form → Node
  | .quoted _ => .string
  | .word t => if t.head?.any Source.isDigitByte then .number else .identifier
  | .list (.word head :: parts) => ofHead head parts.length
  | .list _ => .unknown

theorem Node.ofForm_eq {e : Expr} (h : e.Legible) : ofForm e.form = e.node := by
  have hbinary : ∀ op ∈ Operator.binaries, ofHead op 2 = .binary := by decide
  have hlogical : ∀ op ∈ Operator.logicals, ofHead op 2 = .logical := by decide
  have hunary : ∀ op ∈ Operator.unaries, ofHead op 1 = .unary := by decide
  cases e with
  | number x =>
    obtain ⟨⟨b, hb, hdigit⟩, -⟩ := h
    simp [form, ofForm, node, Option.mem_def.mp hb, hdigit]
  | identifier n =>
    obtain ⟨b, rest, hn, hdigit⟩ := Source.isDigitByte_of_word h
    simp [form, ofForm, node, hn, hdigit]
  | binary t a b => exact hbinary _ h.1
  | logical t a b => exact hlogical _ h.1
  | unary t e => exact hunary _ h.1
  | missing | foreign => exact h.elim
  | _ => rfl

end Expr

namespace Stmt

inductive Node where
  | declare
  | function
  | ifElse
  | whileLoop
  | expr
  | unknown
  deriving DecidableEq

def node : Stmt → Node
  | .declare _ _ _ => .declare
  | .function _ _ _ => .function
  | .ifElse _ _ _ _ => .ifElse
  | .whileLoop _ _ => .whileLoop
  | .expr _ => .expr
  | .program _ | .missing | .foreign _ => .unknown

def Node.ofHead (head : Bytes) : Node :=
  if head ∈ [ascii "var", ascii "const", ascii "final"] then .declare
  else if head = ascii "fn" then .function
  else if head = ascii "if" then .ifElse
  else if head = ascii "while" then .whileLoop
  else .expr

def Node.ofForm : Form → Node
  | .list (.word head :: _) => ofHead head
  | _ => .expr

theorem Node.ofForm_expr {e : Expr} (h : e.Legible) : ofForm e.form = .expr := by
  have hoperator : ∀ op ∈ Operator.binaries ++ Operator.logicals ++ Operator.unaries, ofHead op = .expr := by decide
  cases e with
  | binary t a b => exact hoperator _ (by simp [h.1])
  | logical t a b => exact hoperator _ (by simp [h.1])
  | unary t e => exact hoperator _ (by simp [h.1])
  | _ => rfl

theorem Node.ofForm_eq {s : Stmt} (h : s.Legible) : ofForm s.form = s.node := by
  cases s with
  | declare k n v => cases k <;> cases v <;> rfl
  | expr e => exact ofForm_expr h
  | program | missing | foreign => exact h.elim
  | _ => rfl

end Stmt

/-! ## Trees with the same form -/

theorem parameterForms_inj : ∀ {ps qs : List Name}, (∀ n ∈ ps, Source.isWord n = true) →
    (∀ n ∈ qs, Source.isWord n = true) → parameterForms ps = parameterForms qs → ps = qs
  | [], [], _, _, _ => rfl
  | [n], [m], _, _, h => by simpa [parameterForms] using h
  | n :: n' :: ns, m :: m' :: ms, hp, hq, h => by
    simp only [parameterForms, List.cons.injEq, Form.word.injEq, List.append_cancel_right_eq] at h
    have hrest := parameterForms_inj (fun k hk => hp k (List.mem_cons_of_mem _ hk))
      (fun k hk => hq k (List.mem_cons_of_mem _ hk)) h.2
    rw [h.1, hrest]
  -- only the last word goes without a comma, since names hold none
  | [n], m :: m' :: ms, hp, _, h => by
    simp only [parameterForms, List.cons.injEq, Form.word.injEq] at h
    exact absurd (by decide) (Source.special_notMem_word (hp n (by simp)) 0x2C (by simp [h.1, ascii]))
  | n :: n' :: ns, [m], _, hq, h => by
    simp only [parameterForms, List.cons.injEq, Form.word.injEq] at h
    exact absurd (by decide) (Source.special_notMem_word (hq m (by simp)) 0x2C (by simp [← h.1, ascii]))
  | [], [m], _, _, h | [], m :: m' :: ms, _, _, h => by cases h
  | [n], [], _, _, h | n :: n' :: ns, [], _, _, h => by cases h

theorem DeclKind.text_eq_iff {k l : DeclKind} (hk : k ≠ .unnamed) (hl : l ≠ .unnamed) : k.text = l.text ↔ k = l := by
  revert hk hl
  cases k <;> cases l <;> decide

namespace Expr

theorem SameAs.node_eq {e f : Expr} (h : e.SameAs f) : e.node = f.node := by
  unfold SameAs at h
  split at h
  case h_11 => exact h.elim
  all_goals rfl

theorem node_eq_of_form_eq {e f : Expr} (he : e.Legible) (hf : f.Legible) (h : e.form = f.form) :
    e.node = f.node := by
  rw [← Node.ofForm_eq he, h, Node.ofForm_eq hf]

mutual

theorem form_eq_iff {e f : Expr} (he : e.Legible) (hf : f.Legible) : e.form = f.form ↔ e.SameAs f := by
  -- different constructs are told apart by their forms, so that only pairs of like ones are left
  by_cases hnode : e.node = f.node
  · cases e with
    | number x =>
      cases f with
      | number y => simp [form, SameAs]
      | _ => cases hnode
    | string v =>
      cases f with
      | string w => simp [form, SameAs]
      | _ => cases hnode
    | identifier n =>
      cases f with
      | identifier m => simp [form, SameAs]
      | _ => cases hnode
    | assign n e =>
      cases f with
      | assign m f => simp [form, SameAs, form_eq_iff he.2 hf.2]
      | _ => cases hnode
    | binary t a b =>
      cases f with
      | binary u c d => simp [form, SameAs, form_eq_iff he.2.1 hf.2.1, form_eq_iff he.2.2 hf.2.2]
      | _ => cases hnode
    | logical t a b =>
      cases f with
      | logical u c d => simp [form, SameAs, form_eq_iff he.2.1 hf.2.1, form_eq_iff he.2.2 hf.2.2]
      | _ => cases hnode
    | unary t e =>
      cases f with
      | unary u f => simp [form, SameAs, form_eq_iff he.2 hf.2]
      | _ => cases hnode
    | call e es =>
      cases f with
      | call f fs => simp [form, SameAs, form_eq_iff he.1 hf.1, forms_eq_iff he.2 hf.2]
      | _ => cases hnode
    | missing => exact he.elim
    | foreign type => exact he.elim
  · exact ⟨fun h => absurd (node_eq_of_form_eq he hf h) hnode, fun h => absurd h.node_eq hnode⟩

theorem forms_eq_iff {es fs : List Expr} (he : AllLegible es) (hf : AllLegible fs) :
    forms es = forms fs ↔ AllSame es fs := by
  match es, fs with
  | [], [] => simp [forms, AllSame]
  | [], f :: fs => simp [forms, AllSame]
  | e :: es, [] => simp [forms, AllSame]
  | e :: es, f :: fs => simp [forms, AllSame, form_eq_iff he.1 hf.1, forms_eq_iff he.2 hf.2]

end

end Expr

namespace Stmt

theorem SameAs.node_eq {s t : Stmt} (h : s.SameAs t) : s.node = t.node := by
  unfold SameAs at h
  split at h
  case h_10 => exact h.elim
  all_goals rfl

theorem node_eq_of_form_eq {s t : Stmt} (hs : s.Legible) (ht : t.Legible) (h : s.form = t.form) :
    s.node = t.node := by
  rw [← Node.ofForm_eq hs, h, Node.ofForm_eq ht]

theorem scopeForm_inj {fs gs : List Form} : scopeForm fs = scopeForm gs ↔ fs = gs := by simp [scopeForm]

mutual

theorem form_eq_iff {s t : Stmt} (hs : s.Legible) (ht : t.Legible) : s.form = t.form ↔ s.SameAs t := by
  by_cases hnode : s.node = t.node
  · cases s with
    | declare k n v =>
      cases t with
      | declare l m w =>
        have hkind := DeclKind.text_eq_iff hs.1 ht.1
        cases v with
        | none =>
          cases w with
          | none => simp [form, SameAs, hkind]
          | some f => simp [form, SameAs]
        | some e =>
          cases w with
          | none => simp [form, SameAs]
          | some f => simp [form, SameAs, hkind, Expr.form_eq_iff (hs.2.2 e rfl) (ht.2.2 f rfl)]
      | _ => cases hnode
    | function n ps p =>
      cases t with
      | function m qs q =>
        have hparameters : parameterForms ps = parameterForms qs ↔ ps = qs :=
          ⟨parameterForms_inj hs.2.1 ht.2.1, fun h => h ▸ rfl⟩
        simp [form, SameAs, hparameters, forms_eq_iff hs.2.2 ht.2.2]
      | _ => cases hnode
    | ifElse c p as o =>
      cases t with
      | ifElse d q bs o' =>
        have helse := elseForms_eq_iff hs.2.2.2 ht.2.2.2
        simp [form, SameAs, scopeForm_inj, Expr.form_eq_iff hs.1 ht.1, forms_eq_iff hs.2.1 ht.2.1,
          branchForms_eq_iff hs.2.2.1 ht.2.2.1 helse, and_assoc]
      | _ => cases hnode
    | whileLoop c p =>
      cases t with
      | whileLoop d q => simp [form, SameAs, scopeForm_inj, Expr.form_eq_iff hs.1 ht.1, forms_eq_iff hs.2 ht.2]
      | _ => cases hnode
    | expr e =>
      cases t with
      | expr f => simpa [form, SameAs] using Expr.form_eq_iff hs ht
      | _ => cases hnode
    | program p => exact hs.elim
    | missing => exact hs.elim
    | foreign type => exact hs.elim
  · exact ⟨fun h => absurd (node_eq_of_form_eq hs ht h) hnode, fun h => absurd h.node_eq hnode⟩
termination_by structural s

theorem forms_eq_iff {ss ts : List Stmt} (hs : AllLegible ss) (ht : AllLegible ts) :
    forms ss = forms ts ↔ AllSame ss ts := by
  match ss, ts with
  | [], [] => simp [forms, AllSame]
  | [], t :: ts => simp [forms, AllSame]
  | s :: ss, [] => simp [forms, AllSame]
  | s :: ss, t :: ts => simp [forms, AllSame, form_eq_iff hs.1 ht.1, forms_eq_iff hs.2 ht.2]
termination_by structural ss

theorem branchForms_eq_iff {as bs : List (Expr × List Stmt)} {o o' : Option (List Stmt)} (ha : ArmsLegible as)
    (hb : ArmsLegible bs) (helse : elseForms o = elseForms o' ↔ ElseSame o o') :
    armForms as ++ elseForms o = armForms bs ++ elseForms o' ↔ ArmsSame as bs ∧ ElseSame o o' := by
  match as, bs with
  | [], [] => simpa [armForms, ArmsSame] using helse
  -- a further condition is told from the last branch by its keyword
  | [], (d, q) :: bs =>
    cases o with
    | none => simp [armForms, elseForms, ArmsSame]
    | some p => simp [armForms, elseForms, ArmsSame]
  | (c, p) :: as, [] =>
    cases o' with
    | none => simp [armForms, elseForms, ArmsSame]
    | some q => simp [armForms, elseForms, ArmsSame]
  | (c, p) :: as, (d, q) :: bs =>
    simp [armForms, ArmsSame, scopeForm_inj, Expr.form_eq_iff ha.1 hb.1, forms_eq_iff ha.2.1 hb.2.1,
      branchForms_eq_iff ha.2.2 hb.2.2 helse, and_assoc]
termination_by structural as

theorem elseForms_eq_iff {o o' : Option (List Stmt)} (ho : ElseLegible o) (ho' : ElseLegible o') :
    elseForms o = elseForms o' ↔ ElseSame o o' := by
  match o, o' with
  | none, none => simp [elseForms, ElseSame]
  | none, some q => simp [elseForms, ElseSame]
  | some p, none => simp [elseForms, ElseSame]
  | some p, some q => simp [elseForms, ElseSame, scopeForm_inj, forms_eq_iff ho ho']
termination_by structural o

end

end Stmt

namespace Program

theorem legible_of_ofSource {source terminator : Bytes} {program : Program}
    (h : ofSource source terminator = .ok program) : Stmt.AllLegible program := by
  obtain ⟨ts, q, htokens, -, hwrites⟩ := ofSource_eq_ok h
  have hformed := (Source.cut_of_tokens htokens).wellFormed
  exact hwrites.legible fun t ht => hformed t (List.mem_append_left _ ht)

/-- Two programs that were parsed have the same text iff they are the same tree. -/
theorem text_eq_iff_sameAs {source source' terminator terminator' : Bytes} {p q : Program}
    (hp : ofSource source terminator = .ok p) (hq : ofSource source' terminator' = .ok q) :
    p.text = q.text ↔ p.SameAs q := by
  have hlp := legible_of_ofSource hp
  have hlq := legible_of_ofSource hq
  rw [SameAs, ← Stmt.forms_eq_iff hlp hlq, text, text, ← Stmt.text_form, ← Stmt.text_form]
  constructor
  · intro h
    have hreadable {p : Program} (hl : Stmt.AllLegible p) : (Stmt.program p).form.Readable :=
      ⟨rfl, Stmt.readable_forms hl⟩
    simpa [Stmt.form] using Form.text_injective (hreadable hlp) (hreadable hlq) h
  · intro h
    rw [Stmt.form, h, Stmt.form]

theorem exists_of_both {ε : Type} {x y : Except ε Program} {test : Program → Program → Bool} {verdict : Bool}
    (h : (x.toOption.bind fun p => y.toOption.map (test p)) = some verdict) :
    ∃ p q, x = .ok p ∧ y = .ok q ∧ test p q = verdict := by
  cases x with
  | error e => cases h
  | ok p =>
    cases y with
    | error e => cases h
    | ok q => exact ⟨p, q, rfl, rfl, Option.some.inj h⟩

def haveSameText (p q : Program) : Bool := p.text = q.text

/-- Names that look like constructs, a string that looks like a list, both kinds of minus, an empty last branch. -/
def dense : Bytes :=
  ascii "if call(set,007)\x7bthen=-set-\"(else (x))\"\x7delse\x7b\x7dfn scope(set,then)\x7b9007199254740993\x7d"

def loose : Bytes :=
  ascii "if (call((set), 7)) \x7b (then) = (-set) - \"(else (x))\"; #$ \x7d else \x7b \x7d" ++
  ascii "fn scope(set: number, then) \x7b 9007199254740992; \x7d"

def unanswered : Bytes := ascii "if call \x7b\x7d"

def answered : Bytes := ascii "if call \x7b\x7d else \x7b\x7d"

theorem dense_sameAs_loose :
    (∃ p q, ofSource dense [] = .ok p ∧ ofSource loose (ascii "$") = .ok q ∧ p.text = q.text ∧ p.SameAs q) ∧
    ∃ p q, ofSource unanswered [] = .ok p ∧ ofSource answered [] = .ok q ∧ p.text ≠ q.text ∧ ¬ p.SameAs q := by
  have hdense : ((ofSource dense []).toOption.bind fun p => (ofSource loose (ascii "$")).toOption.map p.haveSameText) =
      some true := by decide +kernel
  have hanswers : ((ofSource unanswered []).toOption.bind fun p => (ofSource answered []).toOption.map p.haveSameText) =
      some false := by decide +kernel
  constructor
  · obtain ⟨p, q, hp, hq, htest⟩ := exists_of_both hdense
    have hsame : p.text = q.text := of_decide_eq_true htest
    exact ⟨p, q, hp, hq, hsame, (text_eq_iff_sameAs hp hq).mp hsame⟩
  · obtain ⟨p, q, hp, hq, htest⟩ := exists_of_both hanswers
    have hdiffer : p.text ≠ q.text := of_decide_eq_false htest
    exact ⟨p, q, hp, hq, hdiffer, fun h => hdiffer ((text_eq_iff_sameAs hp hq).mpr h)⟩

end Program

end BlockScript
