import BlockScript.Proofs.Acceptance
import BlockScript.Proofs.Walk

/-!
# The walk and the parser agree

Wherever a function of the walk starts, the function of the parser that goes by
the same name is given the tokens from there on. Both end alike: with the same
tree and the cursor at the tokens left, or with the same error. A walk that
ends so has not misstepped.

What holds the walk up at the end of the tokens given to the parser is the mark
for the end of input. While no block is open, a keyword that begins a statement
does so just as well.
-/

namespace BlockScript

namespace Walk

open Parse (Parser Failure Level isEnd isUnaryOperator)

variable {body rest tail : List Token} {mark t : Token} {i j lo err limit : Nat} {α β : Type}

/-! ## Places -/

def At (body : List Token) (i : Nat) (rest : List Token) : Prop := ∃ done, body = done ++ rest ∧ done.length = i

theorem At.next (h : At body i (t :: rest)) : At body (i + 1) rest := by
  obtain ⟨done, rfl, rfl⟩ := h
  exact ⟨done ++ [t], by simp, by simp⟩

theorem At.length (h : At body i rest) : i + rest.length = body.length := by
  obtain ⟨done, rfl, rfl⟩ := h
  simp

theorem At.unique {rest' : List Token} (h : At body i rest) (h' : At body i rest') : rest = rest' := by
  obtain ⟨done, rfl, rfl⟩ := h
  obtain ⟨done', heq, hlength⟩ := h'
  exact (List.append_inj heq hlength.symm).2

theorem At.subset (h : At body i rest) : rest ⊆ body := by
  obtain ⟨done, rfl, rfl⟩ := h
  exact List.subset_append_right done rest

theorem At.getElem? (h : At body i rest) (mark : Token) (tail : List Token) :
    (body ++ mark :: tail)[i]? = some (rest.head?.getD mark) := by
  obtain ⟨done, rfl, rfl⟩ := h
  cases rest <;> simp

/-! ## Looking and stepping -/

def keywords : List TokenKind :=
  [.varKeyword, .constKeyword, .finalKeyword, .fnKeyword, .ifKeyword, .whileKeyword]

def barriers : List TokenKind := .endOfInput :: keywords

/-- What holds the parser up at the end of `body`: the mark for the end of input, or else a keyword, if no block is
opened before. -/
structure Barred (body : List Token) (mark : Token) : Prop where
  inside : ∀ t ∈ body, isEnd t = false
  kind : mark.kind ∈ barriers
  blocks : isEnd mark = true ∨ ∀ t ∈ body, t.kind ≠ .openBrace

theorem Barred.not_of_barriers (h : Barred body mark) {p : TokenKind → Bool}
    (hp : barriers.all (fun kind => !p kind) = true) : p mark.kind = false := by
  simpa using List.all_eq_true.1 hp _ h.kind

theorem bind_ok {m : Walk α} {k : α → Walk β} {a : α} (hm : m i = .ok a j) : (m >>= k) i = k a j := by
  show EStateM.bind m k i = _
  simp [EStateM.bind, hm]

theorem tokenAt_of_getElem? {tokens : List Token} {k : Nat} (h : tokens[k]? = some t) :
    tokenAt tokens k i = .ok t i := by
  rw [tokenAt, h]
  rfl

theorem peek_at (h : At body i rest) : peek (body ++ mark :: tail) i = .ok (rest.head?.getD mark) i :=
  tokenAt_of_getElem? (h.getElem? mark tail)

theorem previous_at (h : At body i (t :: rest)) : previous (body ++ mark :: tail) (i + 1) = .ok t (i + 1) :=
  tokenAt_of_getElem? (h.getElem? mark tail)

theorem step_at (hbar : Barred body mark) (h : At body i (t :: rest)) :
    step (body ++ mark :: tail) i = .ok () (i + 1) := by
  have hend : isEnd t = false := hbar.inside t (h.subset List.mem_cons_self)
  rw [step, bind_ok (peek_at h)]
  simp only [List.head?_cons, Option.getD_some, hend, Bool.false_eq_true, if_false]
  rfl

theorem accept_yes (hbar : Barred body mark) (h : At body i (t :: rest)) {p : Token → Bool} (hp : p t = true) :
    accept (body ++ mark :: tail) p i = .ok true (i + 1) := by
  rw [accept, bind_ok (peek_at h)]
  simp only [List.head?_cons, Option.getD_some, hp, if_true]
  rw [bind_ok (step_at hbar h)]
  rfl

theorem accept_no (h : At body i rest) {p : Token → Bool} (hp : p (rest.head?.getD mark) = false) :
    accept (body ++ mark :: tail) p i = .ok false i := by
  rw [accept, bind_ok (peek_at h)]
  simp only [hp, Bool.false_eq_true, if_false]
  rfl

theorem fail_at (h : At body i rest) (cause : ParseCause) :
    (fail (body ++ mark :: tail) cause : Walk α) i = .error (.failed ⟨cause, rest.head?.getD mark, i⟩) i := by
  rw [fail, bind_ok (peek_at h)]
  rfl

theorem failBehind_at (h : At body i (t :: rest)) (cause : ParseCause) :
    (failBehind (body ++ mark :: tail) cause : Walk α) (i + 1) = .error (.failed ⟨cause, t, i⟩) (i + 1) := by
  rw [failBehind, bind_ok (previous_at h)]
  rfl

/-! ## Agreement -/

/-- A walk that ends as parsing does: with the same tree and the cursor on the same tokens, or with the same error.
The cursor is at `lo` at least after a success, the error at `err` at least. -/
def Agrees (body : List Token) (mark : Token) (lo err : Nat) (r : EStateM.Result Stop Nat α) :
    Except Failure (α × List Token) → Prop
  | .ok (a, rest) => ∃ j, r = .ok a j ∧ At body j rest ∧ lo ≤ j
  | .error f => ∃ j k, r = .error (.failed ⟨f.cause, f.site.head?.getD mark, k⟩) j ∧
    At body k f.site ∧ At body j f.rest ∧ err ≤ k ∧ k ≤ j

namespace Agrees

variable {m : Walk α} {k : α → Walk β} {x : Except Failure (α × List Token)} {y : Except Failure (β × List Token)}
  {q : α × List Token → Except Failure (β × List Token)} {a : α} {r : EStateM.Result Stop Nat α}

theorem mono {lo' err' : Nat} (h : Agrees body mark lo err r x) (hlo : lo' ≤ lo) (herr : err' ≤ err) :
    Agrees body mark lo' err' r x := by
  match x, h with
  | .ok (a, rest), ⟨j, hr, hj, hle⟩ => exact ⟨j, hr, hj, by omega⟩
  | .error f, ⟨j, k, hr, hk, hj, hle, hkj⟩ => exact ⟨j, k, hr, hk, hj, by omega, hkj⟩

theorem pure (h : At body i rest) (hlo : lo ≤ i) :
    Agrees body mark lo err ((Pure.pure a : Walk α) i) (.ok (a, rest)) := ⟨i, rfl, h, hlo⟩

theorem fail (h : At body i rest) (herr : err ≤ i) (cause : ParseCause) :
    Agrees body mark lo err ((Walk.fail (body ++ mark :: tail) cause : Walk α) i) (.error (.here cause rest)) :=
  ⟨i, i, fail_at h cause, h, h, herr, Nat.le_refl i⟩

theorem after (hm : m i = .ok a j) (hk : Agrees body mark lo err (k a j) y) :
    Agrees body mark lo err ((m >>= k) i) y := by
  rwa [bind_ok hm]

theorem bind {between start : Nat} (hm : Agrees body mark between start (m i) x) (herr : err ≤ start)
    (hk : ∀ a rest j, x = .ok (a, rest) → At body j rest → between ≤ j →
      Agrees body mark lo err (k a j) (q (a, rest))) :
    Agrees body mark lo err ((m >>= k) i) (x >>= q) := by
  match x, hm with
  | .ok (a, rest), ⟨j, hr, hj, hle⟩ => exact after hr (hk a rest j rfl hj hle)
  | .error f, ⟨j, n, hr, hn, hj, hle, hnj⟩ =>
    refine ⟨j, n, ?_, hn, hj, by omega, hnj⟩
    show EStateM.bind m k i = _
    simp [EStateM.bind, hr]

theorem unique {x' : Except Failure (α × List Token)} (h : Agrees body mark lo err r x)
    (h' : Agrees body mark lo err r x') : x = x' := by
  match x, x', h, h' with
  | .ok (a, rest), .ok (b, rest'), ⟨j, hr, hj, _⟩, ⟨j', hr', hj', _⟩ =>
    cases hr.symm.trans hr'
    rw [hj.unique hj']
  | .ok (a, rest), .error f, ⟨j, hr, _⟩, ⟨j', k', hr', _⟩ => cases hr.symm.trans hr'
  | .error f, .ok (a, rest), ⟨j, k, hr, _⟩, ⟨j', hr', _⟩ => cases hr.symm.trans hr'
  | .error f, .error f', ⟨j, k, hr, hk, hj, _⟩, ⟨j', k', hr', hk', hj', _⟩ =>
    have heq := hr.symm.trans hr'
    obtain ⟨cause, site, left⟩ := f
    obtain ⟨cause', site', left'⟩ := f'
    simp only [EStateM.Result.error.injEq, Stop.failed.injEq, ParseError.mk.injEq] at heq
    obtain ⟨⟨rfl, -, rfl⟩, rfl⟩ := heq
    cases hk.unique hk'
    cases hj.unique hj'
    rfl

end Agrees

/-- A walk that agrees with a parser wherever fewer than `limit` tokens are left. It gets ahead if it succeeds. -/
def Follows (body : List Token) (mark : Token) (limit : Nat) (m : Walk α) (p : Parser α) : Prop :=
  ∀ i rest, At body i rest → rest.length < limit → Agrees body mark (i + 1) i (m i) (p rest)

theorem Follows.shrink {less : Nat} {m : Walk α} {p : Parser α} (h : Follows body mark limit m p)
    (hle : less ≤ limit) : Follows body mark less m p :=
  fun i rest hi hlt => h i rest hi (by omega)

def Enters (body : List Token) (mark : Token) (limit : Nat) (m : Walk α) (p : Parser α) : Prop :=
  ∀ i t rest, At body i (t :: rest) → (t :: rest).length < limit → Agrees body mark (i + 1) i (m i) (p (t :: rest))

/-! ## Single tokens -/

section Parsing

variable (hbar : Barred body mark)

include hbar

theorem Agrees.branch {p : Token → Bool} (hmark : rest = [] → p mark = false) (h : At body i rest)
    {yes no : Walk α} {x : Except Failure (α × List Token)}
    (hyes : ∀ t after, rest = t :: after → p t = true → At body i (t :: after) →
      Agrees body mark lo err (yes (i + 1)) x)
    (hno : (∀ t after, rest = t :: after → p t = false) → Agrees body mark lo err (no i) x) :
    Agrees body mark lo err ((accept (body ++ mark :: tail) p >>= fun b => if b = true then yes else no) i) x := by
  cases rest with
  | nil => exact Agrees.after (accept_no h (hmark rfl)) (hno (by simp))
  | cons t after =>
    cases ht : p t with
    | false => exact Agrees.after (accept_no h ht) (hno (by simp [ht]))
    | true => exact Agrees.after (accept_yes hbar h ht) (hyes t after rfl ht h)

theorem Agrees.branchKind {kind : TokenKind} (hkind : kind ∉ barriers) (h : At body i rest) {yes no : Walk α}
    {x : Except Failure (α × List Token)}
    (hyes : ∀ t after, rest = t :: after → t.kind = kind → At body i (t :: after) →
      Agrees body mark lo err (yes (i + 1)) x)
    (hno : (∀ t after, rest = t :: after → t.kind ≠ kind) → Agrees body mark lo err (no i) x) :
    Agrees body mark lo err
      ((acceptKind (body ++ mark :: tail) kind >>= fun b => if b = true then yes else no) i) x := by
  have hmark : mark.kind ≠ kind := fun heq => hkind (heq ▸ hbar.kind)
  exact Agrees.branch hbar (by simp [hmark]) h (fun t after hrest ht => hyes t after hrest (by simpa using ht))
    fun hne => hno fun t after hrest => by simpa using hne t after hrest

theorem expect_agrees {kind : TokenKind} (hkind : kind ∉ barriers) (cause : ParseCause) (h : At body i rest) :
    Agrees body mark (i + 1) i (expect (body ++ mark :: tail) kind cause i) (Parse.expect kind cause rest) := by
  apply Agrees.branchKind hbar hkind h
  · rintro t after rfl ht h
    rw [Parse.expect, if_pos ht]
    exact ⟨i + 1, previous_at h, h.next, Nat.le_refl _⟩
  · intro hne
    cases rest with
    | nil => exact Agrees.fail h (Nat.le_refl i) cause
    | cons t after =>
      rw [Parse.expect, if_neg (hne t after rfl)]
      exact Agrees.fail h (Nat.le_refl i) cause

theorem semicolon_at (h : At body i rest) :
    ∃ j, semicolon (body ++ mark :: tail) i = .ok () j ∧ At body j (Parse.skipSemicolon rest) ∧ i ≤ j := by
  have hagrees : Agrees body mark i i
      ((acceptKind (body ++ mark :: tail) .semicolon >>= fun b => if b = true then pure () else pure ()) i)
      (.ok ((), Parse.skipSemicolon rest)) := by
    apply Agrees.branchKind hbar (by decide) h
    · rintro t after rfl ht h
      simpa [Parse.skipSemicolon, ht] using Agrees.pure h.next (Nat.le_succ i)
    · intro hne
      have hskip : Parse.skipSemicolon rest = rest := by
        cases rest with
        | nil => rfl
        | cons t after => simp [Parse.skipSemicolon, hne t after rfl]
      simpa [hskip] using Agrees.pure h (Nat.le_refl i)
  simpa [semicolon, Agrees] using hagrees

theorem typeMark_agrees (h : At body i rest) {k : Unit → Walk α}
    {q : List Token → Except Failure (α × List Token)}
    (hk : ∀ after j, At body j after → i ≤ j → Agrees body mark lo i (k () j) (q after)) :
    Agrees body mark lo i ((typeMark (body ++ mark :: tail) >>= k) i) (Parse.skipAnnotation rest >>= q) := by
  have hagrees : Agrees body mark i i (typeMark (body ++ mark :: tail) i)
      ((Parse.skipAnnotation rest).map (((), ·))) := by
    apply Agrees.branchKind hbar (by decide) h
    · rintro t after rfl ht h
      apply Agrees.branch hbar (fun _ => hbar.not_of_barriers (by decide)) h.next
      · rintro u after rfl hu h'
        simpa [Parse.skipAnnotation, ht, hu, Except.map] using Agrees.pure h'.next (by omega)
      · intro hne
        have hskip : Parse.skipAnnotation (t :: after) = .error (.here .expectedType after) := by
          cases after with
          | nil => simp [Parse.skipAnnotation, ht]
          | cons u after => simp [Parse.skipAnnotation, ht, hne u after rfl]
        rw [hskip]
        exact Agrees.fail h.next (Nat.le_succ i) .expectedType
    · intro hne
      have hskip : Parse.skipAnnotation rest = .ok rest := by
        cases rest with
        | nil => rfl
        | cons t after => simp [Parse.skipAnnotation, hne t after rfl]
      rw [hskip]
      exact Agrees.pure h (Nat.le_refl i)
  have heq : (Parse.skipAnnotation rest >>= q) =
      (Parse.skipAnnotation rest).map (((), ·)) >>= fun (x : Unit × List Token) => q x.2 := by
    cases Parse.skipAnnotation rest <;> rfl
  rw [heq]
  exact hagrees.bind (Nat.le_refl i) fun _ after j _ hj hle => hk after j hj hle

/-! ## Lists between parentheses -/

theorem commaSeparated_agrees {item : Walk α} {item' : Parser α} (hitem : Follows body mark limit item item')
    (tooMany : ParseCause) (room : Nat) (h : At body i rest) (hlt : rest.length < limit) :
    Agrees body mark (i + 1) i (commaSeparated (body ++ mark :: tail) item tooMany room i)
      (Parse.commaSeparated item' tooMany room rest) := by
  induction room generalizing i rest with
  | zero => exact Agrees.fail h (Nat.le_refl i) tooMany
  | succ room ih =>
    refine (hitem i rest h hlt).bind (Nat.le_refl i) fun first after j _ hj hle => ?_
    have hlengths := And.intro h.length hj.length
    apply Agrees.branchKind hbar (by decide) hj
    · rintro t after rfl ht h'
      simp only [ht, if_true]
      refine (ih h'.next (by grind)).bind (by omega) fun more after n _ hn hle' => ?_
      exact Agrees.pure hn (by omega)
    · intro hne
      cases after with
      | nil => exact Agrees.pure hj hle
      | cons t after =>
        simp only [hne t after rfl, if_false]
        exact Agrees.pure hj hle

theorem items_agrees {item : Walk α} {item' : Parser α} (hitem : Follows body mark limit item item')
    (tooMany : ParseCause) (h : At body i rest) (hlt : rest.length < limit) :
    Agrees body mark i i (items (body ++ mark :: tail) item tooMany i) (Parse.items item' tooMany rest) := by
  apply Agrees.after (peek_at h)
  have hmark : mark.kind ≠ .closeParen := fun heq => absurd (heq ▸ hbar.kind) (by decide)
  have hstarts : Parse.startsWith .closeParen rest = true ↔ (rest.head?.getD mark).kind = .closeParen := by
    cases rest <;> simp [Parse.startsWith, hmark]
  unfold Parse.items
  by_cases hclose : (rest.head?.getD mark).kind = .closeParen
  · simp only [hstarts, hclose, if_true]
    exact Agrees.pure h (Nat.le_refl i)
  · simp only [hstarts, hclose, if_false]
    exact (commaSeparated_agrees hbar hitem tooMany _ h hlt).mono (Nat.le_succ i) (Nat.le_refl i)

/-! ## Expressions -/

omit hbar in
theorem numeral_agrees (nested' : Parser Expr) (h : At body i (t :: rest)) (ht : t.kind = .number) :
    Agrees body mark (i + 1) i (numeral (body ++ mark :: tail) (i + 1)) (Parse.primary nested' (t :: rest)) := by
  apply Agrees.after (previous_at h)
  simp only [Parse.primary, ht]
  cases Numeral.read? t.lexeme with
  | some value => exact Agrees.pure h.next (Nat.le_refl _)
  | none => exact ⟨i + 1, i, failBehind_at h .invalidNumber, h, h.next, Nat.le_refl i, Nat.le_succ i⟩

theorem primary_agrees {nested : Walk Expr} {nested' : Parser Expr} (hnested : Follows body mark limit nested nested') :
    Follows body mark (limit + 1) (primary (body ++ mark :: tail) nested) (Parse.primary nested') := by
  intro i rest h hlt
  apply Agrees.branchKind hbar (by decide) h
  · rintro t after rfl ht h
    exact numeral_agrees nested' h ht
  intro hnumber
  apply Agrees.branchKind hbar (by decide) h
  · rintro t after rfl ht h
    apply Agrees.after (previous_at h)
    simpa only [Parse.primary, ht] using Agrees.pure h.next (Nat.le_refl _)
  intro hstring
  apply Agrees.branchKind hbar (by decide) h
  · rintro t after rfl ht h
    apply Agrees.after (previous_at h)
    simpa only [Parse.primary, ht] using Agrees.pure h.next (Nat.le_refl _)
  intro hidentifier
  apply Agrees.branchKind hbar (by decide) h
  · rintro t after rfl ht h
    simp only [Parse.primary, ht]
    refine (hnested _ _ h.next (by simpa using hlt)).bind (by omega) fun e after j _ hj hle => ?_
    refine (expect_agrees hbar (by decide) .unclosedParen hj).bind (by omega) fun _ after n _ hn hle' => ?_
    exact Agrees.pure hn (by omega)
  intro hparen
  have hfail : Parse.primary nested' rest = .error (.here .undefinedExpression rest) := by
    cases rest with
    | nil => rfl
    | cons t after => grind [Parse.primary]
  rw [hfail]
  exact Agrees.fail h (Nat.le_refl i) .undefinedExpression

theorem callChain_agrees {nested : Walk Expr} {nested' : Parser Expr} (hnested : Follows body mark limit nested nested')
    (m n : Nat) (callee : Expr) (h : At body i rest) (hlt : rest.length < limit) (hm : rest.length < m)
    (hn : rest.length ≤ n) :
    Agrees body mark i i (callChain (body ++ mark :: tail) nested m callee i)
      (Parse.callChain nested' n callee rest) := by
  induction m generalizing n i rest callee with
  | zero => omega
  | succ m ih =>
    apply Agrees.branchKind hbar (by decide) h
    · rintro t after rfl ht h
      obtain ⟨n, rfl⟩ : ∃ k, n = k + 1 := ⟨n - 1, by simp at hn; omega⟩
      simp only [List.length_cons] at hlt hm hn
      simp only [Parse.callChain, ht, if_true]
      refine (items_agrees hbar hnested .tooManyArguments h.next (by omega)).bind (by omega)
        fun arguments after j _ hj hle => ?_
      refine (expect_agrees hbar (by decide) .unclosedCall hj).bind (by omega) fun _ after k _ hk hle' => ?_
      have hlengths := And.intro h.next.length hk.length
      exact (ih n _ hk (by omega) (by omega) (by omega)).mono (by omega) (by omega)
    · intro hne
      have hchain : Parse.callChain nested' n callee rest = .ok (callee, rest) := by
        cases n <;> cases rest <;> simp_all [Parse.callChain]
      rw [hchain]
      exact Agrees.pure h (Nat.le_refl i)

theorem call_agrees {nested : Walk Expr} {nested' : Parser Expr} {m n : Nat}
    (hnested : Follows body mark limit nested nested') (hm : limit ≤ m) (hn : limit ≤ n) :
    Follows body mark (limit + 1) (call (body ++ mark :: tail) nested m) (Parse.call nested' n) := by
  intro i rest h hlt
  refine (primary_agrees hbar hnested i rest h hlt).bind (Nat.le_refl i) fun callee after j _ hj hle => ?_
  have hlengths := And.intro h.length hj.length
  exact (callChain_agrees hbar hnested m n callee hj (by omega) (by omega) (by omega)).mono hle (by omega)

theorem isUnaryOperator_mark : isUnaryOperator mark = false := by
  have hkind := hbar.not_of_barriers (p := fun kind => kind = .exclamation || kind = .arithmetic) (by decide)
  simp at hkind
  simp [isUnaryOperator, hkind]

theorem hasOperator_mark (level : Level) : level.hasOperator mark = false := by
  have hkind := hbar.not_of_barriers (p := fun kind => kind ∈ [.or, .and, .equality, .notEquality, .greaterThan,
    .greaterOrEqual, .lessThan, .lessOrEqual, .arithmetic]) (by decide)
  simp at hkind
  cases level <;> simp [Level.hasOperator, hkind]

theorem unary_agrees {nested : Walk Expr} {nested' : Parser Expr} {m n : Nat}
    (hnested : Follows body mark limit nested nested') (hm : limit ≤ m) (hn : limit ≤ n) (depth : Nat)
    (h : At body i rest) (hlt : rest.length < limit + 1) (hdepth : rest.length < depth) :
    Agrees body mark (i + 1) i (unary (body ++ mark :: tail) (call (body ++ mark :: tail) nested m) depth i)
      (Parse.unary nested' n rest) := by
  induction depth generalizing i rest with
  | zero => omega
  | succ depth ih =>
    apply Agrees.branch hbar (fun _ => isUnaryOperator_mark hbar) h
    · rintro t after rfl ht h
      simp only [List.length_cons] at hlt hdepth
      simp only [Parse.unary, ht, if_true]
      apply Agrees.after (previous_at h)
      refine (ih h.next (by omega) (by omega)).bind (by omega) fun operand after j _ hj hle => ?_
      exact Agrees.pure hj (by omega)
    · intro hne
      have hcall : Parse.unary nested' n rest = Parse.call nested' n rest := by
        cases rest with
        | nil => rfl
        | cons t after => simp [Parse.unary, hne t after rfl]
      rw [hcall]
      exact call_agrees hbar hnested hm hn i rest h hlt

theorem leftChain_agrees (level : Level) {operand : Walk Expr} {operand' : Parser Expr}
    (hoperand : Follows body mark limit operand operand') (m n : Nat) (left : Expr) (h : At body i rest)
    (hlt : rest.length ≤ limit) (hm : rest.length < m) (hn : rest.length ≤ n) :
    Agrees body mark i i (leftChain (body ++ mark :: tail) level operand m left i)
      (Parse.leftChain level operand' n left rest) := by
  induction m generalizing n i rest left with
  | zero => omega
  | succ m ih =>
    apply Agrees.branch hbar (fun _ => hasOperator_mark hbar level) h
    · rintro t after rfl ht h
      obtain ⟨n, rfl⟩ : ∃ k, n = k + 1 := ⟨n - 1, by simp at hn; omega⟩
      simp only [List.length_cons] at hlt hm hn
      simp only [Parse.leftChain, ht, if_true]
      apply Agrees.after (previous_at h)
      refine (hoperand _ _ h.next (by omega)).bind (by omega) fun right after j _ hj hle => ?_
      have hlengths := And.intro h.next.length hj.length
      exact (ih n _ hj (by omega) (by omega) (by omega)).mono (by omega) (by omega)
    · intro hne
      have hchain : Parse.leftChain level operand' n left rest = .ok (left, rest) := by
        cases n <;> cases rest <;> simp_all [Parse.leftChain]
      rw [hchain]
      exact Agrees.pure h (Nat.le_refl i)

theorem levels_agrees {operand : Walk Expr} {operand' : Parser Expr} {m n : Nat}
    (hoperand : Follows body mark limit operand operand') (hm : limit ≤ m) (hn : limit ≤ n + 1)
    (tighter : List Level) :
    Follows body mark limit (levels (body ++ mark :: tail) operand m tighter) (Parse.levels operand' n tighter) := by
  induction tighter with
  | nil => exact hoperand
  | cons level tighter ih =>
    intro i rest h hlt
    refine (ih i rest h hlt).bind (Nat.le_refl i) fun left after j _ hj hle => ?_
    have hlengths := And.intro h.length hj.length
    exact (leftChain_agrees hbar level ih m n left hj (by omega) (by omega) (by omega)).mono hle (by omega)

theorem expression_agrees {m n : Nat} (hm : limit ≤ m) (hn : limit ≤ n) :
    Follows body mark limit (expression (body ++ mark :: tail) m) (Parse.expression n) := by
  induction n generalizing m limit with
  | zero =>
    intro i rest h hlt
    omega
  | succ n ih =>
    intro i rest h hlt
    obtain ⟨m, rfl⟩ : ∃ k, m = k + 1 := ⟨m - 1, by omega⟩
    have hnested : Follows body mark (limit - 1) (expression (body ++ mark :: tail) m) (Parse.expression n) :=
      ih (by omega) (by omega)
    have hunary : Follows body mark limit
        (unary (body ++ mark :: tail)
          (call (body ++ mark :: tail) (expression (body ++ mark :: tail) m) (m + 1)) (m + 1))
        (Parse.unary (Parse.expression n) n) :=
      fun i rest h hlt => unary_agrees hbar hnested (by omega) (by omega) (m + 1) h (by omega) (by omega)
    refine (levels_agrees hbar hunary (by omega) (by omega) Level.all i rest h hlt).bind (Nat.le_refl i)
      fun left after j _ hj hle => ?_
    have hlengths := And.intro h.length hj.length
    apply Agrees.branchKind hbar (by decide) hj
    · rintro t after rfl ht hj
      simp only [ht, if_true]
      apply Agrees.after (previous_at hj)
      refine Agrees.after (a := j + 1) (j := j + 1) rfl ?_
      refine (hnested _ _ hj.next (by grind)).bind (by omega) fun value after k _ hk hle' => ?_
      cases left with
      | identifier name => exact Agrees.pure hk (by omega)
      | _ => exact ⟨k, j, rfl, hj, hk, by omega, by omega⟩
    · intro hne
      cases after with
      | nil => exact Agrees.pure hj hle
      | cons t after =>
        simp only [hne t after rfl, if_false]
        exact Agrees.pure hj hle

/-! ## Statements -/

theorem statementsInBlock_agrees (hend : isEnd mark = true) {statement : Walk Stmt} {statement' : Parser Stmt}
    (hstatement : Enters body mark limit statement statement') (m n : Nat) (h : At body i rest)
    (hlt : rest.length < limit) (hm : rest.length < m) (hn : rest.length ≤ n) :
    Agrees body mark i i (statementsInBlock (body ++ mark :: tail) statement m i)
      (Parse.statementsInBlock statement' n rest) := by
  induction m generalizing n i rest with
  | zero => omega
  | succ m ih =>
    apply Agrees.after (peek_at h)
    cases rest with
    | nil =>
      have hstop : Parse.statementsInBlock statement' n [] = .ok ([], []) := by cases n <;> rfl
      simp only [List.head?_nil, Option.getD_none, hend, Bool.or_true, if_true, hstop]
      exact Agrees.pure h (Nat.le_refl i)
    | cons t after =>
      simp only [List.length_cons] at hlt hm hn
      obtain ⟨n, rfl⟩ : ∃ k, n = k + 1 := ⟨n - 1, by omega⟩
      have hinside : isEnd t = false := hbar.inside t (h.subset List.mem_cons_self)
      simp only [List.head?_cons, Option.getD_some, hinside, Bool.or_false, Parse.statementsInBlock]
      by_cases hclose : t.kind = .closeBrace
      · simp only [hclose, if_true]
        exact Agrees.pure h (Nat.le_refl i)
      · simp only [hclose, if_false]
        refine (hstatement i t after h (by simpa using hlt)).bind (Nat.le_refl i) fun first after j _ hj hle => ?_
        have hlengths := And.intro h.next.length hj.length
        refine (ih n hj (by omega) (by omega) (by omega)).bind (by omega) fun more after k _ hk hle' => ?_
        exact Agrees.pure hk (by omega)

theorem isEnd_of_opened {cause : ParseCause} {r : Token × List Token} (h : At body i rest)
    (hopen : Parse.expect .openBrace cause rest = .ok r) : isEnd mark = true := by
  refine hbar.blocks.resolve_right fun hno => ?_
  cases rest with
  | nil => cases hopen
  | cons t after => simp [Parse.expect, hno t (h.subset List.mem_cons_self)] at hopen

theorem isEnd_of_block {statement : Parser Stmt} {n : Nat} {r : Block × List Token} (h : At body i rest)
    (hblock : Parse.block statement n rest = .ok r) : isEnd mark = true := by
  cases hopen : Parse.expect .openBrace .expectedOpenBrace rest with
  | ok r => exact isEnd_of_opened hbar h hopen
  | error f => simp [Parse.block, hopen, bind, Except.bind] at hblock

theorem block_agrees {statement : Walk Stmt} {statement' : Parser Stmt} {m n : Nat}
    (hstatement : Enters body mark limit statement statement') (hm : limit ≤ m) (hn : limit ≤ n + 1) :
    Follows body mark limit (block (body ++ mark :: tail) statement m) (Parse.block statement' n) := by
  intro i rest h hlt
  refine (expect_agrees hbar (by decide) .expectedOpenBrace h).bind (Nat.le_refl i) fun t after j hopen hj hle => ?_
  have hend : isEnd mark = true := isEnd_of_opened hbar h hopen
  have hlengths := And.intro h.length hj.length
  refine (statementsInBlock_agrees hbar hend hstatement m n hj (by omega) (by omega) (by omega)).bind (by omega)
    fun statements after k _ hk hle' => ?_
  refine (expect_agrees hbar (by decide) .expectedCloseBrace hk).bind (by omega) fun _ after l _ hl hle'' => ?_
  exact Agrees.pure hl (by omega)

theorem declaration_agrees {expr : Walk Expr} {expr' : Parser Expr} (hexpr : Follows body mark limit expr expr')
    {kind : DeclKind} (ht : t.declKind? = some kind) (h : At body i (t :: rest)) (hlt : rest.length < limit) :
    Agrees body mark (i + 1) i (declaration (body ++ mark :: tail) expr (i + 1))
      (Parse.declaration expr' kind rest) := by
  apply Agrees.after (previous_at h)
  simp only [ht, Option.getD_some]
  refine (expect_agrees hbar (by decide) .expectedVariableName h.next).bind (by omega) fun name after j _ hj hle => ?_
  refine (typeMark_agrees hbar hj fun after k hk hle' => ?_).mono (Nat.le_refl _) (by omega)
  have hlengths := And.intro h.next.length hk.length
  apply Agrees.branchKind hbar (by decide) hk
  · rintro u after rfl hu hk
    simp only [hu, if_true]
    refine (hexpr _ _ hk.next (by grind)).bind (by omega) fun value after l _ hl hle'' => ?_
    exact Agrees.pure hl (by omega)
  · intro hne
    cases hconst : kind.isConstant with
    | true =>
      cases after with
      | nil => exact Agrees.fail hk hle' .constantWithoutValue
      | cons u after =>
        simp only [hne u after rfl, if_false]
        exact Agrees.fail hk hle' .constantWithoutValue
    | false =>
      cases after with
      | nil => exact Agrees.pure hk (by omega)
      | cons u after =>
        simp only [hne u after rfl, if_false]
        exact Agrees.pure hk (by omega)

theorem parameter_agrees : Follows body mark limit (parameter (body ++ mark :: tail)) Parse.parameter := by
  intro i rest h _
  refine (expect_agrees hbar (by decide) .expectedParameterName h).bind (Nat.le_refl i) fun name after j _ hj hle => ?_
  refine (typeMark_agrees hbar hj fun after k hk hle' => ?_).mono (Nat.le_refl _) (by omega)
  exact Agrees.pure hk (by omega)

theorem function_agrees {block : Walk Block} {block' : Parser Block} (hblock : Follows body mark limit block block') :
    Follows body mark limit (function (body ++ mark :: tail) block) (Parse.function block') := by
  intro i rest h hlt
  refine (expect_agrees hbar (by decide) .expectedFunctionName h).bind (Nat.le_refl i) fun name after a _ ha hle => ?_
  refine (expect_agrees hbar (by decide) .expectedParen ha).bind (by omega) fun _ after b _ hb hle => ?_
  have hlengths := And.intro h.length hb.length
  have hparameter : Follows body mark limit (parameter (body ++ mark :: tail)) Parse.parameter := parameter_agrees hbar
  refine (items_agrees hbar hparameter .tooManyParameters hb (by omega)).bind (by omega)
    fun parameters after c _ hc hle => ?_
  refine (expect_agrees hbar (by decide) .unclosedParen hc).bind (by omega) fun _ after d _ hd hle => ?_
  refine (typeMark_agrees hbar hd fun after e he hle' => ?_).mono (Nat.le_refl _) (by omega)
  have hlengths' := he.length
  refine (hblock e after he (by omega)).bind (by omega) fun statements after f _ hf hle => ?_
  exact Agrees.pure hf (by omega)

theorem branches_agrees (hend : isEnd mark = true) {expr : Walk Expr} {expr' : Parser Expr} {block : Walk Block}
    {block' : Parser Block} (hexpr : Follows body mark limit expr expr') (hblock : Follows body mark limit block block')
    (m n : Nat) (h : At body i rest) (hlt : rest.length < limit) (hm : rest.length < m) (hn : rest.length ≤ n) :
    Agrees body mark i i (branches (body ++ mark :: tail) expr block m i) (Parse.branches expr' block' n rest) := by
  induction m generalizing n i rest with
  | zero => omega
  | succ m ih =>
    apply Agrees.branchKind hbar (by decide) h
    · rintro t after rfl ht h
      simp only [List.length_cons] at hlt hm hn
      obtain ⟨n, rfl⟩ : ∃ k, n = k + 1 := ⟨n - 1, by omega⟩
      have hmark : mark.kind ≠ .ifKeyword := by
        intro heq
        simp [isEnd, heq] at hend
      apply Agrees.branch hbar (by simp [hmark]) h.next
      · rintro u after rfl hu h'
        simp only [decide_eq_true_eq] at hu
        simp only [List.length_cons] at hlt hm hn
        simp only [Parse.branches, ht, hu, if_true]
        refine (hexpr _ _ h'.next (by omega)).bind (by omega) fun check after j _ hj hle => ?_
        have hlengths := And.intro h'.next.length hj.length
        refine (hblock _ _ hj (by omega)).bind (by omega) fun statements after k _ hk hle' => ?_
        have hlengths' := hk.length
        refine (ih n hk (by omega) (by omega) (by omega)).bind (by omega) fun more after l _ hl hle'' => ?_
        exact Agrees.pure hl (by omega)
      · intro hne
        have hlast : Parse.branches expr' block' (n + 1) (t :: after) =
            block' after >>= fun r => .ok (([], some r.1), r.2) := by
          cases after with
          | nil => simp [Parse.branches, ht]
          | cons u after => simp_all [Parse.branches]
        rw [hlast]
        refine (hblock _ _ h.next (by omega)).bind (by omega) fun statements after j _ hj hle => ?_
        exact Agrees.pure hj (by omega)
    · intro hne
      have hnone : Parse.branches expr' block' n rest = .ok (([], none), rest) := by
        cases n <;> cases rest <;> simp_all [Parse.branches]
      rw [hnone]
      exact Agrees.pure h (Nat.le_refl i)

theorem conditional_agrees {expr : Walk Expr} {expr' : Parser Expr} {block : Walk Block} {block' : Parser Block}
    {m n : Nat} (hexpr : Follows body mark limit expr expr') (hblock : Follows body mark limit block block')
    (hend : ∀ i rest r, At body i rest → block' rest = .ok r → isEnd mark = true) (hm : limit ≤ m)
    (hn : limit ≤ n + 1) :
    Follows body mark limit (conditional (body ++ mark :: tail) expr block m) (Parse.conditional expr' block' n) := by
  intro i rest h hlt
  refine (hexpr i rest h hlt).bind (Nat.le_refl i) fun check after j _ hj hle => ?_
  have hlengths := And.intro h.length hj.length
  refine (hblock j after hj (by omega)).bind (by omega) fun statements after' k hok hk hle' => ?_
  have hlengths' := hk.length
  refine (branches_agrees hbar (hend j after _ hj hok) hexpr hblock m n hk (by omega) (by omega) (by omega)).bind
    (by omega) fun more after l _ hl hle'' => ?_
  exact Agrees.pure hl (by omega)

omit hbar in
theorem loop_agrees {expr : Walk Expr} {expr' : Parser Expr} {block : Walk Block} {block' : Parser Block}
    (hexpr : Follows body mark limit expr expr') (hblock : Follows body mark limit block block') :
    Follows body mark limit (loop expr block) (Parse.loop expr' block') := by
  intro i rest h hlt
  refine (hexpr i rest h hlt).bind (Nat.le_refl i) fun check after j _ hj hle => ?_
  have hlengths := And.intro h.length hj.length
  refine (hblock j after hj (by omega)).bind (by omega) fun statements after k _ hk hle' => ?_
  exact Agrees.pure hk (by omega)

theorem closed_agrees {stmt : Walk Stmt} {x : Except Failure (Stmt × List Token)}
    (h : Agrees body mark lo err (stmt i) x) :
    Agrees body mark lo err (closed (body ++ mark :: tail) stmt i) (Parse.closed x) := by
  refine h.bind (Nat.le_refl err) fun s after j _ hj hle => ?_
  obtain ⟨k, hk, hat, hle'⟩ := semicolon_at hbar hj
  exact Agrees.after hk (Agrees.pure hat (by omega))

omit hbar in
theorem statement_of_declKind {kind : DeclKind} {n : Nat} (ht : t.declKind? = some kind) :
    Parse.statement (n + 1) (t :: rest) = Parse.closed (Parse.declaration (Parse.expression (n + 1)) kind rest) := by
  grind [Parse.statement, Token.declKind?]

theorem statement_agrees {m n : Nat} (hm : limit ≤ m) (hn : limit ≤ n) :
    Enters body mark limit (statement (body ++ mark :: tail) m) (Parse.statement n) := by
  induction n generalizing m limit with
  | zero =>
    intro i t rest h hlt
    omega
  | succ n ih =>
    intro i t rest h hlt
    obtain ⟨m, rfl⟩ : ∃ k, m = k + 1 := ⟨m - 1, by omega⟩
    have hexpr : Follows body mark limit (expression (body ++ mark :: tail) (m + 1)) (Parse.expression (n + 1)) :=
      expression_agrees hbar (by omega) (by omega)
    have hblock : Follows body mark (limit - 1)
        (block (body ++ mark :: tail) (statement (body ++ mark :: tail) m) (m + 1))
        (Parse.block (Parse.statement n) n) :=
      block_agrees hbar (ih (by omega) (by omega)) (by omega) (by omega)
    simp only [List.length_cons] at hlt
    apply Agrees.branch hbar (by simp) h
    · rintro _ _ ⟨⟩ ht h
      obtain ⟨kind, hkind⟩ := Option.isSome_iff_exists.1 ht
      rw [statement_of_declKind hkind]
      exact closed_agrees hbar (declaration_agrees hbar hexpr hkind h (by omega))
    intro hdeclare
    apply Agrees.branch hbar (by simp) h
    · rintro _ _ ⟨⟩ ht h
      simp only [decide_eq_true_eq] at ht
      simp only [Parse.statement, ht]
      exact (function_agrees hbar hblock _ _ h.next (by omega)).mono (by omega) (by omega)
    intro hfn
    apply Agrees.branch hbar (by simp) h
    · rintro _ _ ⟨⟩ ht h
      simp only [decide_eq_true_eq] at ht
      simp only [Parse.statement, ht]
      exact (conditional_agrees hbar (hexpr.shrink (by omega)) hblock (fun _ _ _ => isEnd_of_block hbar) (by omega)
        (by omega) _ _ h.next (by omega)).mono (by omega) (by omega)
    intro hif
    apply Agrees.branch hbar (by simp) h
    · rintro _ _ ⟨⟩ ht h
      simp only [decide_eq_true_eq] at ht
      simp only [Parse.statement, ht]
      exact (loop_agrees (hexpr.shrink (by omega)) hblock _ _ h.next (by omega)).mono (by omega) (by omega)
    intro hwhile
    have hother : Parse.statement (n + 1) (t :: rest) =
        Parse.closed (Parse.expressionStatement (Parse.expression (n + 1)) (t :: rest)) := by
      have hkinds := And.intro (hdeclare t rest rfl) (And.intro (hfn t rest rfl) (And.intro (hif t rest rfl)
        (hwhile t rest rfl)))
      grind [Parse.statement, Token.declKind?]
    rw [hother]
    refine closed_agrees hbar ((hexpr i (t :: rest) h (by simpa using hlt)).bind (Nat.le_refl i)
      fun e after j _ hj hle => ?_)
    exact Agrees.pure hj hle

end Parsing

end Walk

end BlockScript
