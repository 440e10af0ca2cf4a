import Mathlib.Data.List.Nodup
import BlockScript.Proofs.Renaming
import BlockScript.Proofs.Respelling

/-!
# Layout and synonyms do not matter

Two sources with the same tokens in plain spelling have the same plain tree,
so they run alike: the positions and spellings that their trees keep show
neither in what is returned and reported nor in what stays bound.
-/

namespace BlockScript

/-! ## Runs that cannot be told apart -/

/-- Functions are alike by name, parameters and the depths of their scopes, other values only if they are the same. -/
inductive Value.Alike (h h' : Store) : Value → Value → Prop
  | same {v : Value} : v.isFunction = false → Alike h h' v v
  | function {f g : Closure} : f.name = g.name → f.parameters = g.parameters →
      f.scope?.map h.depth = g.scope?.map h'.depth → Alike h h' (.function f) (.function g)

structure Binding.Alike (h h' : Store) (b b' : Binding) : Prop where
  constant : b.constant = b'.constant
  value : b.value.Alike h h' b'.value

inductive Outcome.Alike (h h' : Store) : Except Halt Value → Except Halt Value → Prop
  | value {v w : Value} : v.Alike h h' w → v.text = w.text → v.type = w.type → Alike h h' (.ok v) (.ok w)
  | halt (halt : Halt) : Alike h h' (.error halt) (.error halt)

structure Run.Alike (r r' : Except Halt Value × World Unit) : Prop where
  outcome : Outcome.Alike r.2.store r'.2.store r.1 r'.1
  bindings s name : Option.Rel (Binding.Alike r.2.store r'.2.store) (r.2.store.binding? s name) (r'.2.store.binding? s name)

theorem Value.Alike.text_eq {h h' : Store} {v w : Value} (hv : v.Alike h h' w) : v.text = w.text := by
  cases hv with
  | same _ => rfl
  | function hname _ _ =>
    simp only [Value.text, Closure.text, hname]

theorem Value.Alike.type_eq {h h' : Store} {v w : Value} (hv : v.Alike h h' w) : v.type = w.type := by
  cases hv <;> rfl

/-! ## The same plain store -/

namespace Transcription

theorem depth_store (T : Transcription) (h : Store) (s : ScopeId) : (T.store h).depth s = h.depth s := by
  unfold Store.depth
  rw [chain_store]

section

variable {h h' : Store} (hstore : plain.store h = plain.store h')
include hstore

theorem depth_eq_of_plain (s : ScopeId) : h.depth s = h'.depth s := by
  rw [← depth_store plain h, hstore, depth_store]

theorem value_alike {v w : Value} (hv : plain.value v = plain.value w) : v.Alike h h' w := by
  cases v with
  | function f =>
    cases w with
    | function g =>
      obtain ⟨hname, hparameters, horigin, -⟩ := Closure.mk.inj (Value.function.inj hv)
      have hscope : f.scope? = g.scope? := by simp only [Closure.scope?, horigin]
      refine .function hname (List.map_injective_iff.mpr (fun _ _ h => h) hparameters) ?_
      rw [hscope]
      exact congrArg (fun depth => g.scope?.map depth) (funext (depth_eq_of_plain hstore))
    | _ => cases hv
  | _ =>
    cases w <;> cases hv
    exact .same rfl

theorem binding_alike (s : ScopeId) (name : Name) :
    Option.Rel (Binding.Alike h h') (h.binding? s name) (h'.binding? s name) := by
  have hbinding : (h.binding? s name).map plain.binding = (h'.binding? s name).map plain.binding := by
    rw [← binding?_store plain h s name, hstore, binding?_store]
  cases hb : h.binding? s name with
  | none =>
    cases hb' : h'.binding? s name with
    | none => exact .none
    | some b' =>
      rw [hb, hb'] at hbinding
      cases hbinding
  | some b =>
    cases hb' : h'.binding? s name with
    | none =>
      rw [hb, hb'] at hbinding
      cases hbinding
    | some b' =>
      rw [hb, hb'] at hbinding
      obtain ⟨hvalue, hconstant⟩ := Binding.mk.inj (Option.some.inj hbinding)
      exact .some ⟨hconstant, value_alike hstore hvalue⟩

theorem outcome_alike {r r' : Except Halt Value} (hr : plain.outcome r = plain.outcome r') : Outcome.Alike h h' r r' := by
  cases r with
  | error halt =>
    cases r' with
    | ok _ => cases hr
    | error halt' =>
      have hhalt : plain.halt halt = plain.halt halt' := Except.error.inj hr
      rw [halt_eq_self plain fun _ => rfl, halt_eq_self plain fun _ => rfl] at hhalt
      exact hhalt ▸ .halt halt
  | ok v =>
    cases r' with
    | error _ => cases hr
    | ok w =>
      have hv := value_alike hstore (Except.ok.inj hr)
      exact .value hv hv.text_eq hv.type_eq

end

theorem run_alike {p q : Program} (h : plain.block p = plain.block q) (bound : Nat) : Run.Alike (p.run bound) (q.run bound) := by
  -- Both runs are compared with the run of the plain tree that they share.
  have hnames : ∀ name ∈ globalNames, plain.name name = name := fun _ _ => rfl
  obtain ⟨hp, hpstore⟩ := plain.run_block hnames bound p
  obtain ⟨hq, hqstore⟩ := plain.run_block hnames bound q
  have hstore : plain.store (p.run bound).2.store = plain.store (q.run bound).2.store := by
    rw [← hpstore, h, hqstore]
  have houtcome : plain.outcome (p.run bound).1 = plain.outcome (q.run bound).1 := by
    rw [← hp, h, hq]
  exact ⟨outcome_alike hstore houtcome, binding_alike hstore⟩

end Transcription

/-- Two sources whose tokens are the same in plain spelling both fail to parse, for the same causes at the same tokens,
or they both parse, and then they run alike. -/
theorem synonymous_sources_run_alike {source source' terminator terminator' : Bytes} {tokens tokens' : List Token}
    (htokens : Source.tokens source terminator = .ok tokens) (htokens' : Source.tokens source' terminator' = .ok tokens')
    (hplain : tokens.map Token.plain = tokens'.map Token.plain) :
    (∃ errors errors', Program.ofSource source terminator = .error (.grammatical errors) ∧
      Program.ofSource source' terminator' = .error (.grammatical errors') ∧
      errors.map (fun e => (e.cause, e.index)) = errors'.map (fun e => (e.cause, e.index))) ∨
    ∃ p q, Program.ofSource source terminator = .ok p ∧ Program.ofSource source' terminator' = .ok q ∧
      ∀ bound, Run.Alike (p.run bound) (q.run bound) := by
  simp only [Program.ofSource, htokens, htokens']
  have hparse := Program.ofTokens_plain tokens'
  rw [← hplain] at hparse
  rcases Program.ofTokens_plain tokens with ⟨errors, plains, he, hplains, houtline⟩ | ⟨p, hp, hplainp⟩
  · rcases hparse with ⟨errors', plains', he', hplains', houtline'⟩ | ⟨q, hq, hplainq⟩
    · rw [hplains] at hplains'
      cases hplains'
      exact .inl ⟨errors, errors', by rw [he], by rw [he'], houtline.symm.trans houtline'⟩
    · rw [hplains] at hplainq
      cases hplainq
  · rcases hparse with ⟨errors', plains', he', hplains', houtline'⟩ | ⟨q, hq, hplainq⟩
    · rw [hplainp] at hplains'
      cases hplains'
    · rw [hplainp] at hplainq
      exact .inr ⟨p, q, by rw [hp], by rw [hq], Transcription.run_alike (Except.ok.inj hplainq)⟩

namespace Synonyms

def signs : Bytes := ascii "# a comment\nfinal k = true; fn f(x) \x7b x && k || false \x7d f"

def words : Bytes := ascii "const k=true;\n\n fn f ( x ) \x7b\n\tx and k or false\n\x7d\n# a comment$ f"

def unfinished : Bytes := ascii "final k; k +"

def unfinishedLines : Bytes := ascii "const\n\tk;\nk\n+"

theorem exists_tokens (source terminator source' terminator' : Bytes)
    (hok : (Source.tokens source terminator).toOption.isSome = true)
    (h : (Source.tokens source terminator).toOption.map (List.map Token.plain) =
      (Source.tokens source' terminator').toOption.map (List.map Token.plain)) :
    ∃ tokens tokens', Source.tokens source terminator = .ok tokens ∧ Source.tokens source' terminator' = .ok tokens' ∧
      tokens.map Token.plain = tokens'.map Token.plain := by
  cases htokens : Source.tokens source terminator with
  | error e =>
    rw [htokens] at hok
    cases hok
  | ok tokens =>
    cases htokens' : Source.tokens source' terminator' with
    | error e =>
      rw [htokens, htokens'] at h
      cases h
    | ok tokens' =>
      rw [htokens, htokens'] at h
      exact ⟨tokens, tokens', rfl, rfl, Option.some.inj h⟩

theorem runs_in_signs_and_words :
    (∃ tokens tokens' p q, Source.tokens signs (ascii "\n") = .ok tokens ∧ Source.tokens words (ascii "$") = .ok tokens' ∧
      tokens.map Token.plain = tokens'.map Token.plain ∧ Program.ofSource signs (ascii "\n") = .ok p ∧
      Program.ofSource words (ascii "$") = .ok q ∧ ∀ bound, Run.Alike (p.run bound) (q.run bound)) ∧
    ∃ tokens tokens' errors errors', Source.tokens unfinished [] = .ok tokens ∧
      Source.tokens unfinishedLines [] = .ok tokens' ∧ tokens.map Token.plain = tokens'.map Token.plain ∧
      Program.ofSource unfinished [] = .error (.grammatical errors) ∧
      Program.ofSource unfinishedLines [] = .error (.grammatical errors') ∧
      errors.map (fun e => (e.cause, e.index)) = errors'.map (fun e => (e.cause, e.index)) := by
  refine ⟨?_, ?_⟩
  · obtain ⟨tokens, tokens', htokens, htokens', hplain⟩ := exists_tokens signs (ascii "\n") words (ascii "$")
      (by decide +kernel) (by decide +kernel)
    have hparses : (Program.ofSource signs (ascii "\n")).toOption.isSome = true := by decide +kernel
    rcases synonymous_sources_run_alike htokens htokens' hplain with ⟨errors, errors', he, -⟩ | ⟨p, q, hp, hq, hrun⟩
    · rw [he] at hparses
      cases hparses
    · exact ⟨tokens, tokens', p, q, htokens, htokens', hplain, hp, hq, hrun⟩
  · obtain ⟨tokens, tokens', htokens, htokens', hplain⟩ := exists_tokens unfinished [] unfinishedLines []
      (by decide +kernel) (by decide +kernel)
    have hfails : (Program.ofSource unfinished []).toOption.isSome = false := by decide +kernel
    rcases synonymous_sources_run_alike htokens htokens' hplain with ⟨errors, errors', he, he', houtline⟩ | ⟨p, q, hp, -⟩
    · exact ⟨tokens, tokens', errors, errors', htokens, htokens', hplain, he, he', houtline⟩
    · rw [hp] at hfails
      cases hfails

end Synonyms

end BlockScript
