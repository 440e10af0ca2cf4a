import BlockScript.Proofs.Containment
import BlockScript.Proofs.Reachability

/-!
# A scope that binds nothing

Names are looked up along a chain of scopes, and a scope that binds nothing is
passed over. So it does not matter whether an expression is evaluated in such a
scope or in the one it is nested in. And of two stores that differ by one such
scope, no evaluation can tell which is which, as long as it does not run in
that scope itself: then nobody ever declares anything there.
-/

namespace BlockScript

namespace Store

/-! ## Walking up -/

theorem owner?_unfold (h : Store) (t : ScopeId) (name : Name) :
    h.owner? t name =
      if (h.binding? t name).isSome then some t
      else (h.parent? t).bind fun p => if p < t then h.owner? p name else none := by
  rcases Nat.lt_or_ge t h.size with ht | ht
  · rw [owner?, chain_of_lt_size ht, List.find?_cons]
    cases hb : h.binding? t name with
    | some b => simp
    | none =>
      cases h.parent? t with
      | none => simp
      | some p => by_cases hp : p < t <;> simp [hp, owner?]
  · simp [owner?, chain_of_size_le ht, binding?, parent?, get?_eq_none ht]

structure Hollow (h : Store) (x s : ScopeId) : Prop where
  parent : h.parent? x = some s
  older : s < x
  names : h.names x = []

variable {h h' : Store} {x s : ScopeId} {name : Name}

theorem Hollow.binding?_eq (hx : h.Hollow x s) (name : Name) : h.binding? x name = none := by
  have hname : name ∉ h.names x := by simp [hx.names]
  simpa [mem_names] using hname

theorem Hollow.lt_size (hx : h.Hollow x s) : x < h.size := by
  rcases Nat.lt_or_ge x h.size with hlt | hge
  · exact hlt
  · have hp := hx.parent
    simp [parent?, get?_eq_none hge] at hp

theorem Hollow.owner?_eq (hx : h.Hollow x s) (name : Name) : h.owner? x name = h.owner? s name := by
  rw [owner?_unfold, hx.binding?_eq, hx.parent]
  simp [hx.older]

theorem Hollow.lookup_eq (hx : h.Hollow x s) (name : Name) : h.lookup x name = h.lookup s name := by
  rw [lookup, lookup, hx.owner?_eq]

theorem Hollow.assignable_eq (hx : h.Hollow x s) (name : Name) : h.assignable x name = h.assignable s name := by
  rw [assignable, assignable, hx.owner?_eq]

theorem Hollow.of_keepsNames (hx : h.Hollow x s) (hk : KeepsNames Anywhere h h') : h'.Hollow x s where
  parent := (hk.parent_eq hx.lt_size).trans hx.parent
  older := hx.older
  names := (hk.names_eq trivial hx.lt_size).trans hx.names

end Store

/-! ## Expressions in a hollow scope -/

namespace Hollow

open Containment

variable {σ α β : Type} {x s : ScopeId} {w : World σ}

theorem bind_eq {m m' : Eval σ α} {k k' : α → Eval σ β} (hw : w.store.Hollow x s) (hm : m.run w = m'.run w)
    (hc : Confined m' w) (hk : ∀ a w', w'.store.Hollow x s → (k a).run w' = (k' a).run w') :
    (m >>= k).run w = (m' >>= k').run w := by
  unfold Confined Discipline.Ensures at hc
  rw [Eval.run_bind, Eval.run_bind, hm]
  cases hrun : m'.run w with
  | error halt w' => rfl
  | ok a w' =>
    simp only [hrun] at hc
    exact hk a w' (hw.of_keepsNames hc.2.1)

def Ignores (x s : ScopeId) (exprs : ExprEvaluator σ) : Prop :=
  ∀ e w, w.store.Hollow x s → (exprs e x).run w = (exprs e s).run w

variable {exprs : ExprEvaluator σ}

theorem confined (hexprs : containment.ExprSound exprs) (e : Expr) (s : ScopeId) (w : World σ) :
    Confined (exprs e s) w := .mono (hexprs () e s w trivial trivial trivial)

theorem operand_eq (hexprs : containment.ExprSound exprs) (he : Ignores x s exprs) (op : LogicalOp) (e : Expr)
    (hw : w.store.Hollow x s) : (Eval.operand exprs op e x).run w = (Eval.operand exprs op e s).run w :=
  bind_eq hw (he e w hw) (confined hexprs e s w) fun _ _ _ => rfl

theorem logical_eq (hexprs : containment.ExprSound exprs) (he : Ignores x s exprs) (op : LogicalOp) (left right : Expr)
    (hw : w.store.Hollow x s) : (Eval.logical exprs op left right x).run w = (Eval.logical exprs op left right s).run w := by
  have hconfined : Confined (Eval.operand exprs op left s) w :=
    .mono (Discipline.operand_sound (Γ := ()) hexprs op trivial trivial trivial)
  refine bind_eq hw (operand_eq hexprs he op left hw) hconfined ?_
  intro b w' hw'
  split
  · rfl
  · rw [Eval.run_bind, Eval.run_bind, operand_eq hexprs he op right hw']

theorem evalAll_eq (hexprs : containment.ExprSound exprs) (he : Ignores x s exprs) (es : List Expr)
    (hw : w.store.Hollow x s) : (Eval.evalAll exprs x es).run w = (Eval.evalAll exprs s es).run w := by
  induction es generalizing w with
  | nil => rfl
  | cons e es ih =>
    refine bind_eq hw (he e w hw) (confined hexprs e s w) ?_
    intro v w' hw'
    rw [Eval.run_bind, Eval.run_bind, ih hw']

theorem evalExpr_ignores (bound : Nat) : Ignores x s (Eval.evalExpr bound : ExprEvaluator σ) := by
  induction bound with
  | zero => exact fun _ _ _ => rfl
  | succ bound ih =>
    have hexprs : containment.ExprSound (Eval.evalExpr bound : ExprEvaluator σ) := Discipline.evalExpr_sound bound
    intro e w hw
    cases e with
    | identifier name =>
      change (Eval.lookup x name).run w = (Eval.lookup s name).run w
      rw [Eval.run_lookup, Eval.run_lookup, hw.lookup_eq]
    | assign name value =>
      refine bind_eq hw (ih value w hw) (confined hexprs value s w) ?_
      intro v w' hw'
      rw [Eval.run_assign, Eval.run_assign, hw'.assignable_eq]
    | binary operator left right =>
      refine bind_eq hw (ih left w hw) (confined hexprs left s w) ?_
      intro v w' hw'
      rw [Eval.run_bind, Eval.run_bind, ih right w' hw']
    | logical operator left right =>
      simp only [Eval.evalExpr]
      split
      · exact logical_eq hexprs ih _ left right hw
      · rfl
    | unary operator operand => exact bind_eq hw (ih operand w hw) (confined hexprs operand s w) fun _ _ _ => rfl
    | call callee arguments =>
      refine bind_eq hw (ih callee w hw) (confined hexprs callee s w) ?_
      intro f w' hw'
      rw [Eval.run_bind, Eval.run_bind, evalAll_eq hexprs ih arguments hw']
    | number _ | string _ | missing | foreign _ => rfl

theorem chooseBranch_eq (hexprs : containment.ExprSound exprs) (he : Ignores x s exprs) (otherwise : Option Block)
    (arms : List (Expr × Block)) (hw : w.store.Hollow x s) :
    (Eval.chooseBranch exprs x otherwise arms).run w = (Eval.chooseBranch exprs s otherwise arms).run w := by
  induction arms generalizing w with
  | nil => rfl
  | cons arm arms ih =>
    have hcheck : (Eval.condition exprs .conditional arm.1 x).run w = (Eval.condition exprs .conditional arm.1 s).run w :=
      bind_eq hw (he arm.1 w hw) (confined hexprs arm.1 s w) fun _ _ _ => rfl
    refine bind_eq hw hcheck (condition_confined hexprs .conditional arm.1 s w) ?_
    intro b w' hw'
    cases b with
    | true => rfl
    | false => exact ih hw'

end Hollow

/-! ## Passing over one scope -/

def ScopeId.skip (x t : Nat) : Nat := if t < x then t else t + 1

namespace ScopeId

variable {x s t : Nat}

theorem skip_of_lt (h : t < x) : skip x t = t := if_pos h

theorem skip_of_le (h : x ≤ t) : skip x t = t + 1 := if_neg (Nat.not_lt.mpr h)

theorem skip_eq_skip : skip x s = skip x t ↔ s = t := by
  unfold skip
  split <;> split <;> omega

theorem skip_lt_skip : skip x s < skip x t ↔ s < t := by
  unfold skip
  split <;> split <;> omega

theorem skip_ne (x t : Nat) : skip x t ≠ x := by
  unfold skip
  split <;> omega

theorem skip_lt_add_one {n : Nat} (h : x ≤ n) : skip x t < n + 1 ↔ t < n := by
  unfold skip
  split <;> omega

end ScopeId

def Origin.skip (x : ScopeId) : Origin → Origin
  | .declaredIn s => .declaredIn (ScopeId.skip x s)
  | .supplied tag => .supplied tag

def Closure.skip (x : ScopeId) (f : Closure) : Closure := ⟨f.name, f.parameters, f.origin.skip x, f.body⟩

def Value.skip (x : ScopeId) : Value → Value
  | .function f => .function (f.skip x)
  | v => v

def Binding.skip (x : ScopeId) (b : Binding) : Binding := ⟨b.value.skip x, b.constant⟩

namespace Store

open ScopeId

/-- `h'` is `h` with one more scope: `x`, which is nested in `s` and binds nothing. Corresponding scopes bind the same
names, and their parents correspond, except that some of those nested in `s` are now nested in `x`. -/
structure Skips (x s : ScopeId) (h h' : Store) : Prop where
  size_le : x ≤ h.size
  size_eq : h'.size = h.size + 1
  hollow : h'.Hollow x s
  parent (t : ScopeId) : h'.parent? (skip x t) = (h.parent? t).map (skip x) ∨
    x ≤ t ∧ h.parent? t = some s ∧ h'.parent? (skip x t) = some x
  binding (t : ScopeId) (name : Name) : h'.binding? (skip x t) name = (h.binding? t name).map (Binding.skip x)

namespace Skips

variable {h h' : Store} {x s t : ScopeId}

theorem owner?_eq (hs : Skips x s h h') (t : ScopeId) (name : Name) :
    h'.owner? (skip x t) name = (h.owner? t name).map (skip x) := by
  induction t using Nat.strongRecOn with
  | ind t ih =>
    rw [owner?_unfold h', owner?_unfold h, hs.binding, Option.isSome_map]
    by_cases hb : (h.binding? t name).isSome
    · simp [hb]
    · simp only [hb]
      rcases hs.parent t with hp | ⟨hxt, hp, hp'⟩
      · cases hparent : h.parent? t with
        | none => simp [hp, hparent]
        | some p =>
          by_cases hpt : p < t
          · simp [hp, hparent, hpt, skip_lt_skip, ih p hpt]
          · simp [hp, hparent, hpt, skip_lt_skip]
      · -- the way up leads through `x` to `s`
        have hst : s < t := Nat.lt_of_lt_of_le hs.hollow.older hxt
        have hup : h'.owner? x name = (h.owner? s name).map (skip x) := by
          rw [hs.hollow.owner?_eq, ← ih s hst, skip_of_lt hs.hollow.older]
        have hlt : x < skip x t := by
          rw [skip_of_le hxt]
          exact Nat.lt_succ_of_le hxt
        simp [hp, hp', hst, hlt, hup]

theorem add (hs : Skips x s h h') {p p' : Option ScopeId}
    (hp : p' = p.map (skip x) ∨ p = some s ∧ p' = some x) :
    Skips x s (h.add (.empty p)) (h'.add (.empty p')) where
  size_le := Nat.le_trans hs.size_le (Nat.le_of_lt (size_lt_size_add ..))
  size_eq := by rw [size_add, size_add, hs.size_eq]
  hollow := hs.hollow.of_keepsNames (keepsNames_add ..)
  parent t := by
    rw [parent?_add, parent?_add, hs.size_eq]
    by_cases ht : t = h.size
    · have hnew : skip x t = h.size + 1 := by rw [ht, skip_of_le hs.size_le]
      rw [if_pos hnew, if_pos ht]
      rcases hp with hp | ⟨hp, hp'⟩
      · exact .inl hp
      · exact .inr ⟨ht ▸ hs.size_le, hp, hp'⟩
    · have hold : skip x t ≠ h.size + 1 := by
        rw [← skip_of_le hs.size_le]
        exact fun e => ht (skip_eq_skip.mp e)
      rw [if_neg hold, if_neg ht]
      exact hs.parent t
  binding t name := by rw [binding?_add_empty, binding?_add_empty, hs.binding]

theorem bind (hs : Skips x s h h') (t : ScopeId) (name : Name) (b : Binding) :
    Skips x s (h.bind t name b) (h'.bind (skip x t) name (b.skip x)) where
  size_le := (size_bind h t name b).symm ▸ hs.size_le
  size_eq := by rw [size_bind, size_bind, hs.size_eq]
  hollow := by
    refine ⟨(parent?_bind ..).trans hs.hollow.parent, hs.hollow.older, ?_⟩
    rw [names_bind_of_ne (skip_ne x t).symm, hs.hollow.names]
  parent u := by
    rw [parent?_bind, parent?_bind]
    exact hs.parent u
  binding u m := by
    rw [binding?_bind, binding?_bind, hs.binding, hs.size_eq]
    simp only [skip_eq_skip, skip_lt_add_one hs.size_le]
    cases h.binding? u m with
    | some c => rfl
    | none => split <;> rfl

theorem overwrite (hs : Skips x s h h') (t : ScopeId) (name : Name) (v : Value) :
    Skips x s (h.overwrite t name v) (h'.overwrite (skip x t) name (v.skip x)) where
  size_le := (size_overwrite h t name v).symm ▸ hs.size_le
  size_eq := by rw [size_overwrite, size_overwrite, hs.size_eq]
  hollow := hs.hollow.of_keepsNames (keepsNames_overwrite ..)
  parent u := by
    rw [parent?_overwrite, parent?_overwrite]
    exact hs.parent u
  binding u m := by
    rw [binding?_overwrite, binding?_overwrite, hs.binding]
    simp only [skip_eq_skip]
    cases h.binding? u m with
    | none => rfl
    | some b =>
      simp only [Option.map_some]
      split <;> rfl

theorem lookup_eq (hs : Skips x s h h') (t : ScopeId) (name : Name) :
    h'.lookup (skip x t) name = (h.lookup t name).map (Value.skip x) := by
  unfold lookup
  rw [hs.owner?_eq]
  cases h.owner? t name with
  | none => rfl
  | some u =>
    simp only [Option.map_some, Option.bind_some, hs.binding]
    cases h.binding? u name <;> rfl

theorem assignable_eq (hs : Skips x s h h') (t : ScopeId) (name : Name) :
    h'.assignable (skip x t) name = (h.assignable t name).map (skip x) := by
  unfold assignable
  rw [hs.owner?_eq]
  cases h.owner? t name with
  | none => rfl
  | some u =>
    have hconst : ((h.binding? u name).map (Binding.skip x)).any Binding.constant =
        (h.binding? u name).any Binding.constant := by
      cases h.binding? u name <;> rfl
    simp only [Option.map_some, hs.binding, hconst]
    split <;> rfl

theorem declarable_eq (hs : Skips x s h h') (t : ScopeId) (name : Name) :
    h'.declarable (skip x t) name = h.declarable t name := by
  unfold declarable
  rw [hs.binding]
  cases h.binding? t name <;> rfl

end Skips

end Store

/-! ## The coupling -/

namespace Skipping

open Store (Skips)

def Past (x t t' : ScopeId) : Prop := t' = ScopeId.skip x t

variable {x s t t' u u' : ScopeId} {h h' : Store} {v v' : Value}

theorem closure_related (x : ScopeId) (f : Closure) : f.Related (.moved id) (Past x) (f.skip x) := by
  obtain ⟨name, parameters, origin, body⟩ := f
  refine ⟨rfl, (List.map_id _).symm, ?_, (Transcription.block_moved_id body).symm⟩
  cases origin with
  | declaredIn s => exact .declaredIn rfl
  | supplied tag => exact .supplied tag

theorem related_iff : v.Related (.moved id) (Past x) v' ↔ v' = v.skip x := by
  constructor
  · intro hv
    cases hv with
    | plain hv => cases v <;> first | rfl | cases hv
    | @function f g hf =>
      obtain ⟨name, parameters, origin, body⟩ := f
      obtain ⟨name', parameters', origin', body'⟩ := g
      obtain ⟨hname, hparameters, horigin, hbody⟩ := hf
      simp only [Transcription.name_moved, List.map_id, id_eq, Transcription.block_moved_id] at hname hparameters hbody
      subst hname hparameters hbody
      cases horigin with
      | declaredIn hs => cases hs; rfl
      | supplied tag => rfl
  · rintro rfl
    cases v with
    | function f => exact .function (closure_related x f)
    | _ => exact .plain rfl

theorem past_inj (ht : Past x t t') (hu : Past x u u') : t' = u' ↔ t = u := by
  cases ht
  cases hu
  exact ScopeId.skip_eq_skip

theorem enter_past {p p' : Option ScopeId} (hs : Skips x s h h') (hp : Option.Rel (Past x) p p') :
    ∃ _ : Unit, True ∧ Skips x s (h.add (.empty p)) (h'.add (.empty p')) ∧ Past x h.size h'.size := by
  have hparent : p' = p.map (ScopeId.skip x) := by
    cases hp with
    | none => rfl
    | some ht => exact congrArg some ht
  exact ⟨(), trivial, hs.add (.inl hparent), hs.size_eq.trans (ScopeId.skip_of_le hs.size_le).symm⟩

theorem lookup_past (name : Name) (hs : Skips x s h h') (ht : Past x t t') :
    match h.lookup t name, h'.lookup t' ((Transcription.moved id).name name) with
    | .ok v, .ok v' => v.Related (.moved id) (Past x) v'
    | .error e, .error e' => e' = (Transcription.moved id).error e
    | _, _ => False := by
  cases ht
  rw [Transcription.name_moved, id, hs.lookup_eq]
  cases h.lookup t name with
  | ok v => exact related_iff.mpr rfl
  | error e => exact (Reachability.error_moved_id e).symm

theorem assign_past (name : Name) (hs : Skips x s h h') (ht : Past x t t') (hv : v.Related (.moved id) (Past x) v') :
    match h.assignable t name, h'.assignable t' ((Transcription.moved id).name name) with
    | .ok u, .ok u' => Skips x s (h.overwrite u name v) (h'.overwrite u' ((Transcription.moved id).name name) v')
    | .error e, .error e' => e' = (Transcription.moved id).error e
    | _, _ => False := by
  cases ht
  cases related_iff.mp hv
  rw [Transcription.name_moved, id, hs.assignable_eq]
  cases h.assignable t name with
  | ok u => exact hs.overwrite u name v
  | error e => exact (Reachability.error_moved_id e).symm

theorem declare_past (name : Name) (constant : Bool) (hs : Skips x s h h') (ht : Past x t t')
    (hv : v.Related (.moved id) (Past x) v') :
    match h.declarable t name, h'.declarable t' ((Transcription.moved id).name name) with
    | .ok (), .ok () => Skips x s (h.bind t name ⟨v, constant⟩)
        (h'.bind t' ((Transcription.moved id).name name) ⟨v', constant⟩)
    | .error e, .error e' => e' = (Transcription.moved id).error e
    | _, _ => False := by
  cases ht
  cases related_iff.mp hv
  rw [Transcription.name_moved, id, hs.declarable_eq]
  cases h.declarable t name with
  | ok _ => exact hs.bind t name ⟨v, constant⟩
  | error e => exact (Reachability.error_moved_id e).symm

def coupling (x s : ScopeId) : Coupling where
  transcription := .moved id
  Match := Unit
  grows _ _ := True
  scope _ := Past x
  store _ := Skips x s
  grows_refl _ := trivial
  grows_trans _ _ := trivial
  scope_mono _ ht := ht
  scope_inj := past_inj
  enter := enter_past
  lookup := lookup_past
  assign := assign_past
  declare := declare_past

/-! ## Runs that cannot tell -/

variable {σ τ : Type}

def Alike (x s : ScopeId) (m : Eval σ Value) (m' : Eval τ Value) : Prop :=
  ∀ (w : World σ) (w' : World τ), Skips x s w.store w'.store →
    (m'.result w').1 = (m.result w).1.map (Value.skip x) ∧ Skips x s (m.result w).2.store (m'.result w').2.store

theorem alike_of_coupled {m : Eval σ Value} {m' : Eval τ Value}
    (hm : (coupling x s).Coupled () (coupling x s).values m m') : Alike x s m m' := by
  intro w w' hw
  have hrun := hm w w' hw
  unfold Eval.result
  revert hrun
  generalize m.run w = r
  generalize m'.run w' = r'
  intro hrun
  cases hrun with
  | ok _ hs hv => exact ⟨congrArg Except.ok (related_iff.mp hv), hs⟩
  | error _ hs => exact ⟨congrArg Except.error (Transcription.halt_moved id _), hs⟩

theorem evaluate_alike (x s : ScopeId) (bound : Nat) (stmt : Stmt) (t : ScopeId) :
    Alike x s (Eval.evaluate bound stmt t : Eval σ Value) (Eval.evaluate bound stmt (ScopeId.skip x t) : Eval τ Value) := by
  have hcoupled := Coupling.evaluate_coupled (C := coupling x s) (σ := σ) (τ := τ) bound () stmt t _ rfl
  have hstmt : (coupling x s).transcription.stmt stmt = stmt := Transcription.stmt_moved_id stmt
  rw [hstmt] at hcoupled
  exact alike_of_coupled hcoupled

theorem invoke_alike (x s : ScopeId) (bound : Nat) (f : Closure) (arguments : List Value) :
    Alike x s (Eval.invoke (Eval.evaluate bound) f arguments : Eval σ Value)
      (Eval.invoke (Eval.evaluate bound) (f.skip x) (arguments.map (Value.skip x)) : Eval τ Value) := by
  have harguments : List.Forall₂ ((coupling x s).values ()) arguments (arguments.map (Value.skip x)) := by
    rw [List.forall₂_map_right_iff, List.forall₂_same]
    exact fun v _ => related_iff.mpr rfl
  exact alike_of_coupled (Coupling.invoke_coupled (Coupling.evaluate_coupled (C := coupling x s) bound)
    (closure_related x f) harguments)

theorem lookup_alike (x s t : ScopeId) (name : Name) :
    Alike x s (Eval.lookup t name : Eval σ Value) (Eval.lookup (ScopeId.skip x t) name : Eval τ Value) :=
  alike_of_coupled (Coupling.Coupled.lookup (C := coupling x s) rfl name)

theorem assign_alike (x s t : ScopeId) (name : Name) (v : Value) :
    Alike x s (Eval.assign t name v : Eval σ Value) (Eval.assign (ScopeId.skip x t) name (v.skip x) : Eval τ Value) :=
  alike_of_coupled (Coupling.Coupled.assign (C := coupling x s) rfl name (related_iff.mpr rfl))

theorem declare_alike (x s t : ScopeId) (name : Name) (v : Value) (constant : Bool) :
    Alike x s (Eval.declare t name v constant : Eval σ Value)
      (Eval.declare (ScopeId.skip x t) name (v.skip x) constant : Eval τ Value) :=
  alike_of_coupled (Coupling.Coupled.declare (C := coupling x s) rfl name constant (related_iff.mpr rfl))

end Skipping

end BlockScript
