import BlockScript.Proofs.Coupling
import BlockScript.Proofs.StoreLemmas
import BlockScript.Session

/-!
# Transcribed programs run alike

Every operation on scopes commutes with a transcription of the store, so a
transcription is a coupling in which each scope corresponds to itself.
-/

namespace BlockScript.Transcription

variable (T : Transcription)

/-! ## Stores -/

theorem find?_scope (scope : Scope) (name : Name) :
    (T.scope scope).find? (T.name name) = (scope.find? name).map T.binding := by
  obtain ⟨parent, bindings⟩ := scope
  unfold Transcription.scope Scope.find?
  induction bindings with
  | nil => rfl
  | cons p bindings ih =>
    obtain ⟨n, b⟩ := p
    simp only [List.map_cons, List.lookup_cons]
    by_cases h : name = n
    · simp [h]
    · have hT : T.name name ≠ T.name n := fun e => h (T.name_inj e)
      simp only [beq_false_of_ne h, beq_false_of_ne hT]
      exact ih

theorem insert_scope (scope : Scope) (name : Name) (b : Binding) :
    T.scope (scope.insert name b) = (T.scope scope).insert (T.name name) (T.binding b) := by
  simp [Transcription.scope, Scope.insert]

theorem update_scope (scope : Scope) (name : Name) (v : Value) :
    T.scope (scope.update name v) = (T.scope scope).update (T.name name) (T.value v) := by
  simp only [Transcription.scope, Scope.update, List.map_map, Scope.mk.injEq, true_and]
  refine List.map_congr_left fun p _ => ?_
  obtain ⟨n, b⟩ := p
  by_cases h : n = name
  · simp [h, binding]
  · simp [h, T.name_eq_name, binding]

theorem get?_store (h : Store) (s : ScopeId) : (T.store h).get? s = (h.get? s).map T.scope := Array.getElem?_map ..

theorem size_store (h : Store) : (T.store h).size = h.size := Array.size_map ..

theorem store_add (h : Store) (parent : Option ScopeId) :
    T.store (h.add (.empty parent)) = (T.store h).add (.empty parent) := by
  simp [store, Store.add, Transcription.scope, Scope.empty]

theorem store_modify (h : Store) (s : ScopeId) {f g : Scope → Scope}
    (hfg : ∀ scope, T.scope (f scope) = g (T.scope scope)) :
    T.store (h.modify s f) = (T.store h).modify s g := by
  refine congrArg Store.mk (Array.ext_getElem? fun i => ?_)
  change (T.store (h.modify s f)).get? i = ((T.store h).modify s g).get? i
  rw [get?_store, Store.get?_modify, Store.get?_modify, get?_store]
  by_cases hi : s = i
  · cases h.get? i <;> simp [hi, hfg]
  · simp [hi]

theorem store_bind (h : Store) (s : ScopeId) (name : Name) (b : Binding) :
    T.store (h.bind s name b) = (T.store h).bind s (T.name name) (T.binding b) :=
  T.store_modify h s fun scope => T.insert_scope scope name b

theorem store_overwrite (h : Store) (s : ScopeId) (name : Name) (v : Value) :
    T.store (h.overwrite s name v) = (T.store h).overwrite s (T.name name) (T.value v) :=
  T.store_modify h s fun scope => T.update_scope scope name v

theorem parent?_store (h : Store) (s : ScopeId) : (T.store h).parent? s = h.parent? s := by
  unfold Store.parent?
  rw [get?_store]
  cases h.get? s <;> rfl

theorem binding?_store (h : Store) (s : ScopeId) (name : Name) :
    (T.store h).binding? s (T.name name) = (h.binding? s name).map T.binding := by
  unfold Store.binding?
  rw [get?_store]
  cases h.get? s with
  | none => rfl
  | some scope => exact T.find?_scope scope name

theorem chain_store (h : Store) (s : ScopeId) : (T.store h).chain s = h.chain s :=
  Store.chain_congr s (fun t _ => by rw [size_store]) fun t _ => T.parent?_store h t

theorem owner?_store (h : Store) (s : ScopeId) (name : Name) : (T.store h).owner? s (T.name name) = h.owner? s name := by
  unfold Store.owner?
  simp only [chain_store, binding?_store, Option.isSome_map]

theorem lookup_store (h : Store) (s : ScopeId) (name : Name) :
    (T.store h).lookup s (T.name name) =
      match h.lookup s name with | .ok v => .ok (T.value v) | .error e => .error (T.error e) := by
  unfold Store.lookup
  rw [owner?_store]
  cases h.owner? s name with
  | none => rfl
  | some t =>
    simp only [Option.bind_some, binding?_store]
    cases h.binding? t name <;> rfl

theorem assignable_store (h : Store) (s : ScopeId) (name : Name) :
    (T.store h).assignable s (T.name name) =
      match h.assignable s name with | .ok t => .ok t | .error e => .error (T.error e) := by
  unfold Store.assignable
  rw [owner?_store]
  cases h.owner? s name with
  | none => rfl
  | some t =>
    have hconst : ((h.binding? t name).map T.binding).any Binding.constant =
        (h.binding? t name).any Binding.constant := by
      cases h.binding? t name <;> rfl
    simp only [binding?_store, hconst]
    split <;> rfl

theorem declarable_store (h : Store) (s : ScopeId) (name : Name) :
    (T.store h).declarable s (T.name name) =
      match h.declarable s name with | .ok () => .ok () | .error e => .error (T.error e) := by
  unfold Store.declarable
  rw [binding?_store]
  cases h.binding? s name <;> rfl

/-! ## The coupling -/

def Itself (s s' : ScopeId) : Prop := s' = s

theorem related_iff {v v' : Value} : v.Related T Itself v' ↔ v' = T.value v := by
  constructor
  · intro h
    cases h with
    | plain hv => cases v <;> first | rfl | cases hv
    | @function f g hf =>
      obtain ⟨name, parameters, origin, body⟩ := f
      obtain ⟨name', parameters', origin', body'⟩ := g
      obtain ⟨rfl, rfl, horigin, rfl⟩ := hf
      cases horigin with
      | declaredIn hs => cases hs; rfl
      | supplied tag => rfl
  · rintro rfl
    cases v with
    | function f =>
      obtain ⟨name, parameters, origin, body⟩ := f
      refine .function ⟨rfl, rfl, ?_, rfl⟩
      cases origin with
      | declaredIn s => exact .declaredIn rfl
      | supplied tag => exact .supplied tag
    | _ => exact .plain rfl

variable {T} {h h' : Store} {s s' t t' : ScopeId} {v v' : Value}

theorem itself_inj (hs : Itself s s') (ht : Itself t t') : s' = t' ↔ s = t := by
  cases hs
  cases ht
  exact Iff.rfl

theorem enter_transcribed {p p' : Option ScopeId} (hh : h' = T.store h) (hp : Option.Rel Itself p p') :
    ∃ _ : Unit, True ∧ h'.add (.empty p') = T.store (h.add (.empty p)) ∧ Itself h.size h'.size := by
  cases hh
  have hpp : p' = p := by
    cases hp with
    | some hs => exact congrArg some hs
    | none => rfl
  rw [hpp, store_add]
  exact ⟨(), trivial, rfl, T.size_store h⟩

theorem lookup_transcribed (name : Name) (hh : h' = T.store h) (hs : Itself s s') :
    match h.lookup s name, h'.lookup s' (T.name name) with
    | .ok v, .ok v' => v.Related T Itself v'
    | .error e, .error e' => e' = T.error e
    | _, _ => False := by
  cases hh
  cases hs
  rw [lookup_store]
  cases h.lookup s name with
  | ok v => exact T.related_iff.mpr rfl
  | error e => rfl

theorem assign_transcribed (name : Name) (hh : h' = T.store h) (hs : Itself s s') (hv : v.Related T Itself v') :
    match h.assignable s name, h'.assignable s' (T.name name) with
    | .ok t, .ok t' => h'.overwrite t' (T.name name) v' = T.store (h.overwrite t name v)
    | .error e, .error e' => e' = T.error e
    | _, _ => False := by
  cases hh
  cases hs
  cases T.related_iff.mp hv
  rw [assignable_store]
  cases h.assignable s name with
  | ok t => exact (T.store_overwrite h t name v).symm
  | error e => rfl

theorem declare_transcribed (name : Name) (constant : Bool) (hh : h' = T.store h) (hs : Itself s s')
    (hv : v.Related T Itself v') :
    match h.declarable s name, h'.declarable s' (T.name name) with
    | .ok (), .ok () => h'.bind s' (T.name name) ⟨v', constant⟩ = T.store (h.bind s name ⟨v, constant⟩)
    | .error e, .error e' => e' = T.error e
    | _, _ => False := by
  cases hh
  cases hs
  cases T.related_iff.mp hv
  rw [declarable_store]
  cases h.declarable s name with
  | ok _ => exact (T.store_bind h s name ⟨v, constant⟩).symm
  | error e => rfl

variable (T)

def coupling : Coupling where
  transcription := T
  Match := Unit
  grows _ _ := True
  scope _ := Itself
  store _ h h' := h' = T.store h
  grows_refl _ := trivial
  grows_trans _ _ := trivial
  scope_mono _ hs := hs
  scope_inj := itself_inj
  enter := enter_transcribed
  lookup := lookup_transcribed
  assign := assign_transcribed
  declare := declare_transcribed

variable {T} {σ τ : Type}

theorem result_coupled {x : Eval σ Value} {y : Eval τ Value} (hxy : T.coupling.Coupled () T.coupling.values x y)
    {w : World σ} {w' : World τ} (hw : w'.store = T.store w.store) :
    (y.result w').1 =
        (match (x.result w).1 with
          | .ok v => .ok (T.value v)
          | .error halt => .error (T.halt halt)) ∧
      (y.result w').2.store = T.store (x.result w).2.store := by
  have hrun := hxy w w' hw
  unfold Eval.result
  revert hrun
  generalize x.run w = r
  generalize y.run w' = r'
  intro hrun
  cases hrun with
  | ok _ hs hv => exact ⟨congrArg Except.ok (T.related_iff.mp hv), hs⟩
  | error _ hs => exact ⟨rfl, hs⟩

variable (T)

theorem result_evaluate (bound : Nat) (stmt : Stmt) (s : ScopeId) {w : World σ} {w' : World τ}
    (hw : w'.store = T.store w.store) :
    ((Eval.evaluate bound (T.stmt stmt) s).result w').1 =
        (match ((Eval.evaluate bound stmt s).result w).1 with
          | .ok v => .ok (T.value v)
          | .error halt => .error (T.halt halt)) ∧
      ((Eval.evaluate bound (T.stmt stmt) s).result w').2.store =
        T.store ((Eval.evaluate bound stmt s).result w).2.store :=
  result_coupled (Coupling.evaluate_coupled (C := T.coupling) bound () stmt s s rfl) hw

end BlockScript.Transcription
