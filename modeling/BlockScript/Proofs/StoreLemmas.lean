import BlockScript.Store

/-!
# The store seen through parents and bindings

A store tells two things: the parent of each scope, and what each scope binds.
The three operations that change it are described by their effect on the two,
and nothing else about the representation is used elsewhere.
-/

namespace BlockScript

/-! ## One scope -/

namespace Scope

theorem find?_empty (parent : Option ScopeId) (name : Name) : (empty parent).find? name = none := rfl

theorem find?_insert (scope : Scope) (name m : Name) (b : Binding) :
    (scope.insert name b).find? m = (scope.find? m).or (if m = name then some b else none) := by
  unfold find? insert
  rw [List.lookup_append, List.lookup_cons, List.lookup_nil]
  by_cases h : m = name
  · simp [h]
  · simp [h, beq_false_of_ne h]

theorem find?_update (scope : Scope) (name m : Name) (value : Value) :
    (scope.update name value).find? m =
      (scope.find? m).map fun b => if m = name then ⟨value, b.constant⟩ else b := by
  unfold find? update
  generalize scope.bindings = l
  induction l with
  | nil => rfl
  | cons p l ih =>
    obtain ⟨n, b⟩ := p
    by_cases hm : m = n
    · subst hm
      by_cases hn : m = name
      · simp [hn]
      · simp [hn]
    · by_cases hn : n = name
      · subst hn
        simp [List.lookup_cons, beq_false_of_ne hm, ih]
      · simp [List.lookup_cons, beq_false_of_ne hm, hn, ih]

end Scope

namespace Store

/-! ## Size -/

theorem size_add (h : Store) (scope : Scope) : (h.add scope).size = h.size + 1 := Array.size_push ..

theorem size_lt_size_add (h : Store) (scope : Scope) : h.size < (h.add scope).size := by
  rw [size_add]; exact Nat.lt_succ_self _

theorem size_bind (h : Store) (s : ScopeId) (name : Name) (b : Binding) : (h.bind s name b).size = h.size :=
  Array.size_modify

theorem size_overwrite (h : Store) (s : ScopeId) (name : Name) (v : Value) : (h.overwrite s name v).size = h.size :=
  Array.size_modify

theorem get?_eq_none {h : Store} {s : ScopeId} (hs : h.size ≤ s) : h.get? s = none :=
  Array.getElem?_eq_none hs

theorem get?_add (h : Store) (scope : Scope) (s : ScopeId) :
    (h.add scope).get? s = if s = h.size then some scope else h.get? s := Array.getElem?_push

theorem get?_modify (h : Store) (s t : ScopeId) (f : Scope → Scope) :
    (h.modify s f).get? t = if s = t then (h.get? t).map f else h.get? t := Array.getElem?_modify

theorem lt_size_of_binding? {h : Store} {s : ScopeId} {name : Name} {b : Binding} (hb : h.binding? s name = some b) :
    s < h.size := by
  rcases Nat.lt_or_ge s h.size with hs | hs
  · exact hs
  · simp [binding?, get?_eq_none hs] at hb

/-! ## Parents -/

theorem parent?_add (h : Store) (scope : Scope) (s : ScopeId) :
    (h.add scope).parent? s = if s = h.size then scope.parent else h.parent? s := by
  unfold parent?
  rw [get?_add]
  by_cases hs : s = h.size
  · simp [hs]
  · simp [hs]

theorem parent?_modify (h : Store) (s t : ScopeId) {f : Scope → Scope} (hf : ∀ scope, (f scope).parent = scope.parent) :
    (h.modify s f).parent? t = h.parent? t := by
  unfold parent?
  rw [get?_modify]
  by_cases hs : s = t
  · cases h.get? t <;> simp [hs, hf]
  · simp [hs]

theorem parent?_bind (h : Store) (s t : ScopeId) (name : Name) (b : Binding) :
    (h.bind s name b).parent? t = h.parent? t := parent?_modify h s t fun _ => rfl

theorem parent?_overwrite (h : Store) (s t : ScopeId) (name : Name) (v : Value) :
    (h.overwrite s name v).parent? t = h.parent? t := parent?_modify h s t fun _ => rfl

/-! ## Bindings -/

theorem binding?_add_empty (h : Store) (parent : Option ScopeId) (s : ScopeId) (name : Name) :
    (h.add (.empty parent)).binding? s name = h.binding? s name := by
  unfold binding?
  rw [get?_add]
  by_cases hs : s = h.size
  · simp [hs, get?_eq_none (Nat.le_refl h.size), Scope.find?_empty]
  · simp [hs]

theorem binding?_bind (h : Store) (s t : ScopeId) (name m : Name) (b : Binding) :
    (h.bind s name b).binding? t m =
      (h.binding? t m).or (if t = s ∧ t < h.size ∧ m = name then some b else none) := by
  unfold binding? bind
  rw [get?_modify]
  by_cases hs : s = t
  · subst hs
    rcases Nat.lt_or_ge s h.size with hlt | hge
    · obtain ⟨scope, hscope⟩ : ∃ scope, h.get? s = some scope := ⟨_, Array.getElem?_eq_getElem hlt⟩
      simp [hscope, Scope.find?_insert, hlt]
    · simp [get?_eq_none hge, Nat.not_lt.mpr hge]
  · simp [hs, show ¬ t = s from fun e => hs e.symm]

theorem binding?_bind_self {h : Store} {s : ScopeId} {name : Name} (hs : s < h.size) (hn : h.binding? s name = none)
    (b : Binding) : (h.bind s name b).binding? s name = some b := by
  rw [binding?_bind, hn, Option.none_or, if_pos ⟨rfl, hs, rfl⟩]

theorem binding?_overwrite (h : Store) (s t : ScopeId) (name m : Name) (v : Value) :
    (h.overwrite s name v).binding? t m =
      (h.binding? t m).map fun b => if t = s ∧ m = name then ⟨v, b.constant⟩ else b := by
  unfold binding? overwrite
  rw [get?_modify]
  by_cases hs : s = t
  · subst hs
    cases h.get? s <;> simp [Scope.find?_update]
  · have hts : ¬ t = s := fun e => hs e.symm
    cases h.get? t <;> simp [hs, hts]

theorem eq_or_eq_of_binding?_bind {h : Store} {s t : ScopeId} {name m : Name} {b b' : Binding}
    (hb : (h.bind s name b).binding? t m = some b') : h.binding? t m = some b' ∨ b' = b := by
  rw [binding?_bind, Option.or_eq_some_iff] at hb
  obtain hb | ⟨-, hb⟩ := hb
  · exact .inl hb
  · split at hb
    · cases hb
      exact .inr rfl
    · cases hb

theorem eq_or_eq_of_binding?_overwrite {h : Store} {s t : ScopeId} {name m : Name} {v : Value} {b : Binding}
    (hb : (h.overwrite s name v).binding? t m = some b) : h.binding? t m = some b ∨ b.value = v := by
  rw [binding?_overwrite, Option.map_eq_some_iff] at hb
  obtain ⟨b', hb', rfl⟩ := hb
  by_cases ht : t = s ∧ m = name
  · exact .inr (by rw [if_pos ht])
  · exact .inl (by rw [if_neg ht, hb'])

/-! ## What all bound values are -/

def Holds (P : Value → Prop) (h : Store) : Prop :=
  ∀ ⦃s : ScopeId⦄ ⦃name : Name⦄ ⦃b : Binding⦄, h.binding? s name = some b → P b.value

section

variable {h : Store} {P Q : Value → Prop} {v : Value}

theorem Holds.mono (hp : h.Holds P) (hPQ : ∀ v, P v → Q v) : h.Holds Q := fun _ _ b hb => hPQ b.value (hp hb)

theorem Holds.add (hp : h.Holds P) (parent : Option ScopeId) : (h.add (.empty parent)).Holds P := by
  intro s name b hb
  rw [binding?_add_empty] at hb
  exact hp hb

theorem Holds.bind (hp : h.Holds P) (hv : P v) (s : ScopeId) (name : Name) (constant : Bool) :
    (h.bind s name ⟨v, constant⟩).Holds P := by
  intro t m b hb
  rcases eq_or_eq_of_binding?_bind hb with hb | rfl
  · exact hp hb
  · exact hv

theorem Holds.overwrite (hp : h.Holds P) (hv : P v) (s : ScopeId) (name : Name) : (h.overwrite s name v).Holds P := by
  intro t m b hb
  rcases eq_or_eq_of_binding?_overwrite hb with hb | rfl
  · exact hp hb
  · exact hv

end

/-! ## Chains -/

theorem chain_of_size_le {h : Store} {s : ScopeId} (hs : h.size ≤ s) : h.chain s = [] := by
  rw [chain, get?_eq_none hs]

theorem chain_of_lt_size {h : Store} {s : ScopeId} (hs : s < h.size) :
    h.chain s = s :: (match h.parent? s with | some p => if p < s then h.chain p else [] | none => []) := by
  obtain ⟨scope, hscope⟩ : ∃ scope, h.get? s = some scope := ⟨_, Array.getElem?_eq_getElem hs⟩
  rw [chain, parent?, hscope]
  cases hp : scope.parent with
  | none => simp [hp]
  | some p =>
    by_cases hlt : p < s
    · simp [hp, hlt]
    · simp [hp, hlt]

theorem chain_congr {h h' : Store} (s : ScopeId) (hsize : ∀ t ≤ s, t < h.size ↔ t < h'.size)
    (hparent : ∀ t ≤ s, h'.parent? t = h.parent? t) : h'.chain s = h.chain s := by
  induction s using Nat.strongRecOn with
  | ind s ih =>
    rcases Nat.lt_or_ge s h.size with hs | hs
    · rw [chain_of_lt_size hs, chain_of_lt_size ((hsize s (Nat.le_refl s)).mp hs), hparent s (Nat.le_refl s)]
      cases h.parent? s with
      | none => rfl
      | some p =>
        by_cases hp : p < s
        · have hle : ∀ t, t ≤ p → t ≤ s := fun t ht => Nat.le_trans ht (Nat.le_of_lt hp)
          simp only [hp, ite_true]
          rw [ih p hp (fun t ht => hsize t (hle t ht)) fun t ht => hparent t (hle t ht)]
        · simp only [hp, ite_false]
    · have hs' : h'.size ≤ s := Nat.not_lt.mp fun hlt => Nat.not_lt.mpr hs ((hsize s (Nat.le_refl s)).mpr hlt)
      rw [chain_of_size_le hs, chain_of_size_le hs']

theorem mem_chain_self {h : Store} {s : ScopeId} (hs : s < h.size) : s ∈ h.chain s := by
  rw [chain_of_lt_size hs]; exact List.mem_cons_self

/-! ## Owners -/

theorem owner?_eq_some {h : Store} {s t : ScopeId} {name : Name} (ho : h.owner? s name = some t) :
    t ∈ h.chain s ∧ ∃ b, h.binding? t name = some b := by
  unfold owner? at ho
  refine ⟨List.mem_of_find?_eq_some ho, ?_⟩
  have hsome := List.find?_some ho
  exact Option.isSome_iff_exists.mp hsome

theorem owner?_isSome {h : Store} {s : ScopeId} {name : Name} :
    (h.owner? s name).isSome ↔ ∃ t ∈ h.chain s, (h.binding? t name).isSome := by
  unfold owner?
  rw [List.find?_isSome]

theorem assignable_eq_ok {h : Store} {s t : ScopeId} {name : Name} (ha : h.assignable s name = .ok t) :
    ∃ b, h.binding? t name = some b ∧ b.constant = false := by
  unfold assignable at ha
  split at ha
  · cases ha
  · rename_i u ho
    obtain ⟨-, b, hb⟩ := owner?_eq_some ho
    split at ha
    · cases ha
    · rename_i hc
      cases ha
      exact ⟨b, hb, by simpa [hb] using hc⟩

theorem lookup_eq_ok {h : Store} {s : ScopeId} {name : Name} {v : Value} (hl : h.lookup s name = .ok v) :
    ∃ t b, t ∈ h.chain s ∧ h.binding? t name = some b ∧ b.value = v := by
  unfold lookup at hl
  split at hl
  · cases hl
  · rename_i b hb
    obtain ⟨t, ho, hb⟩ := Option.bind_eq_some_iff.mp hb
    cases hl
    exact ⟨t, b, (owner?_eq_some ho).1, hb, rfl⟩

theorem lookup_eq_error {h : Store} {s : ScopeId} {name : Name} {e : RuntimeError} (hl : h.lookup s name = .error e) :
    e = .undeclaredVariable name := by
  unfold lookup at hl
  split at hl
  · cases hl
    rfl
  · cases hl

theorem assignable_eq_error {h : Store} {s : ScopeId} {name : Name} {e : RuntimeError}
    (ha : h.assignable s name = .error e) : e = .undeclaredVariable name ∨ e = .immutableAssignment name := by
  unfold assignable at ha
  split at ha
  · cases ha
    exact .inl rfl
  · split at ha
    · cases ha
      exact .inr rfl
    · cases ha

theorem declarable_eq_ok {h : Store} {s : ScopeId} {name : Name} (hd : h.declarable s name = .ok ()) :
    h.binding? s name = none := by
  unfold declarable at hd
  split at hd
  · cases hd
  · assumption

theorem declarable_eq_error {h : Store} {s : ScopeId} {name : Name} {e : RuntimeError}
    (hd : h.declarable s name = .error e) : e = .duplicateDeclaration name := by
  unfold declarable at hd
  split at hd
  · cases hd; rfl
  · cases hd

end Store

end BlockScript
