import Mathlib.Logic.Relation
import BlockScript.Proofs.StoreLemmas
import BlockScript.Proofs.MachineLemmas
import BlockScript.Session

/-!
# Who sees a declaration or an assignment

Scopes form trees that are shared by all who run in them. A name read in a
scope belongs to its owner there: the innermost scope on the way up that binds
it. Declaring a name changes what is read by exactly those whose owner the
declaring scope becomes, and assigning to it by exactly those who have the same
owner; an operation that fails changes nothing for anybody.
-/

namespace BlockScript

namespace Store

/-- A store made by the operations on scopes, in any order and whether or not they succeed. -/
inductive Built : Store → Prop
  | empty : Built .empty
  | newScope {h : Store} {parent : Option ScopeId} : Built h → (∀ p ∈ parent, p < h.size) → Built (h.add (.empty parent))
  | newGlobalScope {h : Store} : Built h → Built (h.add .globals)
  | declare {σ : Type} {w : World σ} (s : ScopeId) (name : Name) (v : Value) (constant : Bool) :
      Built w.store → Built ((Eval.declare s name v constant).result w).2.store
  | assign {σ : Type} {w : World σ} (s : ScopeId) (name : Name) (v : Value) :
      Built w.store → Built ((Eval.assign s name v).result w).2.store

def Binds (h : Store) (s : ScopeId) (name : Name) : Prop := ∃ b, h.binding? s name = some b

def BindsConstant (h : Store) (s : ScopeId) (name : Name) : Prop := ∃ b, h.binding? s name = some b ∧ b.constant = true

def Encloses (h : Store) (t s : ScopeId) : Prop := Relation.ReflTransGen (fun a b => h.parent? a = some b) s t

/-- For `t` the name belongs to `s`: on the way up from `t`, the first scope that binds it is `s`. -/
inductive Owns (h : Store) (s : ScopeId) (name : Name) : (t : ScopeId) → Prop
  | here : h.Binds s name → Owns h s name s
  | outer {t p : ScopeId} : ¬ h.Binds t name → h.parent? t = some p → Owns h s name p → Owns h s name t

def Ordered (h : Store) : Prop := ∀ s p, h.parent? s = some p → p < s

variable {h h' : Store} {s t p : ScopeId} {name m : Name} {b : Binding} {v : Value}

theorem binding?_eq_none_iff : h.binding? s name = none ↔ ¬ h.Binds s name := by
  rw [Binds, Option.eq_none_iff_forall_ne_some, not_exists]

theorem lt_size_of_parent? (hp : h.parent? t = some p) : t < h.size := by
  rcases Nat.lt_or_ge t h.size with ht | ht
  · exact ht
  · simp [parent?, get?_eq_none ht] at hp

/-! ## Walking up -/

theorem owner?_of_binds (hb : h.Binds s name) : h.owner? s name = some s := by
  obtain ⟨b, hb⟩ := hb
  rw [owner?, chain_of_lt_size (lt_size_of_binding? hb), List.find?_cons_of_pos]
  simp [hb]

theorem owner?_of_root (hb : ¬ h.Binds t name) (hp : h.parent? t = none) : h.owner? t name = none := by
  rcases Nat.lt_or_ge t h.size with ht | ht
  · rw [owner?, chain_of_lt_size ht, List.find?_cons_of_neg, hp]
    · rfl
    · simp [binding?_eq_none_iff.mpr hb]
  · rw [owner?, chain_of_size_le ht, List.find?_nil]

theorem Ordered.owner?_of_parent (ho : h.Ordered) (hb : ¬ h.Binds t name) (hp : h.parent? t = some p) :
    h.owner? t name = h.owner? p name := by
  rw [owner?, chain_of_lt_size (lt_size_of_parent? hp), List.find?_cons_of_neg, hp]
  · simp only [ho t p hp, if_true]
    rfl
  · simp [binding?_eq_none_iff.mpr hb]

theorem Ordered.exists_owner (ho : h.Ordered) (t : ScopeId) (name : Name) :
    (∃ s, h.Owns s name t) ∨ h.owner? t name = none ∧ ∀ s, h.Encloses s t → ¬ h.Binds s name := by
  induction t using Nat.strongRecOn with
  | ind t ih =>
    by_cases hb : h.Binds t name
    · exact .inl ⟨t, .here hb⟩
    cases hp : h.parent? t with
    | none =>
      refine .inr ⟨owner?_of_root hb hp, fun s hs => ?_⟩
      obtain rfl | ⟨p, hp', -⟩ := Relation.ReflTransGen.cases_head hs
      · exact hb
      · cases hp.symm.trans hp'
    | some p =>
      obtain ⟨s, hs⟩ | ⟨hnone, hall⟩ := ih p (ho t p hp)
      · exact .inl ⟨s, .outer hb hp hs⟩
      · refine .inr ⟨(ho.owner?_of_parent hb hp).trans hnone, fun s hs => ?_⟩
        obtain rfl | ⟨q, hq, hs⟩ := Relation.ReflTransGen.cases_head hs
        · exact hb
        · cases hp.symm.trans hq
          exact hall s hs

theorem Owns.binds (hs : h.Owns s name t) : h.Binds s name := by
  induction hs with
  | here hb => exact hb
  | outer _ _ _ ih => exact ih

theorem Owns.encloses (hs : h.Owns s name t) : h.Encloses s t := by
  induction hs with
  | here => exact .refl
  | outer _ hp _ ih => exact .head hp ih

theorem Owns.owner? (hs : h.Owns s name t) (ho : h.Ordered) : h.owner? t name = some s := by
  induction hs with
  | here hb => exact owner?_of_binds hb
  | outer hb hp _ ih => rw [ho.owner?_of_parent hb hp, ih]

theorem Owns.unique (hs : h.Owns s name t) (ho : h.Ordered) {u : ScopeId} (hu : h.Owns u name t) : s = u :=
  Option.some.inj ((hs.owner? ho).symm.trans (hu.owner? ho))

theorem Owns.lookup (hs : h.Owns s name t) (ho : h.Ordered) (hb : h.binding? s name = some b) :
    h.lookup t name = .ok b.value := by
  rw [Store.lookup, hs.owner? ho, Option.bind_some, hb]

theorem Owns.congr (hs : h.Owns s name t) (hparent : ∀ u, h'.parent? u = h.parent? u)
    (hbinds : ∀ u, h'.Binds u name ↔ h.Binds u name) : h'.Owns s name t := by
  induction hs with
  | here hb => exact .here ((hbinds s).mpr hb)
  | outer hb hp _ ih => exact .outer (fun hb' => hb ((hbinds _).mp hb')) ((hparent _).trans hp) ih

/-- Two stores that differ in what `s` binds `name` to, and in nothing else on the way up, differ only for those for
whom `name` belongs to `s`. -/
theorem Ordered.lookup_eq_of_not_owns (ho : h.Ordered) (hparent : ∀ u, h'.parent? u = h.parent? u)
    (hbinding : ∀ u, ¬ (m = name ∧ u = s ∧ h'.Binds u m) → h'.binding? u m = h.binding? u m)
    (ht : ¬ (m = name ∧ h'.Owns s name t)) : h'.lookup t m = h.lookup t m := by
  have ho' : h'.Ordered := fun u p hp => ho u p ((hparent u).symm.trans hp)
  induction t using Nat.strongRecOn with
  | ind t ih =>
    have hsame : h'.binding? t m = h.binding? t m := by
      refine hbinding t fun ⟨hm, hts, hb⟩ => ht ⟨hm, ?_⟩
      subst hm hts
      exact .here hb
    by_cases hb : h.Binds t m
    · obtain ⟨b, hb⟩ := hb
      rw [(Owns.here ⟨b, hb⟩).lookup ho hb, (Owns.here ⟨b, hsame.trans hb⟩).lookup ho' (hsame.trans hb)]
    · have hb' : ¬ h'.Binds t m := by rwa [← binding?_eq_none_iff, hsame, binding?_eq_none_iff]
      cases hp : h.parent? t with
      | none => rw [lookup, lookup, owner?_of_root hb hp, owner?_of_root hb' ((hparent t).trans hp)]; rfl
      | some p =>
        have hp' := (hparent t).trans hp
        have hup := ih p (ho t p hp) fun ⟨hm, hs⟩ => ht ⟨hm, .outer (hm ▸ hb') hp' hs⟩
        rw [lookup, lookup, ho.owner?_of_parent hb hp, ho'.owner?_of_parent hb' hp']
        exact hup

/-! ## One binding more -/

theorem binds_bind_iff (hs : s < h.size) (b : Binding) (u : ScopeId) (m : Name) :
    (h.bind s name b).Binds u m ↔ h.Binds u m ∨ u = s ∧ m = name := by
  unfold Binds
  rw [binding?_bind]
  cases h.binding? u m with
  | some b' => simp
  | none =>
    by_cases hu : u = s ∧ m = name
    · simp [hu, hs]
    · have hu' : ¬ (u = s ∧ u < h.size ∧ m = name) := fun h => hu ⟨h.1, h.2.2⟩
      simp [hu, hu']

theorem bindsConstant_bind_iff (hs : s < h.size) (hb : ¬ h.Binds s name) (b : Binding) (u : ScopeId) (m : Name) :
    (h.bind s name b).BindsConstant u m ↔ h.BindsConstant u m ∨ u = s ∧ m = name ∧ b.constant = true := by
  unfold BindsConstant
  rw [binding?_bind]
  by_cases hu : u = s ∧ m = name
  · obtain ⟨rfl, rfl⟩ := hu
    simp [binding?_eq_none_iff.mpr hb, hs]
  · have hu' : ¬ (u = s ∧ u < h.size ∧ m = name) := fun h => hu ⟨h.1, h.2.2⟩
    have hfar : ¬ (u = s ∧ m = name ∧ b.constant = true) := fun h => hu ⟨h.1, h.2.1⟩
    rw [if_neg hu', Option.or_none, or_iff_left hfar]

theorem Ordered.bind (ho : h.Ordered) (s : ScopeId) (name : Name) (b : Binding) : (h.bind s name b).Ordered :=
  fun u p hp => ho u p (by rwa [parent?_bind] at hp)

theorem Ordered.lookup_bind_of_owns (ho : h.Ordered) (hs : s < h.size) (hb : ¬ h.Binds s name)
    (ht : (h.bind s name b).Owns s name t) : (h.bind s name b).lookup t name = .ok b.value :=
  ht.lookup (ho.bind s name b) (binding?_bind_self hs (binding?_eq_none_iff.mpr hb) b)

theorem Ordered.lookup_bind_of_not_owns (ho : h.Ordered) (hs : s < h.size)
    (ht : ¬ (m = name ∧ (h.bind s name b).Owns s name t)) : (h.bind s name b).lookup t m = h.lookup t m := by
  refine ho.lookup_eq_of_not_owns (fun _ => parent?_bind ..) (fun u hu => ?_) ht
  rw [binding?_bind]
  by_cases hum : u = s ∧ m = name
  · exact absurd ⟨hum.2, hum.1, (binds_bind_iff hs b u m).mpr (.inr hum)⟩ hu
  · rw [if_neg fun h => hum ⟨h.1, h.2.2⟩, Option.or_none]

/-! ## One value replaced -/

theorem binds_overwrite_iff (u : ScopeId) (m : Name) : (h.overwrite s name v).Binds u m ↔ h.Binds u m := by
  unfold Binds
  rw [binding?_overwrite]
  cases h.binding? u m <;> simp

theorem bindsConstant_overwrite_iff (u : ScopeId) (m : Name) :
    (h.overwrite s name v).BindsConstant u m ↔ h.BindsConstant u m := by
  unfold BindsConstant
  rw [binding?_overwrite]
  cases h.binding? u m with
  | none => simp
  | some b => by_cases hu : u = s ∧ m = name <;> simp [hu]

theorem Ordered.overwrite (ho : h.Ordered) (s : ScopeId) (name : Name) (v : Value) : (h.overwrite s name v).Ordered :=
  fun u p hp => ho u p (by rwa [parent?_overwrite] at hp)

theorem owns_overwrite_iff {u : ScopeId} : (h.overwrite u m v).Owns s name t ↔ h.Owns s name t :=
  ⟨fun hs => hs.congr (fun _ => (parent?_overwrite ..).symm) fun _ => (binds_overwrite_iff ..).symm,
    fun hs => hs.congr (fun _ => parent?_overwrite ..) fun _ => binds_overwrite_iff ..⟩

theorem Ordered.lookup_overwrite_of_owns (ho : h.Ordered) (v : Value) (ht : h.Owns s name t) :
    (h.overwrite s name v).lookup t name = .ok v := by
  obtain ⟨b, hb⟩ := ht.binds
  have hv : (h.overwrite s name v).binding? s name = some ⟨v, b.constant⟩ := by
    rw [binding?_overwrite, hb, Option.map_some, if_pos ⟨rfl, rfl⟩]
  exact (owns_overwrite_iff.mpr ht).lookup (ho.overwrite s name v) hv

theorem Ordered.lookup_overwrite_of_not_owns (ho : h.Ordered) (v : Value) (hb : h.Binds s name)
    (ht : ¬ (m = name ∧ h.Owns s name t)) : (h.overwrite s name v).lookup t m = h.lookup t m := by
  refine ho.lookup_eq_of_not_owns (fun _ => parent?_overwrite ..) (fun u hu => ?_) (by rwa [owns_overwrite_iff])
  have hum : ¬ (u = s ∧ m = name) := by
    rintro ⟨rfl, rfl⟩
    exact hu ⟨rfl, rfl, (binds_overwrite_iff u m).mpr hb⟩
  simp only [binding?_overwrite, if_neg hum, Option.map_id_fun', id]

end Store

/-! ## The operations -/

namespace Eval

variable {σ : Type} {w : World σ} {s : ScopeId} {name : Name} {v : Value} {constant : Bool}

theorem result_declare_of_binds (hb : w.store.Binds s name) :
    (declare s name v constant).result w = (.error (.failed (.duplicateDeclaration name)), w) := by
  obtain ⟨b, hb⟩ := hb
  rw [result, run_declare, Store.declarable, hb]

theorem result_declare (hb : ¬ w.store.Binds s name) :
    (declare s name v constant).result w = (.ok v, { w with store := w.store.bind s name ⟨v, constant⟩ }) := by
  rw [result, run_declare, Store.declarable, Store.binding?_eq_none_iff.mpr hb]

theorem result_assign_of_unbound (hnone : w.store.owner? s name = none) :
    (assign s name v).result w = (.error (.failed (.undeclaredVariable name)), w) := by
  rw [result, run_assign, Store.assignable, hnone]

variable {t : ScopeId} (ho : w.store.Ordered) (ht : w.store.Owns t name s)

include ho ht

theorem result_assign_of_constant (hc : w.store.BindsConstant t name) :
    (assign s name v).result w = (.error (.failed (.immutableAssignment name)), w) := by
  obtain ⟨b, hb, hc⟩ := hc
  simp [result, run_assign, Store.assignable, ht.owner? ho, hb, hc]

theorem result_assign (hc : ¬ w.store.BindsConstant t name) :
    (assign s name v).result w = (.ok v, { w with store := w.store.overwrite t name v }) := by
  obtain ⟨b, hb⟩ := ht.binds
  have hvar : b.constant = false := by
    rw [← Bool.not_eq_true]
    exact fun h => hc ⟨b, hb, h⟩
  simp [result, run_assign, Store.assignable, ht.owner? ho, hb, hvar]

end Eval

theorem Store.Built.ordered {h : Store} (hb : h.Built) : h.Ordered := by
  induction hb with
  | empty =>
    intro s p hp
    simp [parent?, Store.empty, get?] at hp
  | newScope _ hparent ih =>
    intro s p hp
    rw [parent?_add] at hp
    split at hp
    · rename_i hs
      exact hs ▸ hparent p hp
    · exact ih s p hp
  | newGlobalScope _ ih =>
    intro s p hp
    rw [parent?_add] at hp
    split at hp
    · cases hp
    · exact ih s p hp
  | @declare _ w s name v constant _ ih =>
    by_cases hb : w.store.Binds s name
    · rwa [Eval.result_declare_of_binds hb]
    · rw [Eval.result_declare hb]
      exact ih.bind s name _
  | @assign _ w s name v _ ih =>
    obtain ⟨t, ht⟩ | ⟨hnone, -⟩ := ih.exists_owner s name
    · by_cases hc : w.store.BindsConstant t name
      · rwa [Eval.result_assign_of_constant ih ht hc]
      · rw [Eval.result_assign ih ht hc]
        exact ih.overwrite t name v
    · rwa [Eval.result_assign_of_unbound hnone]

/-- What it means to declare `name` in the scope `s` with the value `v`; `r` is the outcome and the world it leaves. -/
structure Declares {σ : Type} (w : World σ) (s : ScopeId) (name : Name) (v : Value) (constant : Bool)
    (r : Except Halt Value × World σ) : Prop where
  fails_iff : r.1 = .error (.failed (.duplicateDeclaration name)) ↔ w.store.Binds s name
  succeeds : ¬ w.store.Binds s name → r.1 = .ok v
  parents : ∀ u, r.2.store.parent? u = w.store.parent? u
  names : ¬ w.store.Binds s name → ∀ u m, r.2.store.Binds u m ↔ w.store.Binds u m ∨ u = s ∧ m = name
  constants : ¬ w.store.Binds s name → ∀ u m,
    r.2.store.BindsConstant u m ↔ w.store.BindsConstant u m ∨ u = s ∧ m = name ∧ constant = true
  seen : ¬ w.store.Binds s name → ∀ t, r.2.store.Owns s name t → r.2.store.lookup t name = .ok v
  unseen : ¬ w.store.Binds s name → ∀ t m, ¬ (m = name ∧ r.2.store.Owns s name t) →
    r.2.store.lookup t m = w.store.lookup t m
  failed : ∀ halt, r.1 = .error halt → r.2 = w

structure Assigns {σ : Type} (w : World σ) (s : ScopeId) (name : Name) (v : Value) (r : Except Halt Value × World σ) :
    Prop where
  undeclared_iff : r.1 = .error (.failed (.undeclaredVariable name)) ↔ ∀ t, w.store.Encloses t s → ¬ w.store.Binds t name
  immutable_iff : r.1 = .error (.failed (.immutableAssignment name)) ↔
    ∃ owner, w.store.Owns owner name s ∧ w.store.BindsConstant owner name
  succeeds : ∀ owner, w.store.Owns owner name s → ¬ w.store.BindsConstant owner name → r.1 = .ok v
  parents : ∀ u, r.2.store.parent? u = w.store.parent? u
  names : ∀ u m, r.2.store.Binds u m ↔ w.store.Binds u m
  constants : ∀ u m, r.2.store.BindsConstant u m ↔ w.store.BindsConstant u m
  seen : ∀ owner, w.store.Owns owner name s → ¬ w.store.BindsConstant owner name →
    ∀ t, w.store.Owns owner name t → r.2.store.lookup t name = .ok v
  unseen : ∀ owner, w.store.Owns owner name s → ¬ w.store.BindsConstant owner name →
    ∀ t m, ¬ (m = name ∧ w.store.Owns owner name t) → r.2.store.lookup t m = w.store.lookup t m
  failed : ∀ halt, r.1 = .error halt → r.2 = w

section

variable {σ : Type} {w : World σ} {s : ScopeId}

theorem declares (ho : w.store.Ordered) (hs : s < w.store.size) (name : Name) (v : Value) (constant : Bool) :
    Declares w s name v constant ((Eval.declare s name v constant).result w) := by
  by_cases hb : w.store.Binds s name
  · rw [Eval.result_declare_of_binds hb]
    exact ⟨by simp [hb], fun h => absurd hb h, fun _ => rfl, fun h => absurd hb h, fun h => absurd hb h,
      fun h => absurd hb h, fun h => absurd hb h, fun _ _ => rfl⟩
  · rw [Eval.result_declare hb]
    exact ⟨by simp [hb], fun _ => rfl, fun _ => Store.parent?_bind .., fun _ => Store.binds_bind_iff hs _,
      fun _ => Store.bindsConstant_bind_iff hs hb _, fun _ _ ht => ho.lookup_bind_of_owns hs hb ht,
      fun _ _ _ ht => ho.lookup_bind_of_not_owns hs ht, by simp⟩

theorem assigns (ho : w.store.Ordered) (s : ScopeId) (name : Name) (v : Value) :
    Assigns w s name v ((Eval.assign s name v).result w) := by
  obtain ⟨t, ht⟩ | ⟨hnone, hall⟩ := ho.exists_owner s name
  · have honly : ∀ owner, w.store.Owns owner name s → owner = t := fun owner h => h.unique ho ht
    have hbound : ¬ ∀ t, w.store.Encloses t s → ¬ w.store.Binds t name := fun h => h t ht.encloses ht.binds
    by_cases hc : w.store.BindsConstant t name
    · rw [Eval.result_assign_of_constant ho ht hc]
      have hconst : ∀ owner, w.store.Owns owner name s → w.store.BindsConstant owner name :=
        fun owner h => honly owner h ▸ hc
      exact ⟨by simp [hbound], iff_of_true rfl ⟨t, ht, hc⟩, fun o h h' => absurd (hconst o h) h', fun _ => rfl,
        fun _ _ => .rfl, fun _ _ => .rfl, fun o h h' => absurd (hconst o h) h', fun o h h' => absurd (hconst o h) h',
        fun _ _ => rfl⟩
    · rw [Eval.result_assign ho ht hc]
      refine ⟨by simp [hbound], iff_of_false (by simp) ?_, fun _ _ _ => rfl, fun _ => Store.parent?_overwrite ..,
        Store.binds_overwrite_iff, Store.bindsConstant_overwrite_iff, ?_, ?_, by simp⟩
      · rintro ⟨owner, h, hconst⟩
        exact hc (honly owner h ▸ hconst)
      · intro owner h _ u hu
        exact ho.lookup_overwrite_of_owns v (honly owner h ▸ hu)
      · intro owner h _ u m hu
        rw [honly owner h] at hu
        exact ho.lookup_overwrite_of_not_owns v ht.binds hu
  · rw [Eval.result_assign_of_unbound hnone]
    have hnever : ∀ owner, ¬ w.store.Owns owner name s := fun owner h => hall owner h.encloses h.binds
    exact ⟨by simpa using hall, by simp [hnever], fun o h => absurd h (hnever o), fun _ => rfl, fun _ _ => .rfl,
      fun _ _ => .rfl, fun o h => absurd h (hnever o), fun o h => absurd h (hnever o), fun _ _ => rfl⟩

/-- Whatever a store was built by: declaring and assigning in one of its scopes do what they mean. -/
theorem operations_reach_those_owned (hw : w.store.Built) (hs : s < w.store.size) (name : Name) (v : Value)
    (constant : Bool) :
    Declares w s name v constant ((Eval.declare s name v constant).result w) ∧
      Assigns w s name v ((Eval.assign s name v).result w) :=
  ⟨declares hw.ordered hs name v constant, assigns hw.ordered s name v⟩

end

namespace Shadowing

def x : Name := ascii "x"

/-- Two scopes side by side in a third one, whose constant `x` hides the variable `x` of the outermost. -/
def family : World Unit :=
  let tree := (((Store.empty.add .globals).add (.empty (some 0))).add (.empty (some 1))).add (.empty (some 1))
  let outer := ((Eval.declare 0 x .null false).result ⟨tree, #[], ()⟩).2
  ((Eval.declare 1 x (.boolean false) true).result outer).2

theorem operations_family :
    family.store.Built ∧
      Declares family 2 x (.boolean true) false ((Eval.declare 2 x (.boolean true) false).result family) ∧
      ((Eval.declare 2 x (.boolean true) false).result family).2.store.lookup 2 x = .ok (.boolean true) ∧
      ((Eval.declare 2 x (.boolean true) false).result family).2.store.lookup 3 x = .ok (.boolean false) ∧
      Assigns family 3 x (.boolean true) ((Eval.assign 3 x (.boolean true)).result family) ∧
      (Eval.assign 3 x (.boolean true)).result family = (.error (.failed (.immutableAssignment x)), family) := by
  have hbuilt : family.store.Built := by
    refine .declare 1 x _ true (.declare 0 x .null false ?_)
    refine .newScope (.newScope (.newScope (.newGlobalScope .empty) ?_) ?_) ?_
    all_goals
      intro p hp
      cases hp
      decide
  obtain ⟨hd, -⟩ := operations_reach_those_owned (s := 2) hbuilt (by decide) x (.boolean true) false
  obtain ⟨-, ha⟩ := operations_reach_those_owned (s := 3) hbuilt (by decide) x (.boolean true) false
  have hfree : ¬ family.store.Binds 2 x := Store.binding?_eq_none_iff.mp rfl
  have hother : ¬ family.store.Binds 3 x := Store.binding?_eq_none_iff.mp rfl
  have howner : family.store.Owns 1 x 3 := .outer hother rfl (.here ⟨_, rfl⟩)
  refine ⟨hbuilt, hd, ?_, ?_, ha, ?_⟩
  · exact hd.seen hfree 2 (.here ((hd.names hfree 2 x).mpr (.inr ⟨rfl, rfl⟩)))
  · refine (hd.unseen hfree 3 x ?_).trans (howner.lookup hbuilt.ordered (b := ⟨.boolean false, true⟩) rfl)
    rintro ⟨-, h⟩
    have hafter : ((Eval.declare 2 x (.boolean true) false).result family).2.store.Owns 1 x 3 :=
      .outer (Store.binding?_eq_none_iff.mp rfl) rfl (.here ⟨_, rfl⟩)
    cases h.unique (Store.Built.declare 2 x (.boolean true) false hbuilt).ordered hafter
  · have hfails := ha.immutable_iff.mpr ⟨1, howner, _, rfl, rfl⟩
    exact Prod.ext hfails (ha.failed _ hfails)

end Shadowing

end BlockScript
