import BlockScript.Eval.Expression

/-!
# Running the operations of the machine

One equation for each way an evaluation is built: what it does when it is run
in a world.
-/

namespace BlockScript.Eval

variable {σ α β : Type}

theorem run_bind (m : Eval σ α) (k : α → Eval σ β) (w : World σ) :
    (m >>= k).run w = match m.run w with | .ok a w => (k a).run w | .error halt w => .error halt w := by
  change EStateM.bind m k w = _
  unfold EStateM.bind EStateM.run
  cases m w <;> rfl

theorem run_ofExcept (r : Except RuntimeError α) (w : World σ) :
    (ofExcept r : Eval σ α).run w = match r with | .ok a => .ok a w | .error e => .error (.failed e) w := by
  cases r <;> rfl

theorem run_lookup (s : ScopeId) (name : Name) (w : World σ) :
    (lookup s name : Eval σ Value).run w =
      match w.store.lookup s name with | .ok v => .ok v w | .error e => .error (.failed e) w := by
  change (ofExcept (w.store.lookup s name)).run w = _
  rw [run_ofExcept]
  cases w.store.lookup s name <;> rfl

theorem run_declare (s : ScopeId) (name : Name) (v : Value) (constant : Bool) (w : World σ) :
    (declare s name v constant : Eval σ Value).run w =
      match w.store.declarable s name with
      | .ok () => .ok v { w with store := w.store.bind s name ⟨v, constant⟩ }
      | .error e => .error (.failed e) w := by
  change (ofExcept (w.store.declarable s name) >>= fun _ => _).run w = _
  rw [run_bind, run_ofExcept]
  cases w.store.declarable s name <;> rfl

theorem run_assign (s : ScopeId) (name : Name) (v : Value) (w : World σ) :
    (assign s name v : Eval σ Value).run w =
      match w.store.assignable s name with
      | .ok t => .ok v { w with store := w.store.overwrite t name v }
      | .error e => .error (.failed e) w := by
  change (ofExcept (w.store.assignable s name) >>= fun _ => _).run w = _
  rw [run_bind, run_ofExcept]
  cases w.store.assignable s name <;> rfl

end BlockScript.Eval

namespace BlockScript

/-! ## Results of operators -/

def Value.isPlain : Value → Bool
  | .function _ | .absent => false
  | _ => true

namespace Operator

theorem mem_of_lookup {α : Type} {l : List (Bytes × α)} {op : Bytes} {a : α} (h : l.lookup op = some a) :
    (op, a) ∈ l := by
  obtain ⟨l₁, l₂, rfl, -⟩ := List.lookup_eq_some_iff.mp h
  simp

theorem applyBinary_plain {op : Bytes} {x y v : Value} (h : applyBinary op x y = .ok v) : v.isPlain = true := by
  unfold applyBinary at h
  split at h
  · cases h; rfl
  · split at h
    · cases h; rfl
    · split at h
      · rename_i value ha
        cases h
        unfold arithmetic? at ha
        split at ha
        · obtain ⟨f, hf, rfl⟩ := Option.map_eq_some_iff.mp ha
          have hm := mem_of_lookup hf
          simp only [List.mem_cons, Prod.mk.injEq, List.not_mem_nil, or_false] at hm
          rcases hm with ⟨-, rfl⟩ | ⟨-, rfl⟩ | ⟨-, rfl⟩ | ⟨-, rfl⟩ | ⟨-, rfl⟩ | ⟨-, rfl⟩ | ⟨-, rfl⟩ | ⟨-, rfl⟩ |
            ⟨-, rfl⟩ <;> rfl
        · obtain ⟨f, hf, rfl⟩ := Option.map_eq_some_iff.mp ha
          have hm := mem_of_lookup hf
          simp only [List.mem_cons, Prod.mk.injEq, List.not_mem_nil, or_false] at hm
          rcases hm with ⟨-, rfl⟩ | ⟨-, rfl⟩ | ⟨-, rfl⟩ | ⟨-, rfl⟩ | ⟨-, rfl⟩ <;> rfl
        · cases ha
      · cases h

theorem applyUnary_plain {op : Bytes} {x v : Value} (h : applyUnary op x = .ok v) : v.isPlain = true := by
  unfold applyUnary at h
  split at h
  · split at h
    · cases h; rfl
    · cases h
  · split at h
    · cases h; rfl
    · cases h
  · cases h

theorem applyBinary_eq_error {op : Bytes} {x y : Value} {e : RuntimeError} (h : applyBinary op x y = .error e) :
    e = .typeMismatch (.binary op x.type y.type) := by
  unfold applyBinary at h
  by_cases heq : op = ascii "=="
  · simp [heq] at h
  rw [if_neg heq] at h
  by_cases hne : op = ascii "!="
  · simp [hne] at h
  · rw [if_neg hne] at h
    split at h
    · cases h
    · cases h
      rfl

theorem applyUnary_eq_error {op : Bytes} {x : Value} {e : RuntimeError} (h : applyUnary op x = .error e) :
    e = .typeMismatch (.unary op x.type) := by
  unfold applyUnary at h
  split at h
  · split at h
    · cases h
    · cases h
      rfl
  · split at h
    · cases h
    · cases h
      rfl
  · cases h
    rfl

end Operator

end BlockScript
