import Provision.FieldPath

/-!
# Pruning a tree

* `Value.removeFields_comm`: fields at two paths can be dropped in either order.
* `Value.removeFields_idem`: what was dropped once is gone.
* `Attributes.prune_prune`: pruning twice by the same paths is pruning once.
* `Attributes.prune_filter`: empty paths name no field, so leaving them out changes nothing.
-/

namespace Provision

namespace Value

@[simp] theorem removeFields_nil (fs : List (String × Value)) : removeFields [] fs = fs := by
  cases fs <;> rfl

/-! ## Two paths -/

mutual

theorem remove_comm (p q : List String) : ∀ v : Value,
    (v.remove q).remove p = (v.remove p).remove q
  | .null | .bool _ | .number _ | .string _ => rfl
  | .list vs => by
    simp only [remove]
    by_cases hp : p.isEmpty
    · simp [hp]
    · by_cases hq : q.isEmpty
      · simp [hq]
      · simp only [hp, hq, Bool.false_eq_true, ↓reduceIte, removeItems_comm p q vs]
  | .map fs => by
    simp only [remove]
    rw [removeFields_comm p q fs]

theorem removeItems_comm (p q : List String) : ∀ vs : List Value,
    removeItems p (removeItems q vs) = removeItems q (removeItems p vs)
  | [] => rfl
  | v :: vs => by
    simp only [removeItems]
    rw [remove_comm p q v, removeItems_comm p q vs]

/-- Fields at two paths can be dropped in either order, also where one path goes on from the
other. -/
theorem removeFields_comm (p q : List String) : ∀ fs : List (String × Value),
    removeFields p (removeFields q fs) = removeFields q (removeFields p fs)
  | [] => by simp [removeFields]
  | (n, v) :: fs => by
    have ih := removeFields_comm p q fs
    cases p with
    | nil => simp
    | cons k r =>
      cases q with
      | nil => simp
      | cons l s =>
        -- Each path keeps, changes or drops the first field, whatever the other one does to it.
        by_cases hk : n = k
        · subst hk
          by_cases hl : n = l
          · subst hl
            by_cases hr : r.isEmpty <;> by_cases hs : s.isEmpty <;>
              simp [removeFields, ih, hr, hs, remove_comm r s v]
          · by_cases hr : r.isEmpty <;> simp [removeFields, ih, hr, hl]
        · by_cases hl : n = l
          · subst hl
            by_cases hs : s.isEmpty <;> simp [removeFields, ih, hs, hk]
          · simp [removeFields, ih, hk, hl]

end

/-! ## One path twice -/

mutual

theorem remove_idem (p : List String) : ∀ v : Value, (v.remove p).remove p = v.remove p
  | .null | .bool _ | .number _ | .string _ => rfl
  | .list vs => by
    simp only [remove]
    by_cases hp : p.isEmpty
    · simp [hp]
    · simp only [hp, Bool.false_eq_true, ↓reduceIte, removeItems_idem p vs]
  | .map fs => by
    simp only [remove]
    rw [removeFields_idem p fs]

theorem removeItems_idem (p : List String) : ∀ vs : List Value,
    removeItems p (removeItems p vs) = removeItems p vs
  | [] => rfl
  | v :: vs => by
    simp only [removeItems]
    rw [remove_idem p v, removeItems_idem p vs]

theorem removeFields_idem (p : List String) : ∀ fs : List (String × Value),
    removeFields p (removeFields p fs) = removeFields p fs
  | [] => by simp [removeFields]
  | (n, v) :: fs => by
    have ih := removeFields_idem p fs
    cases p with
    | nil => simp
    | cons k r =>
      by_cases hk : n = k <;> by_cases hr : r.isEmpty <;>
        simp [removeFields, ih, hr, hk, remove_idem r v]

end

end Value

namespace Attributes

theorem prune_cons (p : FieldPath) (ps : List FieldPath) (a : Attributes) :
    prune (p :: ps) a = prune ps (Value.removeFields p.segments a) := rfl

/-- One more path can be dropped first or last. -/
theorem prune_removeFields (ps : List FieldPath) (p : List String) (a : Attributes) :
    prune ps (Value.removeFields p a) = Value.removeFields p (prune ps a) := by
  induction ps generalizing a with
  | nil => rfl
  | cons q ps ih => rw [prune_cons, prune_cons, Value.removeFields_comm, ih]

/-- Pruning twice by the same paths is pruning once. The paths of the second round are moved past
the others with `prune_removeFields`. -/
theorem prune_prune (ps : List FieldPath) (a : Attributes) :
    prune ps (prune ps a) = prune ps a := by
  induction ps generalizing a with
  | nil => rfl
  | cons p ps ih =>
    have hp := prune_removeFields ps p.segments a
    rw [prune_cons, prune_cons, hp, Value.removeFields_idem, prune_removeFields, ih]

/-- Paths without segments name no field, so it makes no difference whether `Settings` keep them. -/
theorem prune_filter (ps : List FieldPath) (a : Attributes) :
    prune (ps.filter fun p => !p.isEmpty) a = prune ps a := by
  induction ps generalizing a with
  | nil => rfl
  | cons p ps ih =>
    obtain ⟨segments⟩ := p
    cases segments with
    | nil =>
      rw [List.filter_cons_of_neg (by simp [FieldPath.isEmpty]), prune_cons, Value.removeFields_nil]
      exact ih a
    | cons k r =>
      rw [List.filter_cons_of_pos (by simp [FieldPath.isEmpty]), prune_cons, prune_cons]
      exact ih _

end Attributes

end Provision
