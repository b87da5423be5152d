import Provision.Fields
import Provision.Number

/-!
# Attribute trees

A `Value` is a tree of maps, lists and scalars; the attributes of a resource are the fields of its
topmost map. Maps keep their fields in key order, which `Value.Ordered` states for a whole tree.

* `Value.same` compares trees: an integer never equals a double, doubles compare by value.
* `Value.same_refl`: every tree is the same as itself.
-/

namespace Provision

/-- A scalar, a list or a map. -/
inductive Value where
  | null
  | bool (b : Bool)
  | number (n : Number)
  | string (s : String)
  | list (items : List Value)
  | map (fields : List (String × Value))

/-- The attribute tree of a resource, as the fields of its topmost map. -/
abbrev Attributes := Fields Value

namespace Value

instance : Inhabited Value := ⟨.null⟩

/-- Neither a list nor a map. -/
def isScalar : Value → Bool
  | .list _ | .map _ => false
  | _ => true

/-! ## Equality -/

mutual

private def decideEq : (v w : Value) → Decidable (v = w)
  | .null, w => match w with
    | .null => isTrue rfl
    | .bool _ | .number _ | .string _ | .list _ | .map _ => isFalse nofun
  | .bool b, w => match w with
    | .bool c => decidable_of_iff (b = c) (by simp)
    | .null | .number _ | .string _ | .list _ | .map _ => isFalse nofun
  | .number m, w => match w with
    | .number n => decidable_of_iff (m = n) (by simp)
    | .null | .bool _ | .string _ | .list _ | .map _ => isFalse nofun
  | .string s, w => match w with
    | .string t => decidable_of_iff (s = t) (by simp)
    | .null | .bool _ | .number _ | .list _ | .map _ => isFalse nofun
  | .list vs, w => match w with
    | .list ws => match decideEqItems vs ws with
      | isTrue h => isTrue (by rw [h])
      | isFalse h => isFalse (by simpa using h)
    | .null | .bool _ | .number _ | .string _ | .map _ => isFalse nofun
  | .map fs, w => match w with
    | .map gs => match decideEqFields fs gs with
      | isTrue h => isTrue (by rw [h])
      | isFalse h => isFalse (by simpa using h)
    | .null | .bool _ | .number _ | .string _ | .list _ => isFalse nofun

private def decideEqItems : (vs ws : List Value) → Decidable (vs = ws)
  | [], [] => isTrue rfl
  | [], _ :: _ | _ :: _, [] => isFalse nofun
  | v :: vs, w :: ws => match decideEq v w, decideEqItems vs ws with
    | isTrue h, isTrue hs => isTrue (by rw [h, hs])
    | isFalse h, _ => isFalse fun e => h (List.cons.inj e).1
    | _, isFalse h => isFalse fun e => h (List.cons.inj e).2

private def decideEqFields : (fs gs : List (String × Value)) → Decidable (fs = gs)
  | [], [] => isTrue rfl
  | [], _ :: _ | _ :: _, [] => isFalse nofun
  | (k, v) :: fs, (n, w) :: gs =>
    if hk : k = n then
      match decideEq v w, decideEqFields fs gs with
      | isTrue h, isTrue hs => isTrue (by rw [hk, h, hs])
      | isFalse h, _ => isFalse fun e => h (Prod.mk.inj (List.cons.inj e).1).2
      | _, isFalse h => isFalse fun e => h (List.cons.inj e).2
    else isFalse fun e => hk (Prod.mk.inj (List.cons.inj e).1).1

end

instance : DecidableEq Value := decideEq

mutual

/-- Equality of trees, numbers by `Number.same`. -/
def same : Value → Value → Bool
  | .null, .null => true
  | .bool b, .bool c => b = c
  | .number m, .number n => m.same n
  | .string s, .string t => s = t
  | .list vs, .list ws => sameItems vs ws
  | .map fs, .map gs => sameFields fs gs
  | _, _ => false

/-- Equality of lists, place by place. -/
def sameItems : List Value → List Value → Bool
  | [], [] => true
  | v :: vs, w :: ws => v.same w && sameItems vs ws
  | _, _ => false

/-- Equality of fields in key order. -/
def sameFields : List (String × Value) → List (String × Value) → Bool
  | [], [] => true
  | (k, v) :: fs, (n, w) :: gs => k = n && v.same w && sameFields fs gs
  | _, _ => false

end

mutual

theorem same_refl : ∀ v : Value, same v v = true
  | .null => rfl
  | .bool _ => by simp [same]
  | .number n => by simp [same, Number.same_refl]
  | .string _ => by simp [same]
  | .list vs => by rw [same]; exact sameItems_refl vs
  | .map fs => by rw [same]; exact sameFields_refl fs

theorem sameItems_refl : ∀ vs : List Value, sameItems vs vs = true
  | [] => rfl
  | v :: vs => by simp [sameItems, same_refl v, sameItems_refl vs]

theorem sameFields_refl : ∀ fs : List (String × Value), sameFields fs fs = true
  | [] => rfl
  | (_, v) :: fs => by simp [sameFields, same_refl v, sameFields_refl fs]

end

/-! ## Key order -/

mutual

/-- Every map of the tree lists its fields in key order. -/
def Ordered : Value → Prop
  | .list vs => OrderedItems vs
  | .map fs => Fields.Sorted fs ∧ OrderedFields fs
  | _ => True

/-- `Ordered`, of every item. -/
def OrderedItems : List Value → Prop
  | [] => True
  | v :: vs => v.Ordered ∧ OrderedItems vs

/-- `Ordered`, of every field. -/
def OrderedFields : List (String × Value) → Prop
  | [] => True
  | (_, v) :: fs => v.Ordered ∧ OrderedFields fs

end

end Value

namespace Attributes

/-- Equality of attribute trees, numbers by `Number.same`. -/
def same (a b : Attributes) : Bool := Value.sameFields a b

theorem same_refl (a : Attributes) : same a a = true := Value.sameFields_refl a

/-- Every map of the tree, the topmost included, lists its fields in key order. -/
def Ordered (a : Attributes) : Prop := (Value.map a).Ordered

end Attributes

end Provision
