import Provision.Json
import Provision.Proofs.Attributes.Places
import Provision.Proofs.Fields

/-!
# Trees in key order

* `Value.Ordered.enter?`, `Attributes.Ordered.prune`: parts of such trees are in key order, and so
  is what is left after fields were dropped.
* `Attributes.Ordered.ofJson?_toJson`: the document of such a tree stands for the tree.
* `Attributes.ordered_of_ofJson?`: documents stand for no other trees.
-/

namespace Provision

namespace Value

variable {u v : Value}

/-- The mutual definitions as one quantifier, which is how everything else uses them. -/
theorem orderedItems_iff {vs : List Value} : OrderedItems vs ↔ ∀ v ∈ vs, v.Ordered := by
  induction vs with
  | nil => simp [OrderedItems]
  | cons v vs ih => simp [OrderedItems, ih]

theorem orderedFields_iff {fs : List (String × Value)} :
    OrderedFields fs ↔ ∀ f ∈ fs, f.2.Ordered := by
  induction fs with
  | nil => simp [OrderedFields]
  | cons f fs ih => simp [OrderedFields, ih]

theorem Ordered.enter? {step : Step} (hv : v.Ordered) (h : v.enter? step = some u) :
    u.Ordered := by
  cases v with
  | null | bool | number | string => cases h
  | list vs =>
    cases step with
    | field => cases h
    | item i => exact orderedItems_iff.mp hv u (List.mem_of_getElem? h)
  | map fs =>
    cases step with
    | item => cases h
    | field k => exact orderedFields_iff.mp hv.2 (k, u) (Fields.get?_eq_some_mem h)

/-! ## Dropping fields -/

theorem keys_removeFields_sublist (p : List String) (fs : List (String × Value)) :
    (Fields.keys (removeFields p fs)).Sublist (Fields.keys fs) := by
  induction fs with
  | nil => simp [removeFields]
  | cons f fs ih =>
    obtain ⟨n, v⟩ := f
    cases p with
    | nil => simp
    | cons k rest =>
      simp only [removeFields]
      split
      · split
        · exact ih.cons n
        · exact ih.cons_cons n
      · exact ih.cons_cons n

/-- `removeFields` only takes keys away, so the rest stays sorted. -/
theorem sorted_removeFields (p : List String) {fs : List (String × Value)}
    (h : Fields.Sorted fs) : Fields.Sorted (removeFields p fs) :=
  Fields.sorted_iff.mpr ((Fields.sorted_iff.mp h).sublist (keys_removeFields_sublist p fs))

/-- A property of trees, at each of some levels. A container has it if an empty one has it there,
its fields are in key order, and all that it holds has it one level below. -/
structure Layered (P : Nat → Value → Prop) : Prop where
  list : ∀ {n : Nat} {vs : List Value},
    P n (.list vs) ↔ P n (.list []) ∧ ∀ v ∈ vs, P (n - 1) v
  map : ∀ {n : Nat} {fs : List (String × Value)},
    P n (.map fs) ↔ P n (.map []) ∧ Fields.Sorted fs ∧ ∀ f ∈ fs, P (n - 1) f.2

/-- `Ordered` does not look at the level. -/
theorem layered_ordered : Layered fun _ v => v.Ordered where
  list := by simp [Ordered, OrderedItems, orderedItems_iff]
  map := by simp [Ordered, OrderedFields, orderedFields_iff, Fields.Sorted]

variable {P : Nat → Value → Prop}

mutual

/-- **Dropping fields.** `Value.remove` keeps every `Layered` property: `Ordered` here, and what can
be stored. Scalars are left as they are, so nothing is asked of them. -/
theorem Layered.remove (hP : Layered P) (p : List String) : ∀ {n : Nat} {v : Value},
    P n v → P n (v.remove p)
  | _, .null, h | _, .bool _, h | _, .string _, h | _, .number _, h => h
  | _, .list vs, h => by
    by_cases hp : p.isEmpty
    · simpa only [Value.remove, hp, if_true] using h
    · simp only [Value.remove, hp]
      obtain ⟨hempty, hvs⟩ := hP.list.mp h
      exact hP.list.mpr ⟨hempty, hP.removeItems p hvs⟩
  | _, .map fs, h => by
    obtain ⟨hempty, hsorted, hfs⟩ := hP.map.mp h
    exact hP.map.mpr ⟨hempty, sorted_removeFields p hsorted, hP.removeFields p hfs⟩

theorem Layered.removeItems (hP : Layered P) (p : List String) : ∀ {n : Nat} {vs : List Value},
    (∀ v ∈ vs, P n v) → ∀ v ∈ removeItems p vs, P n v
  | _, [], h => h
  | _, _ :: _, h => by
    obtain ⟨hv, hvs⟩ := List.forall_mem_cons.mp h
    exact List.forall_mem_cons.mpr ⟨hP.remove p hv, hP.removeItems p hvs⟩

theorem Layered.removeFields (hP : Layered P) (p : List String) : ∀ {n : Nat}
    {fs : List (String × Value)}, (∀ f ∈ fs, P n f.2) → ∀ f ∈ removeFields p fs, P n f.2
  | _, [], _ => by simp [Value.removeFields]
  | _, (k, v) :: fs, h => by
    obtain ⟨hv, hfs⟩ := List.forall_mem_cons.mp h
    have ih := hP.removeFields p hfs
    cases p with
    | nil => simpa using h
    | cons s rest =>
      simp only [Value.removeFields]
      split
      · split
        · exact ih
        · exact List.forall_mem_cons.mpr ⟨hP.remove rest hv, ih⟩
      · exact List.forall_mem_cons.mpr ⟨hv, ih⟩

end

/-! ## Documents -/

mutual

/-- `ofJson?` sorts the fields of an object. A tree in key order is not changed by that. -/
theorem Ordered.ofJson?_toJson : ∀ {v : Value}, v.Ordered → ofJson? v.toJson = some v
  | .null, _ | .bool _, _ | .string _, _ | .number _, _ => rfl
  | .list vs, h => by
    rw [toJson, ofJson?, OrderedItems.ofJson?_toJson h, Option.map_some]
  | .map fs, h => by
    rw [toJson, ofJson?, OrderedFields.ofJson?_toJson h.2, Option.map_some,
      Fields.ofList_of_sorted h.1]

theorem OrderedItems.ofJson?_toJson : ∀ {vs : List Value}, OrderedItems vs →
    itemsOfJson? (itemsToJson vs) = some vs
  | [], _ => rfl
  | v :: vs, h => by
    rw [itemsToJson, itemsOfJson?, h.1.ofJson?_toJson, OrderedItems.ofJson?_toJson h.2]
    rfl

theorem OrderedFields.ofJson?_toJson : ∀ {fs : List (String × Value)},
    OrderedFields fs → fieldsOfJson? (fieldsToJson fs) = some fs
  | [], _ => rfl
  | (k, v) :: fs, h => by
    rw [fieldsToJson, fieldsOfJson?, h.1.ofJson?_toJson, OrderedFields.ofJson?_toJson h.2]
    rfl

end

theorem OrderedFields.ofList {fs : List (String × Value)} (h : OrderedFields fs) :
    OrderedFields (Fields.ofList fs) :=
  orderedFields_iff.mpr fun f hf => orderedFields_iff.mp h f (Fields.mem_of_mem_ofList hf)

mutual

/-- Whatever `ofJson?` reads is in key order, however the document had it. -/
theorem ordered_of_ofJson? : ∀ {j : Json} {v : Value}, ofJson? j = some v → v.Ordered
  | .null, _, h | .bool _, _, h | .number _, _, h | .string _, _, h => by cases h; trivial
  | .array items, _, h => by
    obtain ⟨vs, hvs, rfl⟩ := Option.map_eq_some_iff.mp h
    exact orderedItems_of_ofJson? hvs
  | .object fields, _, h => by
    obtain ⟨fs, hfs, rfl⟩ := Option.map_eq_some_iff.mp h
    exact ⟨Fields.sorted_ofList fs, (orderedFields_of_ofJson? hfs).ofList⟩

theorem orderedItems_of_ofJson? : ∀ {js : List Json} {vs : List Value},
    itemsOfJson? js = some vs → OrderedItems vs
  | [], _, h => by cases h; trivial
  | j :: js, _, h => by
    obtain ⟨v, hv, h⟩ := Option.bind_eq_some_iff.mp h
    obtain ⟨vs, hvs, h⟩ := Option.bind_eq_some_iff.mp h
    cases h
    exact ⟨ordered_of_ofJson? hv, orderedItems_of_ofJson? hvs⟩

theorem orderedFields_of_ofJson? : ∀ {js : List (String × Json)} {fs : List (String × Value)},
    fieldsOfJson? js = some fs → OrderedFields fs
  | [], _, h => by cases h; trivial
  | (k, j) :: js, _, h => by
    obtain ⟨v, hv, h⟩ := Option.bind_eq_some_iff.mp h
    obtain ⟨fs, hfs, h⟩ := Option.bind_eq_some_iff.mp h
    cases h
    exact ⟨ordered_of_ofJson? hv, orderedFields_of_ofJson? hfs⟩

end

end Value

namespace Attributes

variable {a : Attributes}

/-- `Layered.remove` for the fields of each path in turn. -/
theorem Ordered.prune (h : a.Ordered) (ps : List FieldPath) : (a.prune ps).Ordered := by
  induction ps generalizing a with
  | nil => exact h
  | cons p ps ih => exact ih (Value.layered_ordered.remove p.segments (n := 0) h)

/-- The document of a tree in key order stands for the tree. The converse holds by
`ordered_of_ofJson?`, so the condition is the right one. -/
theorem Ordered.ofJson?_toJson (h : a.Ordered) : ofJson? a.toJson = some a := by
  rw [toJson, ofJson?, Value.OrderedFields.ofJson?_toJson h.2, Option.map_some,
    Fields.ofList_of_sorted h.1]

/-- Attributes are the fields of an object, so no other kind of document stands for any. -/
theorem ordered_of_ofJson? {j : Json} (h : ofJson? j = some a) : a.Ordered := by
  cases j with
  | object fields =>
    obtain ⟨fs, hfs, rfl⟩ := Option.map_eq_some_iff.mp h
    exact ⟨Fields.sorted_ofList fs, (Value.orderedFields_of_ofJson? hfs).ofList⟩
  | null | bool | number | string | array | unrepresentable => cases h

end Attributes

end Provision
