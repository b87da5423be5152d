import Provision.Proofs.Attributes.Commute
import Provision.Proofs.Attributes.Ordered
import Provision.Proofs.Json.RoundTrip

/-!
# Trees that can be stored

* `Attributes.Storable`: trees without doubles that are nested no deeper than documents are read.
* `Attributes.Storable.plain`, `depth_le`, `ordered`: such a tree is a plain document, and the
  document stands for the tree.
* `Attributes.Storable.prune`, `Attributes.Storable.resolve`: dropping fields keeps a tree so, and
  so does resolving references to such trees.
-/

namespace Provision

namespace Value

/-- The tree is in key order, its document is plain, and at most `depth` containers enclose each
other. -/
structure Storable (depth : Nat) (v : Value) : Prop where
  ordered : v.Ordered
  plain : v.toJson.Plain
  depth_le : v.toJson.depth ≤ depth

theorem plainItems_itemsToJson {vs : List Value} :
    Json.PlainItems (itemsToJson vs) ↔ ∀ v ∈ vs, v.toJson.Plain := by
  induction vs with
  | nil => simp [itemsToJson, Json.PlainItems]
  | cons v vs ih => simp [itemsToJson, Json.PlainItems, ih]

theorem plainFields_fieldsToJson {fs : List (String × Value)} :
    Json.PlainFields (fieldsToJson fs) ↔ ∀ f ∈ fs, f.2.toJson.Plain := by
  induction fs with
  | nil => simp [fieldsToJson, Json.PlainFields]
  | cons f fs ih => simp [fieldsToJson, Json.PlainFields, ih]

theorem depthOfItems_itemsToJson_le {n : Nat} {vs : List Value} :
    Json.depthOfItems (itemsToJson vs) ≤ n ↔ ∀ v ∈ vs, v.toJson.depth ≤ n := by
  induction vs with
  | nil => simp [itemsToJson, Json.depthOfItems]
  | cons v vs ih => rw [itemsToJson, Json.depthOfItems, Nat.max_le, ih, List.forall_mem_cons]

theorem depthOfFields_fieldsToJson_le {n : Nat} {fs : List (String × Value)} :
    Json.depthOfFields (fieldsToJson fs) ≤ n ↔ ∀ f ∈ fs, f.2.toJson.depth ≤ n := by
  induction fs with
  | nil => simp [fieldsToJson, Json.depthOfFields]
  | cons f fs ih => rw [fieldsToJson, Json.depthOfFields, Nat.max_le, ih, List.forall_mem_cons]

/-- At most `n` containers enclose each other if one of them does and at most `n - 1` in it. -/
private theorem one_add_le_iff {n d : Nat} : 1 + d ≤ n ↔ 1 ≤ n ∧ d ≤ n - 1 := by omega

/-- `Storable` is `Layered`: a container has one level more than what it holds, which is why
`Layered` counts down. -/
theorem layered_storable : Layered Storable where
  list {n vs} := by
    constructor
    · rintro ⟨ho, hp, hd⟩
      obtain ⟨hpos, hd⟩ := one_add_le_iff.mp hd
      refine ⟨⟨trivial, trivial, hpos⟩, fun v hv => ⟨orderedItems_iff.mp ho v hv, ?_, ?_⟩⟩
      · exact plainItems_itemsToJson.mp hp v hv
      · exact depthOfItems_itemsToJson_le.mp hd v hv
    · rintro ⟨⟨-, -, hpos⟩, h⟩
      refine ⟨orderedItems_iff.mpr fun v hv => (h v hv).ordered,
        plainItems_itemsToJson.mpr fun v hv => (h v hv).plain, one_add_le_iff.mpr ⟨hpos, ?_⟩⟩
      exact depthOfItems_itemsToJson_le.mpr fun v hv => (h v hv).depth_le
  map {n fs} := by
    constructor
    · rintro ⟨ho, hp, hd⟩
      obtain ⟨hpos, hd⟩ := one_add_le_iff.mp hd
      refine ⟨⟨⟨List.Pairwise.nil, trivial⟩, trivial, hpos⟩, ho.1,
        fun f hf => ⟨orderedFields_iff.mp ho.2 f hf, ?_, ?_⟩⟩
      · exact plainFields_fieldsToJson.mp hp f hf
      · exact depthOfFields_fieldsToJson_le.mp hd f hf
    · rintro ⟨⟨-, -, hpos⟩, hs, h⟩
      refine ⟨⟨hs, orderedFields_iff.mpr fun f hf => (h f hf).ordered⟩,
        plainFields_fieldsToJson.mpr fun f hf => (h f hf).plain, one_add_le_iff.mpr ⟨hpos, ?_⟩⟩
      exact depthOfFields_fieldsToJson_le.mpr fun f hf => (h f hf).depth_le

/-! ## Resolving references -/

/-- Parts of a tree can be stored if the whole can, at whatever level they stand. -/
theorem Storable.of_within {v w : Value} (h : Within w v) {n : Nat} (hv : v.Storable n) :
    ∃ m, w.Storable m := by
  induction h generalizing n with
  | self => exact ⟨n, hv⟩
  | item hmem _ ih => exact ih ((layered_storable.list.mp hv).2 _ hmem)
  | field hmem _ ih => exact ih ((layered_storable.map.mp hv).2.2 _ hmem)

/-- A scalar encloses nothing, so it can be stored at level 0 and at any other. -/
theorem Storable.of_isScalar {v : Value} (hs : v.isScalar = true) (h : v.toJson.Plain) (n : Nat) :
    v.Storable n := by
  cases v with
  | null | bool | number | string => exact ⟨trivial, h, Nat.zero_le n⟩
  | list | map => cases hs

/-- What the references of a tree name can stand anywhere in a tree that can be stored. -/
def Embeds (m : Index) (bodies : List String) : Prop :=
  ∀ body ∈ bodies, ∀ v, Reference.find? m body = some v → ∀ n, v.Storable n

mutual

/-- `Embeds` is what makes this an induction: a reference is replaced by a scalar, which fits at
every level, so the tree gets no deeper. -/
theorem Storable.resolve {m : Index} : ∀ {n : Nat} {v w : Value}, v.Storable n →
    Embeds m v.references → v.resolve m = .ok w → w.Storable n
  | _, .null, _, h, _, hr | _, .bool _, _, h, _, hr | _, .number _, _, h, _, hr => by
    cases hr
    exact h
  | n, .string s, w, h, hm, hr => by
    simp only [Value.resolve] at hr
    split at hr
    · next body hb =>
      exact hm body (by simp [references, hb]) w (Reference.lookUp_eq_ok.mp hr) n
    · cases hr
      exact h
  | _, .list vs, w, h, hm, hr => by
    obtain ⟨ws, hvs, rfl⟩ := resolve_list.mp hr
    obtain ⟨hempty, h⟩ := layered_storable.list.mp h
    exact layered_storable.list.mpr ⟨hempty, storable_resolveItems h hm hvs⟩
  | _, .map fs, w, h, hm, hr => by
    obtain ⟨gs, hfs, rfl⟩ := resolve_map.mp hr
    obtain ⟨hempty, hs, h⟩ := layered_storable.map.mp h
    refine layered_storable.map.mpr ⟨hempty, ?_, storable_resolveFields h hm hfs⟩
    rw [Fields.sorted_iff, keys_resolveFields hfs]
    exact Fields.sorted_iff.mp hs

theorem storable_resolveItems {m : Index} : ∀ {n : Nat} {vs ws : List Value},
    (∀ v ∈ vs, v.Storable n) → Embeds m (referencesOfItems vs) → resolveItems m vs = .ok ws →
    ∀ w ∈ ws, w.Storable n
  | _, [], _, h, _, hr => by
    cases hr
    exact h
  | _, v :: vs, _, h, hm, hr => by
    obtain ⟨w, ws, hv, hvs, rfl⟩ := resolveItems_cons.mp hr
    obtain ⟨h, hs⟩ := List.forall_mem_cons.mp h
    exact List.forall_mem_cons.mpr
      ⟨h.resolve (fun body hb => hm body (List.mem_append_left _ hb)) hv,
        storable_resolveItems hs (fun body hb => hm body (List.mem_append_right _ hb)) hvs⟩

theorem storable_resolveFields {m : Index} : ∀ {n : Nat} {fs gs : List (String × Value)},
    (∀ f ∈ fs, f.2.Storable n) → Embeds m (referencesOfFields fs) → resolveFields m fs = .ok gs →
    ∀ f ∈ gs, f.2.Storable n
  | _, [], _, h, _, hr => by
    cases hr
    exact h
  | _, (k, v) :: fs, _, h, hm, hr => by
    obtain ⟨w, gs, hv, hfs, rfl⟩ := resolveFields_cons.mp hr
    obtain ⟨h, hs⟩ := List.forall_mem_cons.mp h
    exact List.forall_mem_cons.mpr
      ⟨h.resolve (fun body hb => hm body (List.mem_append_left _ hb)) hv,
        storable_resolveFields hs (fun body hb => hm body (List.mem_append_right _ hb)) hfs⟩

end

end Value

namespace Attributes

/-- Every map lists its fields in key order, every number is an integer that 64 bits hold, and the
tree is nested no deeper than documents are read. -/
def Storable (a : Attributes) : Prop := (Value.map a).Storable Json.depthLimit

namespace Storable

variable {a b : Attributes}

theorem plain (h : a.Storable) : a.toJson.Plain := Value.Storable.plain h

theorem depth_le (h : a.Storable) : a.toJson.depth ≤ Json.depthLimit := Value.Storable.depth_le h

theorem ordered (h : a.Storable) : a.Ordered := Value.Storable.ordered h

/-- Scalars in key order make up such a tree, if they are `Plain`. Concrete runs have attributes of
this kind. -/
theorem of_scalars (hs : Fields.Sorted a)
    (h : ∀ f ∈ a, f.2.isScalar = true ∧ f.2.toJson.Plain) : a.Storable := by
  have hempty : (Value.map []).Storable Json.depthLimit :=
    ⟨⟨List.Pairwise.nil, trivial⟩, trivial, by decide⟩
  exact Value.layered_storable.map.mpr
    ⟨hempty, hs, fun f hf => .of_isScalar (h f hf).1 (h f hf).2 _⟩

/-- `Layered.remove` for the fields of each path in turn. -/
theorem prune (h : a.Storable) (ps : List FieldPath) : (a.prune ps).Storable := by
  induction ps generalizing a with
  | nil => exact h
  | cons p ps ih => exact ih (Value.layered_storable.remove p.segments h)

/-- `Attributes.resolve` keeps a tree so if the trees that it takes scalars from are so. Nothing is
asked of resources that are not referred to. -/
theorem resolve {m : Index} (h : a.Storable)
    (hm : ∀ j ∈ a.referencedKeys, ∀ r, m.get? j = some r → r.attributes.Storable)
    (hr : a.resolve m = .ok b) : b.Storable := by
  refine Value.Storable.resolve (v := .map a) h (fun body hb v hf n => ?_)
    (Value.resolve_map.mpr ⟨b, hr, rfl⟩)
  -- the scalar is plain since it stands in a tree that is
  obtain ⟨r, hget, hv⟩ := Reference.within_of_find hf
  obtain ⟨k, hk⟩ := Value.Storable.of_within hv
    (hm _ (mem_referencedKeys.mpr ⟨body, hb, rfl⟩) r hget)
  exact .of_isScalar (Reference.isScalar_of_find hf) hk.plain n

end Storable

end Attributes

end Provision
