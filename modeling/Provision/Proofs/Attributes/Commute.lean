import Provision.Proofs.Attributes.Prune
import Provision.Proofs.Attributes.Resolve

/-!
# Resolving and pruning

* `Attributes.resolve_prune`: fields can be dropped before references are resolved or after.
* `Attributes.references_of_resolve`: the references of a resolved tree are those of the scalars
  that were put in.
* `Value.Within`: what stands somewhere in a tree. `Reference.within_of_find`: a scalar that was
  found stands in the resource named.
-/

namespace Provision

namespace Value

variable {m : Index}

theorem keys_resolveFields {fs gs : List (String × Value)}
    (h : resolveFields m fs = .ok gs) : Fields.keys gs = Fields.keys fs := by
  induction fs generalizing gs with
  | nil =>
    cases h
    rfl
  | cons f fs ih =>
    obtain ⟨w, gs, -, hfs, rfl⟩ := resolveFields_cons.mp h
    exact congrArg (f.1 :: ·) (ih hfs)

end Value

/-! ## Dropping fields of a resolved tree -/

namespace Reference

variable {m : Index} {body : String} {v : Value}

theorem lookUp_eq_ok : lookUp m body = .ok v ↔ find? m body = some v := by
  unfold lookUp
  cases find? m body with
  | none => exact ⟨nofun, nofun⟩
  | some w => exact ⟨fun h => congrArg some (Except.ok.inj h), fun h => h ▸ rfl⟩

/-- `find?` names nothing but scalars. The order of `resolve` and `prune` would matter if a
reference could stand for a map. -/
theorem isScalar_of_find (h : find? m body = some v) : v.isScalar = true := by
  unfold find? at h
  split at h
  · obtain ⟨r, -, h⟩ := Option.bind_eq_some_iff.mp h
    obtain ⟨top, -, h⟩ := Option.bind_eq_some_iff.mp h
    obtain ⟨w, -, h⟩ := Option.bind_eq_some_iff.mp h
    split at h
    · next hs => exact Option.some.inj h ▸ hs
    · cases h
  · cases h

end Reference

namespace Value

theorem remove_of_isScalar (p : List String) {v : Value} (h : v.isScalar = true) :
    v.remove p = v := by
  cases v with
  | null | bool | number | string => rfl
  | list | map => cases h

mutual

theorem resolve_remove {m : Index} (p : List String) : ∀ v w : Value, v.resolve m = .ok w →
    (v.remove p).resolve m = .ok (w.remove p)
  | .null, _, h | .bool _, _, h | .number _, _, h => by cases h; rfl
  | .string s, w, h => by
    -- What is put in for a reference is a scalar, so nothing of it is dropped.
    have hw : w.remove p = w := by
      refine remove_of_isScalar p ?_
      simp only [resolve] at h
      split at h
      · exact Reference.isScalar_of_find (Reference.lookUp_eq_ok.mp h)
      · cases h
        rfl
    rw [hw]
    exact h
  | .list vs, w, h => by
    obtain ⟨ws, hvs, rfl⟩ := resolve_list.mp h
    by_cases hp : p.isEmpty
    · simpa only [remove, hp, if_true] using h
    · simp only [remove, hp]
      exact resolve_list.mpr ⟨_, resolveItems_remove p vs ws hvs, rfl⟩
  | .map fs, w, h => by
    obtain ⟨gs, hfs, rfl⟩ := resolve_map.mp h
    exact resolve_map.mpr ⟨_, resolveFields_remove p fs gs hfs, rfl⟩

theorem resolveItems_remove {m : Index} (p : List String) : ∀ vs ws : List Value,
    resolveItems m vs = .ok ws → resolveItems m (removeItems p vs) = .ok (removeItems p ws)
  | [], _, h => by cases h; rfl
  | v :: vs, _, h => by
    obtain ⟨w, ws, hv, hvs, rfl⟩ := resolveItems_cons.mp h
    exact resolveItems_cons.mpr
      ⟨_, _, resolve_remove p v w hv, resolveItems_remove p vs ws hvs, rfl⟩

theorem resolveFields_remove {m : Index} (p : List String) : ∀ fs gs : List (String × Value),
    resolveFields m fs = .ok gs → resolveFields m (removeFields p fs) = .ok (removeFields p gs)
  | [], _, h => by cases h; simp [removeFields, resolveFields]
  | (n, v) :: fs, _, h => by
    obtain ⟨w, gs, hv, hfs, rfl⟩ := resolveFields_cons.mp h
    have ih := resolveFields_remove p fs gs hfs
    cases p with
    | nil => simpa using h
    | cons k rest =>
      by_cases hn : n = k
      · by_cases hr : rest.isEmpty
        · simpa only [removeFields, hn, hr, if_true] using ih
        · simp only [removeFields, hn, hr, if_true]
          exact resolveFields_cons.mpr ⟨_, _, resolve_remove rest v w hv, ih, rfl⟩
      · simp only [removeFields, hn, if_false]
        exact resolveFields_cons.mpr ⟨_, _, hv, ih, rfl⟩

end

end Value

/-! ## References of a resolved tree -/

namespace Reference

/-- The references of the scalar that a body names. -/
def onward (m : Index) (body : String) : List String :=
  match find? m body with
  | some v => v.references
  | none => []

theorem onward_of_find {m : Index} {body : String} {v : Value} (h : find? m body = some v) :
    onward m body = v.references := by
  unfold onward
  rw [h]

end Reference

namespace Value

mutual

theorem references_of_resolve {m : Index} : ∀ v w : Value, v.resolve m = .ok w →
    w.references = v.references.flatMap (Reference.onward m)
  | .null, _, h | .bool _, _, h | .number _, _, h => by cases h; rfl
  | .string s, w, h => by
    simp only [resolve] at h
    simp only [references]
    split at h
    · next body hb =>
      rw [hb, ← Reference.onward_of_find (Reference.lookUp_eq_ok.mp h)]
      exact (List.flatMap_singleton ..).symm
    · next hb =>
      cases h
      simp [references, hb]
  | .list vs, w, h => by
    obtain ⟨ws, hvs, rfl⟩ := resolve_list.mp h
    exact references_of_resolveItems vs ws hvs
  | .map fs, w, h => by
    obtain ⟨gs, hfs, rfl⟩ := resolve_map.mp h
    exact references_of_resolveFields fs gs hfs

theorem references_of_resolveItems {m : Index} : ∀ vs ws : List Value,
    resolveItems m vs = .ok ws →
      referencesOfItems ws = (referencesOfItems vs).flatMap (Reference.onward m)
  | [], _, h => by cases h; rfl
  | v :: vs, _, h => by
    obtain ⟨w, ws, hv, hvs, rfl⟩ := resolveItems_cons.mp h
    simp only [referencesOfItems]
    rw [references_of_resolve v w hv, references_of_resolveItems vs ws hvs, List.flatMap_append]

theorem references_of_resolveFields {m : Index} : ∀ fs gs : List (String × Value),
    resolveFields m fs = .ok gs →
      referencesOfFields gs = (referencesOfFields fs).flatMap (Reference.onward m)
  | [], _, h => by cases h; rfl
  | (k, v) :: fs, _, h => by
    obtain ⟨w, gs, hv, hfs, rfl⟩ := resolveFields_cons.mp h
    simp only [referencesOfFields]
    rw [references_of_resolve v w hv, references_of_resolveFields fs gs hfs, List.flatMap_append]

end

mutual

/-- `remove` adds no references. It may well lose some, and with them edges of a graph. -/
theorem mem_references_of_remove {b : String} (p : List String) : ∀ v : Value,
    b ∈ (v.remove p).references → b ∈ v.references
  | .null, h | .bool _, h | .number _, h | .string _, h => h
  | .list vs, h => by
    by_cases hp : p.isEmpty
    · simpa only [remove, hp, if_true] using h
    · simp only [remove, hp] at h
      exact mem_references_of_removeItems p vs h
  | .map fs, h => mem_references_of_removeFields p fs h

theorem mem_references_of_removeItems {b : String} (p : List String) : ∀ vs : List Value,
    b ∈ referencesOfItems (removeItems p vs) → b ∈ referencesOfItems vs
  | [], h => h
  | v :: vs, h => by
    simp only [removeItems, referencesOfItems, List.mem_append] at h ⊢
    exact h.imp (mem_references_of_remove p v) (mem_references_of_removeItems p vs)

theorem mem_references_of_removeFields {b : String} (p : List String) :
    ∀ fs : List (String × Value),
      b ∈ referencesOfFields (removeFields p fs) → b ∈ referencesOfFields fs
  | [], h => by simpa [removeFields] using h
  | (n, v) :: fs, h => by
    have ih := mem_references_of_removeFields (b := b) p fs
    cases p with
    | nil => simpa using h
    | cons k rest =>
      simp only [removeFields] at h
      split at h
      · split at h
        · exact List.mem_append_right _ (ih h)
        · exact List.mem_append.mpr
            ((List.mem_append.mp h).imp (mem_references_of_remove rest v) ih)
      · exact List.mem_append.mpr ((List.mem_append.mp h).imp_right ih)

end

end Value

/-! ## Parts of a tree -/

namespace Value

/-- `w` is a tree or stands somewhere in it. -/
inductive Within (w : Value) : Value → Prop
  | self : Within w w
  | item {v : Value} {vs : List Value} (hv : v ∈ vs) (h : Within w v) : Within w (.list vs)
  | field {k : String} {v : Value} {fs : List (String × Value)} (hv : (k, v) ∈ fs)
    (h : Within w v) : Within w (.map fs)

variable {u v w : Value}

theorem Within.trans (huv : Within u v) (hvw : Within v w) : Within u w := by
  induction hvw with
  | self => exact huv
  | item hv _ ih => exact .item hv ih
  | field hv _ ih => exact .field hv ih

theorem mem_referencesOfItems {vs : List Value} (hv : v ∈ vs) {b : String}
    (hb : b ∈ v.references) : b ∈ referencesOfItems vs := by
  induction vs with
  | nil => cases hv
  | cons w ws ih =>
    rcases List.mem_cons.mp hv with rfl | hv
    · exact List.mem_append_left _ hb
    · exact List.mem_append_right _ (ih hv)

theorem mem_referencesOfFields {k : String} {fs : List (String × Value)}
    (hv : (k, v) ∈ fs) {b : String} (hb : b ∈ v.references) : b ∈ referencesOfFields fs := by
  induction fs with
  | nil => cases hv
  | cons f fs ih =>
    obtain ⟨n, w⟩ := f
    rcases List.mem_cons.mp hv with hv | hv
    · cases hv
      exact List.mem_append_left _ hb
    · exact List.mem_append_right _ (ih hv)

/-- A part has no other references than the whole. -/
theorem Within.references_subset (h : Within w v) {b : String} (hb : b ∈ w.references) :
    b ∈ v.references := by
  induction h with
  | self => exact hb
  | item hv _ ih => exact mem_referencesOfItems hv ih
  | field hv _ ih => exact mem_referencesOfFields hv ih

end Value

namespace Reference

variable {m : Index} {body : String} {v w : Value}

theorem within_of_descend {segment : String} (h : descend v segment = some w) :
    Value.Within w v := by
  unfold descend at h
  split at h
  · exact .field (Fields.get?_eq_some_mem h) .self
  · obtain ⟨i, -, h⟩ := Option.bind_eq_some_iff.mp h
    exact .item (List.mem_of_getElem? h) .self
  · cases h

theorem within_of_foldlM {segments : List String} (h : segments.foldlM descend v = some w) :
    Value.Within w v := by
  induction segments generalizing v with
  | nil =>
    cases h
    exact .self
  | cons segment segments ih =>
    obtain ⟨u, hu, h⟩ := Option.bind_eq_some_iff.mp h
    exact (ih h).trans (within_of_descend hu)

/-- A scalar that was found stands in the resource that the body names, so what holds of all parts
of its attributes holds of it. -/
theorem within_of_find (h : find? m body = some v) :
    ∃ r, m.get? (key body) = some r ∧ Value.Within v (.map r.attributes) := by
  unfold find? at h
  unfold key
  split at h
  · next k first rest hd =>
    obtain ⟨r, hr, h⟩ := Option.bind_eq_some_iff.mp h
    obtain ⟨top, ht, h⟩ := Option.bind_eq_some_iff.mp h
    obtain ⟨w, hw, h⟩ := Option.bind_eq_some_iff.mp h
    split at h
    · cases h
      rw [hd]
      exact ⟨r, hr, .field (Fields.get?_eq_some_mem ht) (within_of_foldlM hw)⟩
    · cases h
  · cases h

/-- What a scalar refers to, if it is a reference itself, the resource where it stands refers to as
well. -/
theorem references_of_find (h : find? m body = some v) :
    ∃ r, m.get? (key body) = some r ∧ ∀ b ∈ v.references, b ∈ r.attributes.references := by
  obtain ⟨r, hr, hv⟩ := within_of_find h
  exact ⟨r, hr, fun b hb => hv.references_subset hb⟩

end Reference

namespace Attributes

variable {m : Index} {a b : Attributes}

/-- **Two passes in either order.** If the whole tree resolves, the pruned one does, to the pruned
result. The converse fails: what is pruned may hold the only reference that leads nowhere. -/
theorem resolve_prune (ps : List FieldPath) (h : a.resolve m = .ok b) :
    (a.prune ps).resolve m = .ok (b.prune ps) := by
  induction ps generalizing a b with
  | nil => exact h
  | cons p ps ih => exact ih (Value.resolveFields_remove p.segments a b h)

theorem mem_references_of_prune (ps : List FieldPath) {body : String}
    (h : body ∈ (a.prune ps).references) : body ∈ a.references := by
  induction ps generalizing a with
  | nil => exact h
  | cons p ps ih => exact Value.mem_references_of_removeFields p.segments a (ih h)

/-- The references of a resolved tree are those of the scalars that were put in
(`Reference.onward`): none, unless a scalar is itself a string with the marker. -/
theorem references_of_resolve (h : a.resolve m = .ok b) :
    b.references = a.references.flatMap (Reference.onward m) :=
  Value.references_of_resolveFields a b h

end Attributes

end Provision
