import Provision.Reference

/-!
# What resolving a tree reads

* `Reference.lookUp_congr`: a body is looked up at the one key that it names.
* `Value.resolve_map`, `Value.resolveFields_cons`: a tree resolves if its parts do.
  `Value.resolveFields_cons_eq_error`: else the first part that does not is the reason.
* `Attributes.resolve_congr`: a tree resolves alike, to the same tree or with the same status,
  against two indices that agree at the keys it refers to.
* `Attributes.contains_of_resolve`: a tree that resolves refers only to resources that are there.
* `Attributes.error_of_resolve`: the status of a tree that does not resolve tells of one of its
  references.
-/

namespace Provision

namespace Reference

theorem lookUp_congr {m n : Index} {body : String} (h : m.get? (key body) = n.get? (key body)) :
    lookUp m body = lookUp n body := by
  have hf : find? m body = find? n body := by
    unfold find?
    unfold key at h
    split
    · next k first rest hd =>
      rw [hd, List.headD_cons] at h
      rw [h]
    · rfl
  unfold lookUp
  rw [hf]

/-- A body that names a scalar names a resource that is there; the converse fails, for the path may
lead nowhere. -/
theorem contains_of_lookUp {m : Index} {body : String} {v : Value} (h : lookUp m body = .ok v) :
    (m.get? (key body)).isSome = true := by
  unfold lookUp find? at h
  unfold key
  split at h
  · next w hw =>
    split at hw
    · next k first rest hd =>
      obtain ⟨r, hr, -⟩ := Option.bind_eq_some_iff.mp hw
      rw [hd, List.headD_cons, hr]
      rfl
    · cases hw
  · cases h

theorem error_of_lookUp {m : Index} {body : String} {s : Status} (h : lookUp m body = .error s) :
    find? m body = none ∧ s = .unresolved (key body) body := by
  unfold lookUp at h
  split at h
  · cases h
  · next hf => exact ⟨hf, (Except.error.inj h).symm⟩

end Reference

/-! ## Parts of a tree -/

namespace Value

section

variable {m : Index} {s : Status}

theorem resolve_list {vs : List Value} {w : Value} :
    (Value.list vs).resolve m = .ok w ↔ ∃ ws, resolveItems m vs = .ok ws ∧ w = .list ws := by
  simp only [resolve]
  cases resolveItems m vs with
  | error s => exact ⟨nofun, nofun⟩
  | ok ws => exact ⟨fun h => ⟨ws, rfl, (Except.ok.inj h).symm⟩, fun ⟨_, rfl, h⟩ => h ▸ rfl⟩

theorem resolve_map {fs : List (String × Value)} {w : Value} :
    (Value.map fs).resolve m = .ok w ↔ ∃ gs, resolveFields m fs = .ok gs ∧ w = .map gs := by
  simp only [resolve]
  cases resolveFields m fs with
  | error s => exact ⟨nofun, nofun⟩
  | ok gs => exact ⟨fun h => ⟨gs, rfl, (Except.ok.inj h).symm⟩, fun ⟨_, rfl, h⟩ => h ▸ rfl⟩

theorem resolveItems_cons {v : Value} {vs us : List Value} :
    resolveItems m (v :: vs) = .ok us ↔
      ∃ w ws, v.resolve m = .ok w ∧ resolveItems m vs = .ok ws ∧ us = w :: ws := by
  simp only [resolveItems]
  cases v.resolve m with
  | error s => exact ⟨nofun, nofun⟩
  | ok w =>
    cases resolveItems m vs with
    | error s => exact ⟨nofun, nofun⟩
    | ok ws =>
      exact ⟨fun h => ⟨w, ws, rfl, rfl, (Except.ok.inj h).symm⟩, fun ⟨_, _, rfl, rfl, h⟩ => h ▸ rfl⟩

theorem resolveFields_cons {k : String} {v : Value} {fs hs : List (String × Value)} :
    resolveFields m ((k, v) :: fs) = .ok hs ↔
      ∃ w gs, v.resolve m = .ok w ∧ resolveFields m fs = .ok gs ∧ hs = (k, w) :: gs := by
  simp only [resolveFields]
  cases v.resolve m with
  | error s => exact ⟨nofun, nofun⟩
  | ok w =>
    cases resolveFields m fs with
    | error s => exact ⟨nofun, nofun⟩
    | ok gs =>
      exact ⟨fun h => ⟨w, gs, rfl, rfl, (Except.ok.inj h).symm⟩, fun ⟨_, _, rfl, rfl, h⟩ => h ▸ rfl⟩

theorem resolve_list_eq_error {vs : List Value} :
    (Value.list vs).resolve m = .error s ↔ resolveItems m vs = .error s := by
  simp only [resolve]
  cases resolveItems m vs <;> simp [bind, Except.bind, pure, Except.pure]

theorem resolve_map_eq_error {fs : List (String × Value)} :
    (Value.map fs).resolve m = .error s ↔ resolveFields m fs = .error s := by
  simp only [resolve]
  cases resolveFields m fs <;> simp [bind, Except.bind, pure, Except.pure]

/-- Items are resolved from the left: the first that does not resolve gives the status. -/
theorem resolveItems_cons_eq_error {v : Value} {vs : List Value} :
    resolveItems m (v :: vs) = .error s ↔ v.resolve m = .error s ∨
      (∃ w, v.resolve m = .ok w) ∧ resolveItems m vs = .error s := by
  simp only [resolveItems]
  cases v.resolve m with
  | error s' => simp [bind, Except.bind]
  | ok w => cases resolveItems m vs <;> simp [bind, Except.bind, pure, Except.pure]

/-- The same of fields. No field after the first bad one is looked at. -/
theorem resolveFields_cons_eq_error {k : String} {v : Value} {fs : List (String × Value)} :
    resolveFields m ((k, v) :: fs) = .error s ↔ v.resolve m = .error s ∨
      (∃ w, v.resolve m = .ok w) ∧ resolveFields m fs = .error s := by
  simp only [resolveFields]
  cases v.resolve m with
  | error s' => simp [bind, Except.bind]
  | ok w => cases resolveFields m fs <;> simp [bind, Except.bind, pure, Except.pure]

end

end Value

/-! ## Resolving -/

namespace Value

mutual

theorem resolve_congr {m n : Index} : ∀ v : Value,
    (∀ b ∈ v.references, m.get? (Reference.key b) = n.get? (Reference.key b)) →
      v.resolve m = v.resolve n
  | .null, _ | .bool _, _ | .number _, _ => rfl
  | .string s, h => by
    simp only [references, Option.mem_toList] at h
    simp only [resolve]
    split
    · next body hb => exact Reference.lookUp_congr (h body hb)
    · rfl
  | .list vs, h => by
    simp only [resolve]
    rw [resolveItems_congr vs h]
  | .map fs, h => by
    simp only [resolve]
    rw [resolveFields_congr fs h]

theorem resolveItems_congr {m n : Index} : ∀ vs : List Value,
    (∀ b ∈ referencesOfItems vs, m.get? (Reference.key b) = n.get? (Reference.key b)) →
      resolveItems m vs = resolveItems n vs
  | [], _ => rfl
  | v :: vs, h => by
    simp only [referencesOfItems, List.mem_append] at h
    simp only [resolveItems]
    rw [resolve_congr v fun b hb => h b (.inl hb), resolveItems_congr vs fun b hb => h b (.inr hb)]

theorem resolveFields_congr {m n : Index} : ∀ fs : List (String × Value),
    (∀ b ∈ referencesOfFields fs, m.get? (Reference.key b) = n.get? (Reference.key b)) →
      resolveFields m fs = resolveFields n fs
  | [], _ => rfl
  | (_, v) :: fs, h => by
    simp only [referencesOfFields, List.mem_append] at h
    simp only [resolveFields]
    rw [resolve_congr v fun b hb => h b (.inl hb),
      resolveFields_congr fs fun b hb => h b (.inr hb)]

end

end Value

namespace Value

mutual

theorem contains_of_resolve {m : Index} : ∀ (v w : Value), v.resolve m = .ok w →
    ∀ b ∈ v.references, (m.get? (Reference.key b)).isSome = true
  | .null, _, _, _, hb | .bool _, _, _, _, hb | .number _, _, _, _, hb => by cases hb
  | .string s, w, h, b, hb => by
    simp only [references, Option.mem_toList] at hb
    simp only [resolve, hb] at h
    exact Reference.contains_of_lookUp h
  | .list vs, w, h, b, hb => by
    obtain ⟨ws, hvs, -⟩ := resolve_list.mp h
    exact contains_of_resolveItems vs ws hvs b hb
  | .map fs, w, h, b, hb => by
    obtain ⟨gs, hfs, -⟩ := resolve_map.mp h
    exact contains_of_resolveFields fs gs hfs b hb

theorem contains_of_resolveItems {m : Index} : ∀ vs ws : List Value, resolveItems m vs = .ok ws →
    ∀ b ∈ referencesOfItems vs, (m.get? (Reference.key b)).isSome = true
  | [], _, _, _, hb => by cases hb
  | v :: vs, us, h, b, hb => by
    obtain ⟨w, ws, hv, hvs, -⟩ := resolveItems_cons.mp h
    rcases List.mem_append.mp hb with hb | hb
    · exact contains_of_resolve v w hv b hb
    · exact contains_of_resolveItems vs ws hvs b hb

theorem contains_of_resolveFields {m : Index} : ∀ fs gs : List (String × Value),
    resolveFields m fs = .ok gs →
      ∀ b ∈ referencesOfFields fs, (m.get? (Reference.key b)).isSome = true
  | [], _, _, _, hb => by cases hb
  | (k, v) :: fs, hs, h, b, hb => by
    obtain ⟨w, gs, hv, hfs, -⟩ := resolveFields_cons.mp h
    rcases List.mem_append.mp hb with hb | hb
    · exact contains_of_resolve v w hv b hb
    · exact contains_of_resolveFields fs gs hfs b hb

end

end Value

namespace Value

mutual

theorem error_of_resolve {m : Index} {s : Status} : ∀ v : Value, v.resolve m = .error s →
    ∃ b ∈ v.references, Reference.find? m b = none ∧ s = .unresolved (Reference.key b) b
  | .null, h | .bool _, h | .number _, h => by cases h
  | .string t, h => by
    simp only [resolve] at h
    split at h
    · next body hb => exact ⟨body, Option.mem_toList.mpr hb, Reference.error_of_lookUp h⟩
    · cases h
  | .list vs, h => error_of_resolveItems vs (resolve_list_eq_error.mp h)
  | .map fs, h => error_of_resolveFields fs (resolve_map_eq_error.mp h)

theorem error_of_resolveItems {m : Index} {s : Status} : ∀ vs : List Value,
    resolveItems m vs = .error s → ∃ b ∈ referencesOfItems vs,
      Reference.find? m b = none ∧ s = .unresolved (Reference.key b) b
  | [], h => by cases h
  | v :: vs, h => by
    rcases resolveItems_cons_eq_error.mp h with hv | ⟨-, hvs⟩
    · obtain ⟨b, hb, hs⟩ := error_of_resolve v hv
      exact ⟨b, List.mem_append_left _ hb, hs⟩
    · obtain ⟨b, hb, hs⟩ := error_of_resolveItems vs hvs
      exact ⟨b, List.mem_append_right _ hb, hs⟩

theorem error_of_resolveFields {m : Index} {s : Status} : ∀ fs : List (String × Value),
    resolveFields m fs = .error s → ∃ b ∈ referencesOfFields fs,
      Reference.find? m b = none ∧ s = .unresolved (Reference.key b) b
  | [], h => by cases h
  | (k, v) :: fs, h => by
    rcases resolveFields_cons_eq_error.mp h with hv | ⟨-, hfs⟩
    · obtain ⟨b, hb, hs⟩ := error_of_resolve v hv
      exact ⟨b, List.mem_append_left _ hb, hs⟩
    · obtain ⟨b, hb, hs⟩ := error_of_resolveFields fs hfs
      exact ⟨b, List.mem_append_right _ hb, hs⟩

end

end Value

namespace Attributes

theorem mem_referencedKeys {a : Attributes} {k : String} :
    k ∈ a.referencedKeys ↔ ∃ b ∈ a.references, Reference.key b = k := by
  unfold referencedKeys
  rw [List.mem_eraseDups, List.mem_map]

/-- Two indices that agree at `referencedKeys` resolve a tree alike, also where it does not resolve:
the status is the same. -/
theorem resolve_congr {m n : Index} {a : Attributes}
    (h : ∀ k ∈ a.referencedKeys, m.get? k = n.get? k) : a.resolve m = a.resolve n :=
  Value.resolveFields_congr a fun b hb => h _ (mem_referencedKeys.mpr ⟨b, hb, rfl⟩)

/-- A tree that resolves refers only to resources that are there. A node whose references are
missing therefore stops before its backend is called. -/
theorem contains_of_resolve {m : Index} {a b : Attributes} (h : a.resolve m = .ok b) :
    ∀ k ∈ a.referencedKeys, (m.get? k).isSome = true := by
  intro k hk
  obtain ⟨body, hb, rfl⟩ := mem_referencedKeys.mp hk
  exact Value.contains_of_resolveFields a b h body hb

/-- Resolving fails for one reason only, and the status names a reference of the tree. Which of them
it is, `resolve_places` tells for trees in key order. -/
theorem error_of_resolve {m : Index} {a : Attributes} {s : Status} (h : a.resolve m = .error s) :
    ∃ b ∈ a.references, Reference.find? m b = none ∧ s = .unresolved (Reference.key b) b :=
  Value.error_of_resolveFields a h

end Attributes

end Provision
