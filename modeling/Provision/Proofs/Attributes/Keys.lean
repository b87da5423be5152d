import Provision.Proofs.Attributes.Substitution
import Provision.Proofs.Text.Pieces

/-!
# Keys that a tree refers to

* `Reference.key_eq_iff`: the key that a body names is what stands before its first dot.
* `Value.mem_references_iff`: a tree has the references that stand somewhere in it.
* `Attributes.referencedKeys_suffice`: the keys that a tree refers to are listed once each, and
  nothing else of an index is read when the tree is resolved.
-/

namespace Provision

namespace Reference

/-- `Reference.key` is what stands before the first dot, or the whole body if there is none. The
path may be empty or have more dots. -/
theorem key_eq_iff {body k : String} : key body = k ↔
    '.' ∉ k.toList ∧ (body = k ∨ ∃ path, body = k ++ "." ++ path) := by
  unfold key
  constructor
  · intro h
    obtain ⟨hne, hdots, hbody⟩ := dotted_eq_iff.mp (rfl : dotted body = dotted body)
    obtain ⟨first, rest, hd⟩ := List.exists_cons_of_ne_nil hne
    rw [hd] at h hdots hbody
    obtain rfl : first = k := h
    refine ⟨hdots first List.mem_cons_self, ?_⟩
    cases rest with
    | nil => exact .inl (by rw [← hbody, String.intercalate_singleton])
    | cons second rest => exact .inr ⟨_, by rw [← hbody, String.intercalate_cons_cons]⟩
  · rintro ⟨hk, rfl | ⟨path, rfl⟩⟩
    · rw [dotted_of_not_mem hk, List.headD_cons]
    · rw [dotted_append, dotted_of_not_mem hk, List.singleton_append, List.headD_cons]

end Reference

namespace Value

variable {body : String}

mutual

theorem within_of_mem_references : ∀ v : Value, body ∈ v.references →
    Within (.string (Reference.marker ++ body)) v
  | .null, h | .bool _, h | .number _, h => by cases h
  | .string s, h => by
    rw [Reference.body?_eq_some_iff.mp (Option.mem_toList.mp h)]
    exact .self
  | .list vs, h => by
    obtain ⟨v, hv, h⟩ := within_of_mem_referencesOfItems vs h
    exact .item hv h
  | .map fs, h => by
    obtain ⟨k, v, hv, h⟩ := within_of_mem_referencesOfFields fs h
    exact .field hv h

theorem within_of_mem_referencesOfItems : ∀ vs : List Value, body ∈ referencesOfItems vs →
    ∃ v ∈ vs, Within (.string (Reference.marker ++ body)) v
  | [], h => by cases h
  | v :: vs, h => by
    rcases List.mem_append.mp h with h | h
    · exact ⟨v, List.mem_cons_self, within_of_mem_references v h⟩
    · obtain ⟨w, hw, h⟩ := within_of_mem_referencesOfItems vs h
      exact ⟨w, List.mem_cons_of_mem v hw, h⟩

theorem within_of_mem_referencesOfFields : ∀ fs : List (String × Value),
    body ∈ referencesOfFields fs →
      ∃ k v, (k, v) ∈ fs ∧ Within (.string (Reference.marker ++ body)) v
  | [], h => by cases h
  | (k, v) :: fs, h => by
    rcases List.mem_append.mp h with h | h
    · exact ⟨k, v, List.mem_cons_self, within_of_mem_references v h⟩
    · obtain ⟨n, w, hw, h⟩ := within_of_mem_referencesOfFields fs h
      exact ⟨n, w, List.mem_cons_of_mem (k, v) hw, h⟩

end

/-- `references` misses no string that stands `Within` the tree, be it in a map or in a list, and
makes none up. -/
theorem mem_references_iff {v : Value} :
    body ∈ v.references ↔ Within (.string (Reference.marker ++ body)) v := by
  refine ⟨within_of_mem_references v, fun h => h.references_subset ?_⟩
  rw [references, Reference.body?_marker]
  exact List.mem_singleton_self body

end Value

namespace Attributes

/-- **What a tree reads.** `referencedKeys` lists, once each, what stands before the first dot in
the bodies of the strings with the marker, wherever these stand. Two indices that agree there
resolve the tree alike: to the same tree, or with the same status. And no key is listed in vain: the
tree only resolves where all of them are there. -/
theorem referencedKeys_suffice (a : Attributes) :
    a.referencedKeys.Nodup ∧
    (∀ k, k ∈ a.referencedKeys ↔ ∃ body,
      Value.Within (.string (Reference.marker ++ body)) (.map a) ∧
      '.' ∉ k.toList ∧ (body = k ∨ ∃ path, body = k ++ "." ++ path)) ∧
    (∀ m n : Index, (∀ k ∈ a.referencedKeys, m.get? k = n.get? k) → a.resolve m = a.resolve n) ∧
    ∀ m r, a.resolve m = .ok r → ∀ k ∈ a.referencedKeys, (m.get? k).isSome = true := by
  refine ⟨nodup_eraseDups _, fun k => ?_, fun m n h => resolve_congr h,
    fun m r h => contains_of_resolve h⟩
  rw [mem_referencedKeys]
  refine exists_congr fun body => and_congr ?_ Reference.key_eq_iff
  exact Value.mem_references_iff (v := .map a)

/-- References to two resources, at several depths. -/
def crate : Attributes :=
  [("image", .string "$converge_path.registry.images.0"),
    ("ports", .list [.string "$converge_path.web.port",
      .map [("host", .string "$converge_path.registry.host")]])]

/-- What the crate refers to. -/
def depot : Index := .ofResources
  [⟨"registry", "Local", [("host", .string "hub"), ("images", .list [.string "base"])], []⟩,
    ⟨"web", "Local", [("port", .number (.int 80))], []⟩]

/-- Something else. -/
def mail : Resource := ⟨"mail", "Local", [("port", .number (.int 25))], []⟩

theorem referencedKeys_suffice_crate :
    crate.referencedKeys = ["registry", "web"] ∧ (∃ r, crate.resolve depot = .ok r) ∧
      crate.resolve (depot.erase "web") = .error (.unresolved "web" "web.port") ∧
      ∀ m ∈ [depot, depot.erase "web"], m.get? "mail" ≠ (m.insert "mail" mail).get? "mail" ∧
        (∀ k ∈ crate.referencedKeys, m.get? k = (m.insert "mail" mail).get? k) ∧
        crate.resolve m = crate.resolve (m.insert "mail" mail) := by
  have hkeys : crate.referencedKeys = ["registry", "web"] := by decide +kernel
  have hfull : crate.resolve depot = .ok [("image", .string "base"),
      ("ports", .list [.number (.int 80), .map [("host", .string "hub")]])] := by decide +kernel
  refine ⟨hkeys, ⟨_, hfull⟩, by decide +kernel, fun m hm => ?_⟩
  have hagree : ∀ k ∈ crate.referencedKeys, m.get? k = (m.insert "mail" mail).get? k := by
    rw [hkeys]
    intro k hk
    rw [Keyed.get?_insert, if_neg]
    rintro rfl
    exact absurd hk (by decide)
  refine ⟨?_, hagree, (referencedKeys_suffice crate).2.2.1 m _ hagree⟩
  rcases List.mem_pair.mp hm with rfl | rfl <;> decide +kernel

end Attributes

end Provision
