import Provision.Proofs.Attributes.Ordered
import Provision.Proofs.Json.RoundTrip
import Provision.Proofs.Timestamp.RoundTrip
import Provision.State.Json

/-!
# State and resources read back

* `State.Ordered`: the attribute trees of all resources are in key order. `State.Plain`: there are
  no doubles in them.
* `Resource.ofJson?_toJson`, `State.ofJson?_toJson`: the documents of such resources and states
  stand for them.
* `Resource.ordered_of_ofJson?`, `State.ordered_of_ofJson?`: documents stand for no others, in
  whatever form they are. So what a document stands for has a document of its own.
-/

namespace Provision

namespace Json

/-- `items?` reads an array item by item, so an array that was mapped is read back if each item
is. -/
theorem items?_map {α : Type} {f : Json → Option α} {g : α → Json} {xs : List α}
    (h : ∀ x ∈ xs, f (g x) = some x) : items? f (.array (xs.map g)) = some xs := by
  unfold items?
  dsimp only
  induction xs with
  | nil => rfl
  | cons x xs ih =>
    obtain ⟨hx, hxs⟩ := List.forall_mem_cons.mp h
    rw [List.map_cons, List.mapM_cons, hx, ih hxs]
    rfl

/-- What `items?` gives was read of items of the array. -/
theorem exists_of_mem_items? {α : Type} {f : Json → Option α} {j : Json} {xs : List α}
    (h : items? f j = some xs) {x : α} (hx : x ∈ xs) : ∃ k, f k = some x := by
  unfold items? at h
  split at h
  · next items =>
    induction items generalizing xs with
    | nil =>
      cases h
      cases hx
    | cons k items ih =>
      rw [List.mapM_cons] at h
      obtain ⟨y, hy, h⟩ := Option.bind_eq_some_iff.mp h
      obtain ⟨ys, hys, h⟩ := Option.bind_eq_some_iff.mp h
      cases h
      rcases List.mem_cons.mp hx with rfl | hx
      · exact ⟨k, hy⟩
      · exact ih hx hys
  · cases h

end Json

namespace Resource

variable {r : Resource} {j : Json}

theorem record?_toJson (r : Resource) : r.toJson.record? fieldNames =
    some [some (.string r.id), some (.string r.type), some r.attributes.toJson,
      if r.dependsOn = [] then none else some (.array (r.dependsOn.map .string))] := by
  unfold toJson
  cases r.dependsOn <;> rfl

/-- The document of a resource stands for the resource. An empty list of dependencies is not
written, and what is not written is read as an empty list. -/
theorem ofJson?_toJson (h : r.attributes.Ordered) : ofJson? r.toJson = some r := by
  have hdeps : (if r.dependsOn = [] then none
      else some (Json.array (r.dependsOn.map .string))).elim (some [])
        (Json.items? Json.string?) = some r.dependsOn := by
    split
    · next he => exact congrArg some he.symm
    · exact Json.items?_map fun _ _ => rfl
  unfold ofJson?
  rw [record?_toJson]
  simp [Json.string?, h.ofJson?_toJson, hdeps]

/-- Only resources with trees in key order are read, whichever order the document has. -/
theorem ordered_of_ofJson? (h : ofJson? j = some r) : r.attributes.Ordered := by
  unfold ofJson? at h
  obtain ⟨fields, -, h⟩ := Option.bind_eq_some_iff.mp h
  split at h
  · next attributes _ =>
    simp only [Option.bind_eq_bind, Option.bind_eq_some_iff, Option.pure_def] at h
    obtain ⟨_, -, _, -, _, -, _, -, a, ha, _, -, h⟩ := h
    cases h
    cases attributes with
    | none =>
      cases ha
      exact ⟨.nil, trivial⟩
    | some attributes => exact Attributes.ordered_of_ofJson? ha
  · cases h

theorem plain_toJson (h : r.attributes.toJson.Plain) : r.toJson.Plain := by
  have hdeps : Json.PlainItems (r.dependsOn.map .string) :=
    Json.plainItems_map fun _ _ => trivial
  unfold toJson
  split
  · exact ⟨trivial, trivial, h, trivial⟩
  · exact ⟨trivial, trivial, h, hdeps, trivial⟩

end Resource

namespace State

/-- The attribute trees of all resources are in key order. -/
def Ordered (s : State) : Prop := ∀ r ∈ s.resources, r.attributes.Ordered

variable {s : State} {j : Json}

theorem serial?_toNat (n : UInt64) : serial? (.number (.int n.toNat)) = some n := by
  have hn : (n.toNat : Int) < UInt64.size := Int.ofNat_lt.mpr n.toNat_lt_size
  unfold serial?
  dsimp only
  rw [if_pos ⟨Int.natCast_nonneg _, hn⟩, Int.toNat_natCast, UInt64.ofNat_toNat]

theorem record?_toJson (s : State) : s.toJson.record? fieldNames =
    some [some (.number (.int s.serial.toNat)), some (.string s.lastModified.text),
      some (.array (s.resources.map Resource.toJson))] := rfl

/-- `State.ofJson?` once its three fields are known: the serial is zero and the list empty where
they are left out, the time may not be. -/
theorem ofJson?_eq {serial lastModified resources : Option Json}
    (h : j.record? fieldNames = some [serial, lastModified, resources]) : ofJson? j = (do
      let serial ← serial.elim (some 0) serial?
      let lastModified ← (← (← lastModified).string?) |> Timestamp.ofText?
      let resources ← resources.elim (some []) (Json.items? Resource.ofJson?)
      return { serial, lastModified, resources }) := by
  unfold ofJson?
  rw [h]
  rfl

/-- The document of a state stands for the state, its time included, by `Timestamp.ofText?_text`. -/
theorem ofJson?_toJson (h : s.Ordered) : ofJson? s.toJson = some s := by
  have hresources := Json.items?_map fun r hr => Resource.ofJson?_toJson (h r hr)
  rw [ofJson?_eq (record?_toJson s), Option.elim_some, serial?_toNat, Option.elim_some, hresources]
  simp [Json.string?, Timestamp.ofText?_text]

/-- Only states with trees in key order are read; so `Ordered` is no restriction on what is
loaded. -/
theorem ordered_of_ofJson? (h : ofJson? j = some s) : s.Ordered := by
  unfold ofJson? at h
  obtain ⟨fields, -, h⟩ := Option.bind_eq_some_iff.mp h
  split at h
  · next resources =>
    simp only [Option.bind_eq_bind, Option.bind_eq_some_iff, Option.pure_def] at h
    obtain ⟨_, -, _, -, _, -, _, -, rs, hrs, h⟩ := h
    cases h
    intro r hr
    cases resources with
    | none =>
      cases hrs
      cases hr
    | some resources =>
      obtain ⟨k, hk⟩ := Json.exists_of_mem_items? hrs hr
      exact Resource.ordered_of_ofJson? hk
  · cases h

/-- All numbers in the attribute trees are integers that 64 bits hold. -/
def Plain (s : State) : Prop := ∀ r ∈ s.resources, r.attributes.toJson.Plain

/-- The document of a `Plain` state has no doubles either: the serial is a number that 64 bits
hold. -/
theorem Plain.toJson (h : s.Plain) : s.toJson.Plain := by
  have hserial : (Number.int s.serial.toNat).Integral := by
    have hlt : (s.serial.toNat : Int) < UInt64.size := Int.ofNat_lt.mpr s.serial.toNat_lt_size
    exact ⟨by omega, hlt⟩
  have hresources : Json.PlainItems (s.resources.map Resource.toJson) :=
    Json.plainItems_map fun r hr => Resource.plain_toJson (h r hr)
  exact ⟨hserial, trivial, hresources, trivial⟩

end State

end Provision
