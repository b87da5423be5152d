import Provision.Proofs.Fields
import Provision.State

/-!
# Indices and states

* `Index.ById`: every resource stands under its own key.
* `Index.ById.ofResources_byId`: the resources of such an index make up the index again.
* `Index.get?_ofResources_eq_some`, `Index.byId_ofResources`: whatever a state lists makes up such
  an index, which has nothing else.
-/

namespace Provision

namespace Keyed

variable {α : Type}

theorem get?_eq_some_iff {m : Keyed α} {k : String} {v : α} :
    m.get? k = some v ↔ (k, v) ∈ m.fields :=
  Fields.get?_eq_some_iff m.keys_nodup

theorem mem_values {m : Keyed α} {v : α} : v ∈ m.values ↔ ∃ k, m.get? k = some v := by
  simp only [values, List.mem_map, Prod.exists, get?_eq_some_iff]
  exact ⟨fun ⟨k, _, hm, hv⟩ => ⟨k, hv ▸ hm⟩, fun ⟨k, hm⟩ => ⟨k, v, hm, rfl⟩⟩

end Keyed

namespace Index

/-- Every resource stands under its own key. -/
def ById (m : Index) : Prop := ∀ k r, m.get? k = some r → r.key = k

theorem mem_byId {m : Index} {r : Resource} : r ∈ m.byId ↔ ∃ k, m.get? k = some r := by
  unfold byId
  rw [List.mem_mergeSort, Keyed.mem_values]

/-- `byId` is sorted by id; `mergeSort` asks for an order that is total and transitive, which `≤` on
texts is. -/
theorem byId_pairwise (m : Index) : m.byId.Pairwise fun a b => a.id ≤ b.id := by
  have htrans : ∀ a b c : Resource, decide (a.id ≤ b.id) = true → decide (b.id ≤ c.id) = true →
      decide (a.id ≤ c.id) = true := fun a b c hab hbc =>
    decide_eq_true (String.le_trans (of_decide_eq_true hab) (of_decide_eq_true hbc))
  have htotal : ∀ a b : Resource, (decide (a.id ≤ b.id) || decide (b.id ≤ a.id)) = true :=
    fun a b => by simpa using String.le_total a.id b.id
  exact (List.pairwise_mergeSort htrans htotal m.values).imp of_decide_eq_true

/-- Resources that stand in the order of their ids are listed as they stand. -/
theorem byId_eq_values {m : Index} (h : m.values.Pairwise fun a b => a.id ≤ b.id) :
    m.byId = m.values :=
  List.mergeSort_of_pairwise (h.imp decide_eq_true)

theorem byId_perm (m : Index) : m.byId.Perm m.values := List.mergeSort_perm ..

variable {m : Index}

/-- With `ById`, `byId` lists exactly what stands under its own key. -/
theorem ById.mem_byId (h : m.ById) {r : Resource} : r ∈ m.byId ↔ m.get? r.key = some r := by
  rw [Index.mem_byId]
  refine ⟨fun ⟨k, hk⟩ => ?_, fun hr => ⟨_, hr⟩⟩
  rw [h k r hk]
  exact hk

theorem ById.map_values (h : m.ById) : m.values.map (fun r => (r.key, r)) = m.fields := by
  unfold Keyed.values
  rw [List.map_map]
  refine (List.map_congr_left fun p hp => ?_).trans (List.map_id _)
  obtain ⟨k, r⟩ := p
  exact Prod.ext (h k r (Keyed.get?_eq_some_iff.mpr hp)) rfl

theorem ById.keys_byId_nodup (h : m.ById) : (m.byId.map Resource.key).Nodup := by
  have hkeys : m.values.map Resource.key = m.keys := by
    have hfst := congrArg (List.map Prod.fst) h.map_values
    rwa [List.map_map] at hfst
  rw [((byId_perm m).map Resource.key).nodup_iff, hkeys]
  exact m.keys_nodup

/-- With `ById` no id stands twice, so the order of `byId` is strict, and it is the order of the
keys. -/
theorem ById.byId_sorted (h : m.ById) : m.byId.Pairwise fun a b => a.key < b.key := by
  have hne : m.byId.Pairwise fun a b => a.key ≠ b.key := List.pairwise_map.mp h.keys_byId_nodup
  exact (m.byId_pairwise.and hne).imp fun h => Std.lt_of_le_of_ne h.1 h.2

/-- `ofResources` puts a listed index together again. For any other index it would move resources to
their own keys. -/
theorem ById.ofResources_byId (h : m.ById) : ofResources m.byId = m := by
  have hperm : (m.byId.map fun r => (r.key, r)).Perm m.fields := by
    rw [← h.map_values]
    exact (List.mergeSort_perm ..).map _
  have hn : ((m.byId.map fun r => (r.key, r)).map Prod.fst).Nodup :=
    (hperm.map Prod.fst).nodup_iff.mpr m.keys_nodup
  refine Keyed.ext_get? fun k => Option.ext fun r => ?_
  unfold ofResources
  rw [Keyed.get?_ofList hn, Fields.get?_eq_some_iff hn, Keyed.get?_eq_some_iff, hperm.mem_iff]

/-- Only no resources make up no index. -/
theorem eq_nil_of_ofResources {rs : List Resource} (h : ofResources rs = .empty) : rs = [] := by
  rcases List.eq_nil_or_concat rs with rfl | ⟨init, r, rfl⟩
  · rfl
  · have hlast : (ofResources (init ++ [r])).get? r.key = some r := by
      have hinsert : ofResources (init ++ [r]) = (ofResources init).insert r.key r := by
        simp [ofResources, Keyed.ofList, Keyed.insert, Fields.ofList, List.foldl_append]
      rw [hinsert, Keyed.get?_insert, if_pos rfl]
    rw [← List.concat_eq_append] at hlast
    rw [h] at hlast
    cases hlast

theorem get?_ofResources_eq_some {rs : List Resource} {k : String} {r : Resource}
    (h : (ofResources rs).get? k = some r) : r ∈ rs ∧ r.key = k := by
  have hm := Fields.mem_of_mem_ofList (Keyed.get?_eq_some_iff.mp h)
  obtain ⟨q, hq, he⟩ := List.mem_map.mp hm
  obtain ⟨rfl, rfl⟩ := Prod.mk.inj he
  exact ⟨hq, rfl⟩

theorem byId_ofResources (rs : List Resource) : (ofResources rs).ById :=
  fun _ _ h => (get?_ofResources_eq_some h).2

/-- `ById` is not only enough for `ofResources_byId`: it is needed. -/
theorem ofResources_byId_iff {m : Index} : ofResources m.byId = m ↔ m.ById := by
  refine ⟨fun h => ?_, ById.ofResources_byId⟩
  rw [← h]
  exact byId_ofResources _

end Index

end Provision
