import Provision.Proofs.Graph.Verdict
import Provision.Proofs.State.Index

/-!
# Dependencies of recorded resources

* `Index.DependsOn`: a recorded resource depends on another recorded one. `Index.Closed`: whatever a
  recorded resource depends on is recorded.
* `Index.ById.build_destroy`, `Index.ById.build_refresh`: where this leads no resource back to
  itself, everything recorded can be destroyed and refreshed. `Index.ById.edges_destroy`: whatever
  depends on a resource is destroyed before it.
-/

namespace Provision

namespace Index

/-- The resource at `a` depends on the one at `b`, and both are recorded. -/
def DependsOn (m : Index) (a b : String) : Prop :=
  ∃ r, m.get? a = some r ∧ b ∈ r.dependsOn ∧ m.contains b = true

/-- Whatever a recorded resource depends on is recorded. -/
def Closed (m : Index) : Prop :=
  ∀ k r, m.get? k = some r → ∀ d ∈ r.dependsOn, m.contains d = true

theorem contains_of_get? {m : Index} {k : String} {r : Resource} (h : m.get? k = some r) :
    m.contains k = true := by
  unfold Keyed.contains
  rw [h]
  rfl

theorem closed_iff {m : Index} :
    m.Closed ↔ ∀ r ∈ m.values, ∀ d ∈ r.dependsOn, m.contains d = true := by
  constructor
  · intro h r hr
    obtain ⟨k, hk⟩ := Keyed.mem_values.mp hr
    exact h k r hk
  · exact fun h k r hk => h r (Keyed.mem_values.mpr ⟨k, hk⟩)

instance (m : Index) : Decidable m.Closed := decidable_of_iff _ closed_iff.symm

variable {m : Index} {op : Operation} {action : Action} {c : Change}

/-- Recorded dependencies along which `f` falls have no cycle. -/
theorem ById.acyclic_of_rank (h : m.ById) (f : String → Nat)
    (hf : ∀ r ∈ m.values, ∀ d ∈ r.dependsOn, f d < f r.key) : Acyclic m.DependsOn := by
  refine Acyclic.of_rank f fun a b ⟨r, hr, hb, _⟩ => ?_
  rw [← h a r hr]
  exact hf r (Keyed.mem_values.mpr ⟨a, hr⟩) b hb

/-- `ById` says that a change planned for a recorded resource stands under the key at which the
resource is recorded. -/
theorem ById.get?_of_mem (h : m.ById) (hc : c ∈ m.byId.map (Change.mk · action)) :
    m.get? c.key = some c.resource ∧ c.action = action := by
  obtain ⟨r, hr, rfl⟩ := List.mem_map.mp hc
  exact ⟨h.mem_byId.mp hr, rfl⟩

section

variable (h : m.ById)

include h

theorem ById.keys_nodup : (Plan.keys (m.byId.map (Change.mk · action))).Nodup := by
  have hkeys : Plan.keys (m.byId.map (Change.mk · action)) = m.byId.map Resource.key := by
    unfold Plan.keys
    rw [List.map_map]
    rfl
  rw [hkeys]
  exact h.keys_byId_nodup

/-- What is planned for everything recorded is planned for nothing else. -/
theorem ById.mem_keys {k : String} :
    k ∈ Plan.keys (m.byId.map (Change.mk · action)) ↔ m.contains k = true := by
  constructor
  · intro hk
    obtain ⟨c, hc, rfl⟩ := List.mem_map.mp hk
    exact contains_of_get? (h.get?_of_mem hc).1
  · intro hk
    obtain ⟨r, hr⟩ := Option.isSome_iff_exists.mp hk
    obtain rfl := h k r hr
    exact List.mem_map_of_mem (f := Change.key)
      (List.mem_map_of_mem (f := (Change.mk · action)) (h.mem_byId.mpr hr))

/-- The dependencies within such a plan are those of `Index.DependsOn`. With `.apply` references
would count as well, hence `hop`. -/
theorem ById.depends_iff (hop : op ≠ .apply) {a b : String} :
    Plan.Depends op (m.byId.map (Change.mk · action)) a b ↔ m.DependsOn a b := by
  constructor
  · rintro ⟨c, hc, rfl, hd, hb⟩
    have hdeclared : b ∈ c.resource.dependsOn := hd.resolve_right fun hd => hop hd.1
    exact ⟨c.resource, (h.get?_of_mem hc).1, hdeclared, h.mem_keys.mp hb⟩
  · rintro ⟨r, hr, hb, hcontains⟩
    obtain rfl := h a r hr
    exact ⟨⟨r, action⟩, List.mem_map_of_mem (h.mem_byId.mpr hr), rfl, .inl hb,
      h.mem_keys.mpr hcontains⟩

theorem ById.not_lacks (ha : action.isApply = false) :
    ¬ Plan.Lacks (m.byId.map (Change.mk · action)) := by
  rintro ⟨k, d, c, hc, -, happly, -⟩
  rw [(h.get?_of_mem hc).2, ha] at happly
  cases happly

/-- The graph that destroys everything leads from each resource to what it depends on. -/
theorem ById.edges_destroy {g : Graph} (hb : Graph.build .destroy (Plan.destroy m) = .ok g)
    {a b : String} : (a, b) ∈ g.edges ↔ m.DependsOn a b := by
  obtain ⟨hg, hop, hp⟩ := Graph.build_sound hb
  rw [hg.edges_eq, Plan.mem_edges_iff hg.keys_nodup, hop, hp, Plan.precedes_destroy]
  exact h.depends_iff (by decide)

variable (hm : Acyclic m.DependsOn)

include hm

/-- Everything recorded can be destroyed: nothing is applied, so no dependency can be missing, and
`hac` rules out a cycle. -/
theorem ById.build_destroy : ∃ g, Graph.build .destroy (Plan.destroy m) = .ok g := by
  refine (Graph.build_verdict ..).ok_iff.mpr ⟨h.keys_nodup, h.not_lacks rfl, ?_⟩
  rw [Plan.precedes_destroy]
  exact hm.mono fun a b hab => (h.depends_iff (by decide)).mp hab

/-- The same of a refresh, where dependencies go first. -/
theorem ById.build_refresh : ∃ g, Graph.build .refresh (Plan.refresh m) = .ok g := by
  have hkept : ∀ k, ¬ Plan.Deletes (Plan.refresh m) k := by
    rintro k ⟨c, hc, -, ha⟩
    cases (h.get?_of_mem hc).2.symm.trans ha
  refine (Graph.build_verdict ..).ok_iff.mpr ⟨h.keys_nodup, h.not_lacks rfl, ?_⟩
  rw [Plan.precedes_of_kept (by decide) hkept]
  exact hm.swap.mono fun a b hab => (h.depends_iff (by decide)).mp hab

end

end Index

end Provision
