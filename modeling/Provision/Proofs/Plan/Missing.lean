import Provision.Proofs.Plan.Coverage

/-!
# Dependencies on what a manifest drops

* `Plan.mem_keys_apply_iff`: what a manifest plans for is what it desires or finds recorded.
* `Manifest.accepted_dependencies`: a manifest is refused for a missing dependency exactly if it has
  to apply a resource that depends on something neither desired nor recorded. So an accepted one may
  depend on what it drops, and then waits until that is deleted.
* `Manifest.never_missing_iff`: only a manifest that depends on nothing else is never refused for
  it, whatever is recorded.
-/

namespace Provision

namespace Plan

variable {desired : List Resource} {prior : Index} {ignored : List FieldPath} {k d : String}

/-- Planned is what is desired or recorded, so these are the keys that a dependency may name. -/
theorem mem_keys_apply_iff (hprior : prior.ById) : k ∈ (apply desired prior ignored).keys ↔
    k ∈ desired.map Resource.key ∨ prior.contains k = true := by
  constructor
  · intro hk
    by_cases hd : k ∈ desired.map Resource.key
    · exact .inl hd
    · exact .inr (contains_of_dropped hprior hk hd)
  · rintro (hk | hk)
    · obtain ⟨r, hr, rfl⟩ := List.mem_map.mp hk
      exact List.mem_map_of_mem (f := Change.key) (mem_apply_of_mem hr)
    · obtain ⟨r, hr⟩ := Option.isSome_iff_exists.mp hk
      exact mem_keys_apply hprior hr

/-- What is planned and not desired is deleted. -/
theorem deletes_of_dropped (hk : k ∈ (apply desired prior ignored).keys)
    (hd : k ∉ desired.map Resource.key) : (apply desired prior ignored).Deletes k := by
  obtain ⟨c, hc, rfl⟩ := List.mem_map.mp hk
  exact ⟨c, hc, rfl, action_of_dropped hc hd⟩

/-- `Plan.Misses` in terms of the manifest and of what is recorded, by `mem_keys_apply_iff`. -/
theorem misses_apply_iff (hprior : prior.ById) : (apply desired prior ignored).Misses k d ↔
    ∃ c ∈ apply desired prior ignored, c.key = k ∧ c.action.isApply = true ∧
      d ∈ c.resource.dependsOn ∧ d ∉ desired.map Resource.key ∧ prior.contains d = false := by
  unfold Misses
  simp only [mem_keys_apply_iff hprior, not_or, Bool.not_eq_true]

/-- `misses_apply_iff` without the two keys: some applied resource has a dependency that is neither
desired nor recorded. -/
theorem lacks_apply_iff (hprior : prior.ById) : (apply desired prior ignored).Lacks ↔
    ∃ c ∈ apply desired prior ignored, c.action.isApply = true ∧
      ∃ d ∈ c.resource.dependsOn, d ∉ desired.map Resource.key ∧ prior.contains d = false := by
  unfold Lacks
  simp only [misses_apply_iff hprior]
  constructor
  · rintro ⟨k, d, c, hc, -, ha, hd, hnot⟩
    exact ⟨c, hc, ha, d, hd, hnot⟩
  · rintro ⟨c, hc, ha, d, hd, hnot⟩
    exact ⟨c.key, d, c, hc, rfl, ha, hd, hnot⟩

/-- A resource that is applied goes after a planned dependency, also if that is deleted: `Reverses`
needs two deletions. -/
theorem precedes_of_applied {p : Plan} (hn : p.keys.Nodup) {c : Change} (hc : c ∈ p)
    (ha : c.action.isApply = true) (hd : d ∈ c.resource.dependsOn) (hk : d ∈ p.keys) :
    p.Precedes .apply d c.key := by
  refine .inr ⟨?_, c, hc, rfl, .inl hd, hk⟩
  rintro (hop | ⟨-, hdel⟩)
  · cases hop
  · rw [(deletes_iff hn hc).mp hdel] at ha
    cases ha

end Plan

namespace Manifest

variable {m : Manifest}

/-- **Dependencies that are dropped.** A manifest that passed `validate` is refused for a missing
dependency exactly if a resource to be created or updated declares one that is neither desired nor
recorded, and the refusal names such two. Where it is accepted, each such resource depends on
desired resources, which stay, and on recorded ones that are dropped, and these are deleted before
it. -/
theorem accepted_dependencies (hv : m.validate = .ok ()) {prior : Index} (hprior : prior.ById)
    (ignored : List FieldPath) :
    ((∃ k d, Graph.build .apply (Plan.apply m.resources prior ignored) =
        .error (.missingDependency k d)) ↔
      ∃ c ∈ Plan.apply m.resources prior ignored, c.action.isApply = true ∧
        ∃ d ∈ c.resource.dependsOn, d ∉ m.keys ∧ prior.contains d = false) ∧
    (∀ k d, Graph.build .apply (Plan.apply m.resources prior ignored) =
        .error (.missingDependency k d) →
      ∃ c ∈ Plan.apply m.resources prior ignored, c.key = k ∧ c.action.isApply = true ∧
        d ∈ c.resource.dependsOn ∧ d ∉ m.keys ∧ prior.contains d = false) ∧
    ∀ g, Graph.build .apply (Plan.apply m.resources prior ignored) = .ok g →
      ∀ c ∈ Plan.apply m.resources prior ignored, c.action.isApply = true →
        ∀ d ∈ c.resource.dependsOn,
          (d ∈ m.keys ∧ ¬ (Plan.apply m.resources prior ignored).Deletes d) ∨
          (d ∉ m.keys ∧ (Plan.apply m.resources prior ignored).Deletes d ∧
            d ∈ g.dependencies c.key) := by
  have hn : (Plan.apply m.resources prior ignored).keys.Nodup :=
    Plan.keys_apply_nodup (validate_iff.mp hv).2 hprior
  have hverdict := Graph.build_verdict .apply (Plan.apply m.resources prior ignored)
  refine ⟨?_, fun k d hb => ?_, fun g hb c hc ha d hd => ?_⟩
  · rw [hverdict.missing_iff, Plan.lacks_apply_iff hprior, and_iff_right hn]
    rfl
  · rw [hb] at hverdict
    cases hverdict with
    | missing _ hm => exact (Plan.misses_apply_iff hprior).mp hm
  · have hplanned : d ∈ (Plan.apply m.resources prior ignored).keys :=
      Decidable.byContradiction fun hnot =>
        Graph.not_lacks_of_build hb ⟨c.key, d, c, hc, rfl, ha, hd, hnot⟩
    by_cases hkeys : d ∈ m.keys
    · exact .inl ⟨hkeys, fun hdel => Plan.not_mem_keys_of_deletes hdel hkeys⟩
    · refine .inr ⟨hkeys, Plan.deletes_of_dropped hplanned hkeys, ?_⟩
      exact ((Graph.arranges_of_build hb).mem_dependencies c.key d).mpr
        (Plan.precedes_of_applied hn hc ha hd hplanned)

/-- Only a manifest whose resources depend on each other and nothing else is never refused for a
missing dependency, whatever is recorded. Its check does not ask for this. -/
theorem never_missing_iff (hv : m.validate = .ok ()) :
    (∀ prior : Index, prior.ById → ∀ ignored k d,
      Graph.build .apply (Plan.apply m.resources prior ignored) ≠
        .error (.missingDependency k d)) ↔
    ∀ r ∈ m.resources, ∀ d ∈ r.dependsOn, d ∈ m.keys := by
  have hn : ∀ prior : Index, prior.ById → ∀ ignored,
      (Plan.apply m.resources prior ignored).keys.Nodup := fun prior hprior ignored =>
    Plan.keys_apply_nodup (validate_iff.mp hv).2 hprior
  constructor
  · -- with nothing recorded every resource is created, and nothing is there but the manifest
    intro hnever r hr d hd
    have hempty : Index.ById .empty := fun k r hr => nomatch hr
    refine Decidable.byContradiction fun hnot => ?_
    obtain ⟨k, d, hb⟩ := (Graph.build_verdict .apply _).missing_iff.mpr
      ⟨hn .empty hempty [], (Plan.lacks_apply_iff hempty).mpr
        ⟨_, Plan.mem_apply_of_mem hr, rfl, d, hd, hnot, rfl⟩⟩
    exact hnever .empty hempty [] k d hb
  · intro hclosed prior hprior ignored k d hb
    have hlacks := ((Graph.build_verdict ..).missing_iff.mp ⟨k, d, hb⟩).2
    obtain ⟨c, hc, ha, d, hd, hnot, -⟩ := (Plan.lacks_apply_iff hprior).mp hlacks
    refine hnot (hclosed c.resource (Plan.mem_desired_of_ne_delete hc fun hdel => ?_) d hd)
    rw [hdel] at ha
    cases ha

/-! ## A dependency that is left over -/

/-- An application that depends on a database, which the manifest does not list. -/
def leftover : Manifest where
  resources := [⟨"app", "Local", [], ["db"]⟩]

/-- The database is there. -/
def leftoverRecorded : Index := .ofResources [⟨"db", "Local", [], []⟩]

/-- The database is deleted, and then the application is created. -/
def leftoverGraph : Graph where
  operation := .apply
  plan := [⟨⟨"app", "Local", [], ["db"]⟩, .create⟩, ⟨⟨"db", "Local", [], []⟩, .delete⟩]
  edges := [("db", "app")]
  order := ["db", "app"]

theorem build_leftover :
    Graph.build .apply (Plan.apply leftover.resources leftoverRecorded []) = .ok leftoverGraph := by
  unfold Plan.apply
  rw [Index.byId_eq_values (by decide +kernel)]
  decide +kernel

theorem accepted_dependencies_leftover :
    (∃ k d, Graph.build .apply (Plan.apply leftover.resources .empty []) =
      .error (.missingDependency k d)) ∧
    "db" ∉ leftover.keys ∧ leftoverGraph.plan.Deletes "db" ∧
      "db" ∈ leftoverGraph.dependencies "app" := by
  have hempty : Index.ById .empty := fun k r hr => nomatch hr
  have hplan : leftoverGraph.plan = Plan.apply leftover.resources leftoverRecorded [] :=
    (Graph.build_sound build_leftover).2.2
  obtain ⟨hiff, -⟩ := accepted_dependencies (m := leftover) rfl hempty []
  obtain ⟨-, -, haccepted⟩ :=
    accepted_dependencies (m := leftover) rfl (Index.byId_ofResources _) []
  refine ⟨hiff.mpr ⟨_, Plan.mem_apply_of_mem List.mem_cons_self, rfl, "db", ?_⟩, ?_⟩
  · decide
  · have hc : ⟨⟨"app", "Local", [], ["db"]⟩, .create⟩ ∈
        Plan.apply leftover.resources leftoverRecorded [] := hplan ▸ List.mem_cons_self
    rcases haccepted _ build_leftover _ hc rfl "db" List.mem_cons_self with ⟨hk, -⟩ | hdropped
    · exact absurd hk (by decide)
    · rw [hplan]
      exact hdropped

/-- It is not so that a dependency on what is dropped is refused: `leftover` is accepted, and `db`
deleted before `app` is created. -/
theorem dropped_dependency_accepted :
    ¬ ∀ (m : Manifest) (prior : Index) (ignored : List FieldPath) (g : Graph),
      m.validate = .ok () → prior.ById →
      Graph.build .apply (Plan.apply m.resources prior ignored) = .ok g →
      ∀ c ∈ Plan.apply m.resources prior ignored, c.action.isApply = true →
        ∀ d ∈ c.resource.dependsOn,
          d ∈ m.keys ∧ ¬ (Plan.apply m.resources prior ignored).Deletes d := by
  intro h
  have hc : ⟨⟨"app", "Local", [], ["db"]⟩, .create⟩ ∈
      Plan.apply leftover.resources leftoverRecorded [] :=
    (Graph.build_sound build_leftover).2.2 ▸ List.mem_cons_self
  have hdb := h leftover leftoverRecorded [] _ rfl (Index.byId_ofResources _) build_leftover _ hc
    rfl "db" List.mem_cons_self
  exact absurd hdb.1 (by decide)

end Manifest

end Provision
