import Provision.Manifest
import Provision.Proofs.Graph.Reversal
import Provision.Proofs.Plan.Convergence
import Provision.Proofs.State.Dependencies

/-!
# Plans of a manifest

* `Manifest.validate_iff`: what a manifest has to be to pass its check.
* `Plan.Covers`: the desired resources in their order, and behind them what is recorded and not
  desired. `Plan.apply_covers`: such is every plan to apply.
* `Manifest.plans_build`: where neither the manifest nor what is recorded depends on itself, and the
  manifest on nothing else, every plan has a graph: to apply, to destroy and to refresh.
-/

namespace Provision

namespace Manifest

/-- `fault?` goes through the list with the ids that it has passed, so `before` has to be in the
statement. -/
theorem fault?_eq_none_iff {before : List String} {rs : List Resource} :
    fault? before rs = none ↔ (∀ r ∈ rs, r.id ≠ "" ∧ '.' ∉ r.id.toList ∧ r.id ∉ before) ∧
      (rs.map Resource.id).Nodup := by
  induction rs generalizing before with
  | nil => simp [fault?]
  | cons r rs ih =>
    have hothers : (∀ q ∈ rs, q.id ≠ "" ∧ '.' ∉ q.id.toList ∧ q.id ∉ r.id :: before) ↔
        (∀ q ∈ rs, q.id ≠ "" ∧ '.' ∉ q.id.toList ∧ q.id ∉ before) ∧ r.id ∉ rs.map Resource.id := by
      simp only [List.mem_cons, not_or, List.mem_map, not_exists, not_and]
      constructor
      · exact fun h => ⟨fun q hq => ⟨(h q hq).1, (h q hq).2.1, (h q hq).2.2.2⟩,
          fun q hq => (h q hq).2.2.1⟩
      · rintro ⟨h, hne⟩ q hq
        obtain ⟨hempty, hdot, hbefore⟩ := h q hq
        exact ⟨hempty, hdot, hne q hq, hbefore⟩
    simp only [fault?]
    split
    · next h => simp [h]
    · split
      · next h => simp [h]
      · split
        · next h => simp [h]
        · next hempty hdot hbefore =>
          rw [ih, hothers, List.map_cons, List.nodup_cons]
          simp [hempty, hdot, hbefore, and_assoc]

/-- A manifest passes `validate` if every id is usable, that is not empty and without dots, and
stands once. -/
theorem validate_iff {m : Manifest} : m.validate = .ok () ↔
    (∀ r ∈ m.resources, r.id ≠ "" ∧ '.' ∉ r.id.toList) ∧ (m.resources.map Resource.id).Nodup := by
  have hnone : m.validate = .ok () ↔ fault? [] m.resources = none := by
    unfold validate
    split <;> simp [*]
  rw [hnone, fault?_eq_none_iff]
  simp

/-- The keys of the desired resources. -/
def keys (m : Manifest) : List String := m.resources.map Resource.key

/-- The desired resource at `a` depends on `b`: it declares so, or refers to it. -/
def DependsOn (m : Manifest) (a b : String) : Prop :=
  ∃ r ∈ m.resources, r.key = a ∧ b ∈ r.dependsOn ++ r.attributes.referencedKeys

theorem mem_keys_of_dependsOn {m : Manifest}
    (hclosed : ∀ r ∈ m.resources, ∀ d ∈ r.dependsOn ++ r.attributes.referencedKeys, d ∈ m.keys)
    {a b : String} (h : m.DependsOn a b) : b ∈ m.keys := by
  obtain ⟨r, hr, -, hb⟩ := h
  exact hclosed r hr b hb

/-- Dependencies of a manifest along which `f` falls have no cycle; it is how `stack` is checked. -/
theorem acyclic_of_rank {m : Manifest} (f : String → Nat)
    (h : ∀ r ∈ m.resources, ∀ d ∈ r.dependsOn ++ r.attributes.referencedKeys, f d < f r.key) :
    Acyclic m.DependsOn := by
  refine Acyclic.of_rank f fun a b ⟨r, hr, hk, hb⟩ => ?_
  rw [← hk]
  exact h r hr b hb

end Manifest

namespace Plan

variable {desired : List Resource} {prior : Index} {ignored : List FieldPath} {a b : String}

/-! ## What is listed -/

/-- The desired resources in their order, each to be created exactly if it is not recorded. Then
those to be deleted, by id: what is recorded and not desired. -/
structure Covers (desired : List Resource) (prior : Index) (kept dropped : Plan) : Prop where
  resources : kept.map Change.resource = desired
  create_iff : ∀ c ∈ kept, c.action = .create ↔ prior.get? c.key = none
  ne_delete : ∀ c ∈ kept, c.action ≠ .delete
  mem_dropped : ∀ c, c ∈ dropped ↔ c.action = .delete ∧ prior.get? c.key = some c.resource ∧
    c.key ∉ desired.map Resource.key
  sorted : dropped.Pairwise fun c d => c.key < d.key

theorem actionFor_eq_create_iff {r : Resource} :
    actionFor prior ignored r = .create ↔ prior.get? r.key = none := by
  refine ⟨get?_of_create, fun h => ?_⟩
  unfold actionFor
  rw [h]

/-- `Plan.apply` lists everything desired in its order, and then everything else that is recorded,
sorted, to be deleted. -/
theorem apply_covers (desired : List Resource) (hprior : prior.ById) (ignored : List FieldPath) :
    ∃ kept dropped, apply desired prior ignored = kept ++ dropped ∧
      Covers desired prior kept dropped := by
  refine ⟨_, _, rfl, ?_, fun c hc => ?_, fun c hc => ?_, fun c => ?_, ?_⟩
  · rw [List.map_map]
    exact List.map_id _
  · obtain ⟨r, -, rfl⟩ := List.mem_map.mp hc
    exact actionFor_eq_create_iff
  · obtain ⟨r, -, rfl⟩ := List.mem_map.mp hc
    exact actionFor_ne_delete
  · simp only [List.mem_map, List.mem_filter, Bool.not_eq_true', List.any_eq_false,
      decide_eq_true_eq, not_exists, not_and]
    constructor
    · rintro ⟨r, ⟨hr, hnot⟩, rfl⟩
      exact ⟨rfl, hprior.mem_byId.mp hr, hnot⟩
    · rintro ⟨ha, hget, hnot⟩
      obtain ⟨r, action⟩ := c
      obtain rfl : action = .delete := ha
      exact ⟨r, ⟨hprior.mem_byId.mpr hget, hnot⟩, rfl⟩
  · exact List.pairwise_map.mpr (hprior.byId_sorted.filter _)

/-- The two halves have different keys, as the second has no desired ones; `hn` is about the first
alone. -/
theorem Covers.keys_nodup {kept dropped : Plan} (h : Covers desired prior kept dropped)
    (hn : (desired.map Resource.key).Nodup) : (kept ++ dropped).keys.Nodup := by
  have hkept : kept.keys = desired.map Resource.key := by
    rw [← h.resources, List.map_map]
    rfl
  have hdropped : dropped.keys.Nodup :=
    List.pairwise_map.mpr (h.sorted.imp fun hlt => (Std.ne_of_lt hlt))
  unfold keys at hkept hdropped ⊢
  rw [List.map_append, hkept]
  refine List.nodup_append.mpr ⟨hn, hdropped, fun k hk l hl => ?_⟩
  obtain ⟨c, hc, rfl⟩ := List.mem_map.mp hl
  rintro rfl
  exact ((h.mem_dropped c).mp hc).2.2 hk

theorem keys_apply_nodup (hn : (desired.map Resource.key).Nodup) (hprior : prior.ById) :
    (apply desired prior ignored).keys.Nodup := by
  obtain ⟨kept, dropped, hp, hcovers⟩ := apply_covers desired hprior ignored
  rw [hp]
  exact hcovers.keys_nodup hn

/-! ## What depends on what -/

theorem contains_of_dropped (hprior : prior.ById) (ha : a ∈ (apply desired prior ignored).keys)
    (hnot : a ∉ desired.map Resource.key) : prior.contains a = true := by
  obtain ⟨c, hc, rfl⟩ := List.mem_map.mp ha
  exact Index.contains_of_get? (get?_of_delete hprior hc (action_of_dropped hc hnot))

/-- What is planned and not deleted is desired. -/
theorem mem_keys_of_not_deletes (ha : a ∈ (apply desired prior ignored).keys)
    (hnot : ¬ (apply desired prior ignored).Deletes a) : a ∈ desired.map Resource.key := by
  obtain ⟨c, hc, rfl⟩ := List.mem_map.mp ha
  refine List.mem_map_of_mem (f := Resource.key) (mem_desired_of_ne_delete hc fun hdel => ?_)
  exact hnot ⟨c, hc, rfl, hdel⟩

/-- Nothing desired is deleted; `apply` compares the ids and not the resources. -/
theorem not_mem_keys_of_deletes (ha : (apply desired prior ignored).Deletes a) :
    a ∉ desired.map Resource.key := by
  obtain ⟨c, hc, rfl, hdel⟩ := ha
  rcases mem_apply.mp hc with ⟨r, -, rfl⟩ | ⟨r, -, hnot, rfl⟩
  · exact absurd hdel actionFor_ne_delete
  · intro hk
    obtain ⟨d, hd, he⟩ := List.mem_map.mp hk
    exact hnot d hd he

/-- What is deleted depends on what was recorded for it. Its references do not count, as it is not
applied. -/
theorem dependsOn_of_dropped (hprior : prior.ById) (ha : a ∉ desired.map Resource.key)
    (hb : b ∉ desired.map Resource.key)
    (h : (apply desired prior ignored).Depends .apply a b) : prior.DependsOn a b := by
  obtain ⟨c, hc, rfl, hd, hbp⟩ := h
  have hdel := action_of_dropped hc ha
  refine ⟨c.resource, get?_of_delete hprior hc hdel, ?_, contains_of_dropped hprior hbp hb⟩
  refine hd.resolve_right fun hd => ?_
  rw [hdel] at hd
  cases hd.2.1

section

variable {m : Manifest}

/-- A desired resource depends on what the manifest says, also where it is left alone. -/
theorem dependsOn_of_desired (ha : a ∈ m.keys)
    (h : (apply m.resources prior ignored).Depends .apply a b) : m.DependsOn a b := by
  obtain ⟨c, hc, rfl, hd, -⟩ := h
  have hne : c.action ≠ .delete := fun hdel => not_mem_keys_of_deletes ⟨c, hc, rfl, hdel⟩ ha
  refine ⟨c.resource, mem_desired_of_ne_delete hc hne, rfl, ?_⟩
  exact List.mem_append.mpr (hd.imp_right fun hd => hd.2.2)

variable
  (hclosed : ∀ r ∈ m.resources, ∀ d ∈ r.dependsOn ++ r.attributes.referencedKeys, d ∈ m.keys)
  (hprior : prior.ById)

include hclosed

/-- `hclosed` is all that it takes: what is missing is neither desired nor recorded, and here
everything is desired. -/
theorem not_lacks_apply : ¬ (apply m.resources prior ignored).Lacks := by
  rintro ⟨k, d, c, hc, -, happly, hd, hnot⟩
  have hne : c.action ≠ .delete := fun hdel => by
    rw [hdel] at happly
    cases happly
  have hdesired := hclosed _ (mem_desired_of_ne_delete hc hne) d (List.mem_append_left _ hd)
  obtain ⟨r, hr, rfl⟩ := List.mem_map.mp hdesired
  exact hnot (List.mem_map_of_mem (f := Change.key) (mem_apply_of_mem hr))

include hprior

/-- Desired resources depend on desired ones only, so no cycle leads through both kinds
(`Acyclic.of_closed`). -/
theorem acyclic_depends_apply (hac : Acyclic m.DependsOn) (hrec : Acyclic prior.DependsOn) :
    Acyclic ((apply m.resources prior ignored).Depends .apply) := by
  refine Acyclic.of_closed (P := (· ∈ m.keys)) (fun a b ha hab => ?_)
    (fun a b ha hb hab => dependsOn_of_dropped hprior ha hb hab) hac.swap hrec
  have hdep := dependsOn_of_desired ha hab
  exact ⟨Manifest.mem_keys_of_dependsOn hclosed hdep, hdep⟩

/-- No kept key depends on a deleted one, so deleted keys are entangled only as they were recorded
to depend on each other. This is where `hclosed` rules out what happens in `Graph.knot`. -/
theorem dependsOn_of_entangles (h : (apply m.resources prior ignored).Entangles .apply a b) :
    prior.DependsOn a b := by
  obtain ⟨ha, hb, hab | ⟨k, hak, -⟩⟩ := h
  · exact dependsOn_of_dropped hprior (not_mem_keys_of_deletes ha) (not_mem_keys_of_deletes hb) hab
  · -- the first kept key on the way would depend on the deleted one
    have hfirst : ∃ c, (apply m.resources prior ignored).Climbs .apply a c := by
      cases hak using Relation.TransGen.head_induction_on with
      | single h => exact ⟨_, h⟩
      | head h => exact ⟨_, h⟩
    obtain ⟨c, hdep, hkept⟩ := hfirst
    have hc := mem_keys_of_not_deletes hdep.mem_keys.1 hkept
    have hdesired := Manifest.mem_keys_of_dependsOn hclosed (dependsOn_of_desired hc hdep)
    exact absurd hdesired (not_mem_keys_of_deletes ha)

/-- With nothing missing and no cycle, `Graph.build` has no reason left to refuse. -/
theorem build_apply (hn : m.keys.Nodup) (hac : Acyclic m.DependsOn)
    (hrec : Acyclic prior.DependsOn) (ignored : List FieldPath) :
    ∃ g, Graph.build .apply (apply m.resources prior ignored) = .ok g := by
  refine (Graph.build_verdict ..).ok_iff.mpr
    ⟨keys_apply_nodup hn hprior, not_lacks_apply hclosed, ?_⟩
  refine (acyclic_precedes_iff (by decide) (acyclic_depends_apply hclosed hprior hac hrec)).mpr ?_
  exact hrec.mono fun a b hab => dependsOn_of_entangles hclosed hprior hab

end

end Plan

namespace Manifest

/-- **Every plan has a graph.** For a manifest that passed `validate`, names only its own resources
and has no cyclic dependencies, and for whatever is recorded without cyclic dependencies, the plan
to apply lists everything desired and what is dropped, each once (`Covers`), and there are graphs to
apply it, to destroy what is recorded and to refresh it. Recorded dependencies may name what is not
there. -/
theorem plans_build {m : Manifest} (hv : m.validate = .ok ())
    (hclosed : ∀ r ∈ m.resources, ∀ d ∈ r.dependsOn ++ r.attributes.referencedKeys, d ∈ m.keys)
    (hac : Acyclic m.DependsOn) {prior : Index} (hprior : prior.ById)
    (hrec : Acyclic prior.DependsOn) (ignored : List FieldPath) :
    (∃ kept dropped, Plan.apply m.resources prior ignored = kept ++ dropped ∧
      Plan.Covers m.resources prior kept dropped) ∧
    (Plan.apply m.resources prior ignored).keys.Nodup ∧
    (∃ g, Graph.build .apply (Plan.apply m.resources prior ignored) = .ok g) ∧
    (∃ g, Graph.build .destroy (Plan.destroy prior) = .ok g) ∧
    ∃ g, Graph.build .refresh (Plan.refresh prior) = .ok g := by
  have hn : m.keys.Nodup := (validate_iff.mp hv).2
  exact ⟨Plan.apply_covers m.resources hprior ignored, Plan.keys_apply_nodup hn hprior,
    Plan.build_apply hclosed hprior hn hac hrec ignored, hprior.build_destroy hrec,
    hprior.build_refresh hrec⟩

/-! ## A stack -/

/-- An application that refers to its database and depends on its network. -/
def stack : Manifest where
  resources := [⟨"net", "Local", [], []⟩, ⟨"db", "Local", [("v", .number (.int 1))], []⟩,
    ⟨"app", "Local", [("x", .string "$converge_path.db.v")], ["net"]⟩]

/-- The network is not there yet. An old job is, and the queue that it depended on; the queue
depended on something that is gone, and the job also on the database. -/
def stackRecorded : Index :=
  .ofResources [⟨"app", "Local", [], []⟩, ⟨"db", "Local", [("v", .number (.int 1))], []⟩,
    ⟨"job", "Local", [], ["db", "queue"]⟩, ⟨"queue", "Local", [], ["gone"]⟩]

theorem plans_build_stack :
    (Plan.apply stack.resources stackRecorded []).map (fun c => (c.key, c.action)) =
      [("net", .create), ("db", .unchanged), ("app", .update), ("job", .delete),
        ("queue", .delete)] ∧
      ∃ g, Graph.build .apply (Plan.apply stack.resources stackRecorded []) = .ok g := by
  have hac : Acyclic stack.DependsOn :=
    acyclic_of_rank (fun k => if k = "app" then 1 else 0) (by decide +kernel)
  have hprior : stackRecorded.ById := Index.byId_ofResources _
  have hrec : Acyclic stackRecorded.DependsOn :=
    hprior.acyclic_of_rank (fun k => if k = "job" then 2 else if k = "queue" then 1 else 0)
      (by decide +kernel)
  obtain ⟨-, -, hg, -⟩ := plans_build (m := stack) rfl (by decide +kernel) hac hprior hrec []
  refine ⟨?_, hg⟩
  unfold Plan.apply
  rw [Index.byId_eq_values (by decide +kernel)]
  decide +kernel

end Manifest

end Provision
