import Provision.Manifest
import Provision.Proofs.Attributes.Prune
import Provision.Proofs.State.Index
import Provision.Proofs.Walk.Outcome

/-!
# Applying a manifest twice

* `Plan.Reached`: an index holds the goals of a plan, resolved against the index itself.
* `Plan.Reached.apply_unchanged_iff`: when the plan made from such an index changes nothing.
* `Walk.applied_again_unchanged_iff`: so an application that succeeded leaves nothing to do, unless
  it left alone a resource that refers to one which it updated or deleted.
-/

namespace Provision

namespace Plan

variable {prior : Index} {ignored : List FieldPath} {desired : List Resource} {r : Resource}
  {c : Change}

/-! ## Actions -/

theorem differs_eq_false_iff {recorded : Resource} :
    differs prior ignored recorded r = false ↔ recorded.type = r.type ∧
      recorded.dependsOn = r.dependsOn ∧ ∃ a, r.attributes.resolve prior = .ok a ∧
        (recorded.attributes.prune ignored).same (a.prune ignored) = true := by
  unfold differs
  split
  · next h =>
    refine iff_of_false nofun ?_
    rintro ⟨ht, hd, -⟩
    exact h.elim (fun h => h ht) fun h => h hd
  · next h =>
    obtain ⟨ht, hd⟩ := not_or.mp h
    have ht := Decidable.not_not.mp ht
    have hd := Decidable.not_not.mp hd
    cases hr : r.attributes.resolve prior with
    | error s =>
      refine iff_of_false nofun ?_
      rintro ⟨-, -, a, ha, -⟩
      cases ha
    | ok a => simp [ht, hd]

theorem actionFor_eq_unchanged_iff :
    actionFor prior ignored r = .unchanged ↔
      ∃ recorded, prior.get? r.key = some recorded ∧ differs prior ignored recorded r = false := by
  unfold actionFor
  cases hp : prior.get? r.key with
  | none =>
    refine iff_of_false nofun ?_
    rintro ⟨_, h, -⟩
    cases h
  | some recorded => cases hd : differs prior ignored recorded r <;> simp [hd]

theorem get?_of_create (h : actionFor prior ignored r = .create) : prior.get? r.key = none := by
  unfold actionFor at h
  cases hp : prior.get? r.key with
  | none => rfl
  | some recorded =>
    rw [hp] at h
    dsimp only at h
    split at h <;> cases h

theorem actionFor_ne_delete : actionFor prior ignored r ≠ .delete := by
  unfold actionFor
  split
  · exact nofun
  · split <;> exact nofun

theorem actionFor_eq_unchanged_of_not_isApply
    (h : (actionFor prior ignored r).isApply = false) : actionFor prior ignored r = .unchanged := by
  cases ha : actionFor prior ignored r with
  | create | update =>
    rw [ha] at h
    cases h
  | delete => exact absurd ha actionFor_ne_delete
  | unchanged => rfl

/-- What `Plan.apply` lists are the desired resources, with their actions, and the recorded ones
that are not desired, to be deleted. -/
theorem mem_apply :
    c ∈ apply desired prior ignored ↔ (∃ r ∈ desired, c = ⟨r, actionFor prior ignored r⟩) ∨
      ∃ r ∈ prior.byId, (∀ d ∈ desired, d.id ≠ r.id) ∧ c = ⟨r, .delete⟩ := by
  unfold apply
  simp only [List.mem_append, List.mem_map, List.mem_filter, Bool.not_eq_true', List.any_eq_false,
    decide_eq_true_eq, and_assoc, eq_comm (a := c)]

theorem mem_apply_of_mem (hr : r ∈ desired) :
    ⟨r, actionFor prior ignored r⟩ ∈ apply desired prior ignored :=
  mem_apply.mpr (.inl ⟨r, hr, rfl⟩)

/-- Whatever is not deleted is desired: only dropped resources get `.delete`, by
`actionFor_ne_delete`. -/
theorem mem_desired_of_ne_delete (hc : c ∈ apply desired prior ignored) (ha : c.action ≠ .delete) :
    c.resource ∈ desired := by
  rcases mem_apply.mp hc with ⟨q, hq, rfl⟩ | ⟨r, -, -, rfl⟩
  · exact hq
  · exact absurd rfl ha

/-- What is planned under a key that is not desired is to delete it. -/
theorem action_of_dropped (hc : c ∈ apply desired prior ignored)
    (hk : c.key ∉ desired.map Resource.key) : c.action = .delete := by
  refine Decidable.not_not.mp fun ha => hk ?_
  exact List.mem_map_of_mem (f := Resource.key) (mem_desired_of_ne_delete hc ha)

/-- `hprior` makes the key of a deletion the one under which the resource was recorded. -/
theorem get?_of_delete (hprior : prior.ById) (hc : c ∈ apply desired prior ignored)
    (ha : c.action = .delete) : prior.get? c.key = some c.resource := by
  rcases mem_apply.mp hc with ⟨q, -, rfl⟩ | ⟨r, hr, -, rfl⟩
  · exact absurd ha actionFor_ne_delete
  · exact hprior.mem_byId.mp hr

/-- `.create` is planned only where nothing is recorded under the key. -/
theorem ne_create_of_get? (hc : c ∈ apply desired prior ignored)
    (hr : prior.get? c.key = some r) : c.action ≠ .create := by
  intro ha
  rcases mem_apply.mp hc with ⟨q, -, rfl⟩ | ⟨r, -, -, rfl⟩
  · cases hr.symm.trans (get?_of_create ha)
  · cases ha

/-- Where everything recorded is desired, no deletions follow the desired resources. So it is when a
plan is made again, and in the runs below. -/
theorem apply_eq_map (h : ∀ r ∈ prior.values, ∃ d ∈ desired, d.id = r.id) :
    apply desired prior ignored = desired.map fun r => ⟨r, actionFor prior ignored r⟩ := by
  have hnone : (prior.byId.filter fun r => !desired.any (·.id = r.id)) = [] := by
    refine List.filter_eq_nil_iff.mpr fun r hr => ?_
    obtain ⟨d, hd, he⟩ := h r (List.mem_mergeSort.mp hr)
    simpa using ⟨d, hd, he⟩
  unfold apply
  rw [hnone]
  exact List.append_nil _

/-- Every recorded resource is planned for, be it to keep it or to delete it. -/
theorem mem_keys_apply (hprior : prior.ById) {k : String} (hk : prior.get? k = some r) :
    k ∈ (apply desired prior ignored).keys := by
  obtain rfl := hprior k r hk
  by_cases hd : ∃ d ∈ desired, d.id = r.id
  · obtain ⟨d, hd, he⟩ := hd
    exact List.mem_map.mpr ⟨_, mem_apply_of_mem hd, he⟩
  · refine List.mem_map.mpr ⟨_, mem_apply.mpr (.inr ⟨r, hprior.mem_byId.mpr hk, ?_, rfl⟩), rfl⟩
    exact fun d hd' he => hd ⟨d, hd', he⟩

/-! ## Reached plans -/

/-- An index holds the goals of a plan, with references resolved against the index itself, and
nothing else. -/
structure Reached {σ : Type} (setup : Setup σ) (p : Plan) (final : Index) : Prop where
  goal : ∀ c ∈ p, final.get? c.key = c.goal setup final
  planned : ∀ c ∈ p, c.action.isApply = true → ∃ planned, c.planned setup final = .ok planned
  other : ∀ k, k ∉ p.keys → final.get? k = none

namespace Reached

variable {σ : Type} {setup : Setup σ} {final : Index}
  (hprior : setup.prior.ById) (h : Reached setup (apply desired setup.prior ignored) final)

include h

/-- Only desired resources are there: the goal of a deletion is that there is none, and nothing else
was planned. -/
theorem exists_desired {k : String} {f : Resource} (hf : final.get? k = some f) :
    ∃ r ∈ desired, r.key = k := by
  have hk : k ∈ (apply desired setup.prior ignored).keys := by
    refine Decidable.byContradiction fun hk => ?_
    rw [h.other k hk] at hf
    cases hf
  obtain ⟨c, hc, rfl⟩ := List.mem_map.mp hk
  rcases mem_apply.mp hc with ⟨r, hr, rfl⟩ | ⟨r, -, -, rfl⟩
  · exact ⟨r, hr, rfl⟩
  · rw [h.goal _ hc, Change.goal_of_delete rfl] at hf
    cases hf

/-- A desired resource that was applied is there as it was planned, with its references resolved
against `final` itself. -/
theorem get?_of_applied (hr : r ∈ desired)
    (ha : (actionFor setup.prior ignored r).isApply = true) :
    ∃ a, r.attributes.resolve final = .ok a ∧
      final.get? r.key = some { r with attributes := a.prune setup.ignored } := by
  have hc : ⟨r, actionFor setup.prior ignored r⟩ ∈ apply desired setup.prior ignored :=
    mem_apply_of_mem hr
  obtain ⟨planned, hp⟩ := h.planned _ hc ha
  have hgoal := (h.goal _ hc).trans (Change.goal_of_planned ha hp)
  unfold Change.planned at hp
  cases hres : r.attributes.resolve final with
  | error s =>
    rw [hres] at hp
    cases hp
  | ok a =>
    rw [hres] at hp
    cases hp
    exact ⟨a, rfl, hgoal⟩

/-- A desired resource that was left alone is there as it was recorded, whatever became of what it
refers to. -/
theorem get?_of_unchanged (hr : r ∈ desired)
    (ha : actionFor setup.prior ignored r = .unchanged) :
    final.get? r.key = setup.prior.get? r.key :=
  (h.goal _ (mem_apply_of_mem hr)).trans (Change.goal_of_unchanged ha)

include hprior in
theorem byId : final.ById := by
  intro k f hf
  obtain ⟨r, hr, rfl⟩ := h.exists_desired hf
  cases ha : (actionFor setup.prior ignored r).isApply with
  | true =>
    obtain ⟨a, -, hget⟩ := h.get?_of_applied hr ha
    cases hget.symm.trans hf
    rfl
  | false =>
    have hun := actionFor_eq_unchanged_of_not_isApply ha
    exact hprior _ _ ((h.get?_of_unchanged hr hun).symm.trans hf)

include hprior in
/-- By `exists_desired` there is nothing left to be deleted. -/
theorem apply_again_eq :
    apply desired final ignored = desired.map fun r => ⟨r, actionFor final ignored r⟩ := by
  refine apply_eq_map fun r hr => ?_
  obtain ⟨k, hk⟩ := Keyed.mem_values.mp hr
  obtain ⟨d, hd, rfl⟩ := h.exists_desired hk
  exact ⟨d, hd, (h.byId hprior _ r hk).symm⟩

variable (hi : setup.ignored = ignored.filter fun p => !p.isEmpty)

include hi in
/-- What was applied needs nothing more. Planning prunes with `ignored`, executing with the paths of
`ignored` that name a field; `hi` and `prune_filter` say that this is the same. -/
theorem unchanged_of_applied (hr : r ∈ desired)
    (ha : (actionFor setup.prior ignored r).isApply = true) :
    actionFor final ignored r = .unchanged := by
  obtain ⟨a, hres, hget⟩ := h.get?_of_applied hr ha
  refine actionFor_eq_unchanged_iff.mpr ⟨_, hget, differs_eq_false_iff.mpr ⟨rfl, rfl, a, hres, ?_⟩⟩
  dsimp only
  rw [hi, Attributes.prune_filter, Attributes.prune_prune]
  exact Attributes.same_refl _

/-- What was left alone needs nothing more if it still resolves to what is recorded. This is the
only way in which planning again can find something to do. -/
theorem unchanged_again_iff (hr : r ∈ desired)
    (ha : actionFor setup.prior ignored r = .unchanged) :
    actionFor final ignored r = .unchanged ↔ ∃ recorded a, setup.prior.get? r.key = some recorded ∧
      r.attributes.resolve final = .ok a ∧
        (recorded.attributes.prune ignored).same (a.prune ignored) = true := by
  obtain ⟨recorded, hrec, hd⟩ := actionFor_eq_unchanged_iff.mp ha
  obtain ⟨ht, hdep, -⟩ := differs_eq_false_iff.mp hd
  rw [actionFor_eq_unchanged_iff, h.get?_of_unchanged hr ha]
  refine exists_congr fun f => ⟨?_, ?_⟩
  · rintro ⟨hf, hd⟩
    obtain ⟨-, -, a, hres, hsame⟩ := differs_eq_false_iff.mp hd
    exact ⟨a, hf, hres, hsame⟩
  · rintro ⟨a, hf, hres, hsame⟩
    obtain rfl : f = recorded := Option.some.inj (hf.symm.trans hrec)
    exact ⟨hf, differs_eq_false_iff.mpr ⟨ht, hdep, a, hres, hsame⟩⟩

include hprior in
/-- What was left alone resolved against the recorded resources, so all that it refers to was
recorded. Unless one of these was updated or deleted, they are as they were; one that is recorded
cannot be created. -/
theorem unchanged_of_undisturbed (hr : r ∈ desired)
    (ha : actionFor setup.prior ignored r = .unchanged)
    (hrefs : ∀ k ∈ r.attributes.referencedKeys, ∀ c ∈ apply desired setup.prior ignored,
      c.key = k → c.action ≠ .update ∧ c.action ≠ .delete) :
    actionFor final ignored r = .unchanged := by
  obtain ⟨recorded, hrec, hd⟩ := actionFor_eq_unchanged_iff.mp ha
  obtain ⟨-, -, a, hres, hsame⟩ := differs_eq_false_iff.mp hd
  have hagree : ∀ k ∈ r.attributes.referencedKeys, final.get? k = setup.prior.get? k := by
    intro k hk
    obtain ⟨f, hf⟩ := Option.isSome_iff_exists.mp (Attributes.contains_of_resolve hres k hk)
    obtain ⟨c, hc, rfl⟩ := List.mem_map.mp (mem_keys_apply hprior hf)
    obtain ⟨hu, hdel⟩ := hrefs _ hk c hc rfl
    rcases mem_apply.mp hc with ⟨d, hd, rfl⟩ | ⟨d, -, -, rfl⟩
    · -- of the four actions only `.unchanged` is left for it
      refine h.get?_of_unchanged hd ?_
      cases hact : actionFor setup.prior ignored d with
      | create =>
        have hnone := get?_of_create hact
        cases hf.symm.trans hnone
      | update => exact absurd hact hu
      | delete => exact absurd hact hdel
      | unchanged => rfl
    · exact absurd rfl hdel
  refine (h.unchanged_again_iff hr ha).mpr ⟨recorded, a, hrec, ?_, hsame⟩
  rw [Attributes.resolve_congr hagree, hres]

include hprior hi in
/-- Planning again from an index that is `Reached` changes nothing, if and only if every resource
that was left alone, though it refers to one that was updated or deleted, still resolves to what is
recorded. -/
theorem apply_unchanged_iff :
    (∀ c ∈ apply desired final ignored, c.action = .unchanged) ↔
      ∀ r ∈ desired, actionFor setup.prior ignored r = .unchanged →
        (∃ k ∈ r.attributes.referencedKeys, ∃ c ∈ apply desired setup.prior ignored,
          c.key = k ∧ (c.action = .update ∨ c.action = .delete)) →
        ∃ recorded a, setup.prior.get? r.key = some recorded ∧
          r.attributes.resolve final = .ok a ∧
            (recorded.attributes.prune ignored).same (a.prune ignored) = true := by
  rw [h.apply_again_eq hprior, List.forall_mem_map]
  constructor
  · intro hall r hr ha _
    exact (h.unchanged_again_iff hr ha).mp (hall r hr)
  · intro hall r hr
    cases happly : (actionFor setup.prior ignored r).isApply with
    | true => exact h.unchanged_of_applied hi hr happly
    | false =>
      have ha := actionFor_eq_unchanged_of_not_isApply happly
      by_cases hrefs : ∃ k ∈ r.attributes.referencedKeys,
          ∃ c ∈ apply desired setup.prior ignored,
            c.key = k ∧ (c.action = .update ∨ c.action = .delete)
      · exact (h.unchanged_again_iff hr ha).mpr (hall r hr ha hrefs)
      · refine h.unchanged_of_undisturbed hprior hr ha fun k hk c hc he => ?_
        exact ⟨fun hu => hrefs ⟨k, hk, c, hc, he, .inl hu⟩,
          fun hd => hrefs ⟨k, hk, c, hc, he, .inr hd⟩⟩

end Reached

end Plan

namespace Walk

variable {σ : Type} {setup : Setup σ} {g : Graph} {jobs : Nat} {w : Walk σ}
  {decided : List (String × Except Status Unit)} {run₀ : Run σ} {entries : List Entry}
  {desired : List Resource} {ignored : List FieldPath}

/-- `get?_recorded_of_succeeded` says of one node that its goal was reached; here are all of them,
and the keys that were not planned. References resolve against `known`, the goals against
`recorded`: `known_eq_recorded` makes this one index. -/
theorem Inv.reached (hg : g.Sound) (h : Inv setup g run₀ w decided entries)
    (ho : w.isOver = true) (hop : setup.operation = .apply) (hgop : g.operation = .apply)
    (hf : setup.Faithful) (hk : run₀.known = setup.prior) (hr : run₀.recorded = setup.prior)
    (hprior : setup.prior.ById) (hp : g.plan = Plan.apply desired setup.prior ignored)
    (hs : ∀ k ∈ g.plan.keys, w.Succeeded k) :
    Plan.Reached setup (Plan.apply desired setup.prior ignored) w.run.recorded := by
  have hgoal := fun c (hc : c ∈ g.plan) =>
    h.get?_recorded_of_succeeded hg ho hop hgop hf hr hc (hs _ (List.mem_map_of_mem hc))
  rw [h.known_eq_recorded (hk.trans hr.symm), hp] at hgoal
  refine ⟨fun c hc => (hgoal c hc).1, fun c hc => (hgoal c hc).2, fun k hk' => ?_⟩
  rw [h.lives.run_extends.get?_recorded, h.about_of_not_planned (by rwa [hp]), hr]
  cases hget : setup.prior.get? k with
  | none => rfl
  | some r => exact absurd (Plan.mem_keys_apply hprior hget) hk'

section

variable (hop : setup.operation = .apply) (hf : setup.Faithful)
  (hb : Graph.build .apply (Plan.apply desired setup.prior ignored) = .ok g) {run : Run σ}
  (hk : run.known = setup.prior) (hr : run.recorded = setup.prior)
  (hst : run.state.index = setup.prior) {cs : List Choice}
  (hw : (start g run .empty).steps? setup g jobs cs = some w) (ho : w.isOver = true)
  (hs : ∀ k ∈ (Plan.apply desired setup.prior ignored).keys, w.Succeeded k)

include hop hf hb hk hr hst hw ho hs

/-- The index that the next plan starts from is made of the list in the state. `Index.ById` makes it
the index that was recorded, so what `Inv.reached` says of the walk holds for the next plan. -/
theorem reached_of_succeeded :
    w.run.state.index = w.run.recorded ∧
      Plan.Reached setup (Plan.apply desired setup.prior ignored) w.run.state.index := by
  have hprior : setup.prior.ById := by
    rw [← hst]
    exact Index.byId_ofResources _
  obtain ⟨hg, hgop, hp⟩ := Graph.build_sound hb
  obtain ⟨decided, entries, h⟩ := Inv.of_steps hg hw
  have hreached := h.reached hg ho hop hgop hf hk hr hprior hp (by rwa [hp])
  have hindex := h.index_state (hst.trans hr.symm) (hreached.byId hprior)
  rw [hindex]
  exact ⟨rfl, hreached⟩

/-- **Applying twice.** A manifest is applied and every node succeeds, on backends that return what
they were asked to apply (`Faithful`). Planned again from the state that this leaves, it changes
nothing, if and only if every resource that was left alone, though it refers to one that was updated
or deleted, still resolves to what is recorded. -/
theorem applied_again_unchanged_iff (hi : setup.ignored = ignored.filter fun p => !p.isEmpty) :
    (∀ c ∈ Plan.apply desired w.run.state.index ignored, c.action = .unchanged) ↔
      ∀ r ∈ desired, Plan.actionFor setup.prior ignored r = .unchanged →
        (∃ k ∈ r.attributes.referencedKeys, ∃ c ∈ Plan.apply desired setup.prior ignored,
          c.key = k ∧ (c.action = .update ∨ c.action = .delete)) →
        ∃ recorded a, setup.prior.get? r.key = some recorded ∧
          r.attributes.resolve w.run.state.index = .ok a ∧
            (recorded.attributes.prune ignored).same (a.prune ignored) = true := by
  have hprior : setup.prior.ById := by
    rw [← hst]
    exact Index.byId_ofResources _
  obtain ⟨-, hreached⟩ := reached_of_succeeded hop hf hb hk hr hst hw ho hs
  exact hreached.apply_unchanged_iff hprior hi

end

/-! ## Two resources -/

/-- Resource `eric` refers to the field `v` of `jack`. -/
def twins (v w : Int) : List Resource :=
  [⟨"jack", "Local", [("v", .number (.int v)), ("w", .number (.int w))], []⟩,
    ⟨"eric", "Local", [("x", .string "$converge_path.jack.v")], []⟩]

/-- What is recorded once both were applied with ones. -/
def twinsState : State where
  serial := 2
  lastModified := default
  resources := [⟨"eric", "Local", [("x", .number (.int 1))], []⟩,
    ⟨"jack", "Local", [("v", .number (.int 1)), ("w", .number (.int 1))], []⟩]

/-- Updates `jack` only. -/
def twinsGraph (v w : Int) : Graph where
  operation := .apply
  plan := [⟨⟨"jack", "Local", [("v", .number (.int v)), ("w", .number (.int w))], []⟩, .update⟩,
    ⟨⟨"eric", "Local", [("x", .string "$converge_path.jack.v")], []⟩, .unchanged⟩]
  edges := []
  order := ["eric", "jack"]

/-- The backend returns what it is asked to apply. -/
def twinsSetup : Setup Unit := .replying (fun _ r => .returned r) .apply twinsState.index []

/-- Both wait for nothing, and `eric` ends first. -/
def twinsSteps : List Choice :=
  [.tell "jack", .tell "eric", .leave, .take "eric", .begin "eric", .take "jack", .begin "jack",
    .finish "jack", .receive "eric", .leave, .receive "jack", .leave]

/-- The walk that updates `jack`. -/
def twinsWalk (v w : Int) : Option (Walk Unit) :=
  (start (twinsGraph v w) (.ofState twinsState) .empty).steps? twinsSetup (twinsGraph v w) 2
    twinsSteps

/-- As long as `v` stays the same, `eric` needs no update: it was left alone and refers to `jack`,
which was updated, but in `w` only. -/
theorem applied_again_unchanged_twins :
    ∃ w, twinsWalk 1 2 = some w ∧ w.isOver = true ∧
      (∀ k ∈ (Plan.apply (twins 1 2) twinsSetup.prior []).keys, w.Succeeded k) ∧
      ∀ c ∈ Plan.apply (twins 1 2) w.run.state.index [], c.action = .unchanged := by
  have hb : Graph.build .apply (Plan.apply (twins 1 2) twinsSetup.prior []) =
      .ok (twinsGraph 1 2) := by
    rw [Plan.apply_eq_map (by decide)]
    rfl
  have hend : (twinsWalk 1 2).any fun w => w.isOver &&
      decide (∀ k ∈ (twinsGraph 1 2).plan.keys, w.Succeeded k) &&
      decide (Attributes.resolve w.run.recorded [("x", .string "$converge_path.jack.v")] =
        .ok [("x", .number (.int 1))]) := by
    decide +kernel
  obtain ⟨w, hw, hend⟩ := (Option.any_eq_true _ _).mp hend
  rw [Bool.and_eq_true, Bool.and_eq_true, decide_eq_true_eq, decide_eq_true_eq] at hend
  obtain ⟨⟨ho, hs⟩, hres⟩ := hend
  rw [(Graph.build_sound hb).2.2] at hs
  have hf : twinsSetup.Faithful := Setup.replying_faithful
  obtain ⟨hindex, -⟩ := reached_of_succeeded rfl hf hb rfl rfl rfl hw ho hs
  refine ⟨w, hw, ho, hs, ?_⟩
  refine (applied_again_unchanged_iff rfl hf hb rfl rfl rfl hw ho hs rfl).mpr ?_
  intro r hr ha _
  rcases List.mem_pair.mp hr with rfl | rfl
  · exact absurd ha (by decide +kernel)
  · rw [hindex]
    exact ⟨_, _, rfl, hres, by decide +kernel⟩

/-- It is not so that nothing is left to do after every application that succeeded: when `v`
changes, `eric` is compared with the old value by `Plan.differs` and left alone. -/
theorem applied_again_changes_twins :
    ¬ ∀ (desired : List Resource) (ignored : List FieldPath) (setup : Setup Unit) (g : Graph)
      (run : Run Unit) (jobs : Nat) (cs : List Choice) (w : Walk Unit),
      Manifest.validate ⟨desired⟩ = .ok () → setup.operation = .apply →
      setup.ignored = (ignored.filter fun p => !p.isEmpty) →
      setup.Faithful → setup.Stores →
      Graph.build .apply (Plan.apply desired setup.prior ignored) = .ok g →
      run.known = setup.prior → run.recorded = setup.prior → run.state.index = setup.prior →
      (start g run .empty).steps? setup g jobs cs = some w → w.isOver = true →
      (∀ k ∈ (Plan.apply desired setup.prior ignored).keys, w.Succeeded k) →
      ∀ c ∈ Plan.apply desired w.run.state.index ignored, c.action = .unchanged := by
  intro h
  have hb : Graph.build .apply (Plan.apply (twins 2 1) twinsSetup.prior []) =
      .ok (twinsGraph 2 1) := by
    rw [Plan.apply_eq_map (by decide)]
    rfl
  have hend : (twinsWalk 2 1).any fun w => w.isOver &&
      decide (∀ k ∈ (twinsGraph 2 1).plan.keys, w.Succeeded k) &&
      decide (∃ r ∈ twins 2 1, Plan.actionFor w.run.recorded [] r = .update) := by
    decide +kernel
  obtain ⟨w, hw, hend⟩ := (Option.any_eq_true _ _).mp hend
  rw [Bool.and_eq_true, Bool.and_eq_true, decide_eq_true_eq, decide_eq_true_eq] at hend
  obtain ⟨⟨ho, hs⟩, r, hr, hupdate⟩ := hend
  rw [(Graph.build_sound hb).2.2] at hs
  have hf : twinsSetup.Faithful := Setup.replying_faithful
  obtain ⟨hindex, -⟩ := reached_of_succeeded rfl hf hb rfl rfl rfl hw ho hs
  have hunchanged : Plan.actionFor w.run.state.index [] r = .unchanged :=
    h (twins 2 1) [] twinsSetup _ _ _ _ w rfl rfl rfl hf Setup.replying_stores hb rfl rfl rfl hw ho
      hs _ (Plan.mem_apply_of_mem hr)
  rw [hindex, hupdate] at hunchanged
  cases hunchanged

end Walk

end Provision
