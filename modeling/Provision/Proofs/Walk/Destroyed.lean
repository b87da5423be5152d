import Provision.Proofs.State.Dependencies
import Provision.Proofs.Walk.Recorded

/-!
# What a run that destroys leaves

* `Walk.Inv.recorded_iff`: at any time of such a walk, what is recorded was so before, and its node
  has not succeeded. `Walk.Inv.dependsOn_recorded`: whatever such a resource depends on is still
  recorded.
* `Walk.destroyed`: so every state that is stored has for each resource all that it depends on. At
  the end there is left what could not be deleted and what that depends on, directly or not.
-/

namespace Provision

/-- A deletion that succeeds was confirmed by the backend, and leaves nothing. `hop`: a refresh
reads instead. -/
theorem Change.Ended.outcome_of_delete {σ : Type} {setup : Setup σ} {known : Index} {c : Change}
    {es : List Entry} (hop : setup.operation ≠ .refresh) (ha : c.action = .delete)
    (h : c.Ended setup known .succeeded (.ok ()) es) (r : Option Resource) :
    Entry.outcome es r = none := by
  have hkeep : ∀ {recorded}, c.intent setup known ≠ .ok (.keep recorded) := fun hi => by
    cases intends_of_intent hi with
    | keep _ hkept =>
      rw [ha] at hkept
      cases hkept
  cases h with
  | absent hi => exact absurd hi hkeep
  | committed he =>
    rw [Entry.outcome_append]
    cases he with
    | kept hi => exact absurd hi hkeep
    | answered hi hanswer =>
      cases intends_of_intent hi with
      | read hop' => exact absurd hop' hop
      | apply _ happly =>
        rw [ha] at happly
        cases happly
      | delete =>
        rw [remove_of_answers hanswer]
        rfl

namespace Walk

variable {σ : Type} {setup : Setup σ} {g : Graph} {jobs : Nat} {w : Walk σ}
  {decided : List (String × Except Status Unit)} {run₀ : Run σ} {entries : List Entry}
  {k d : String} {r : Resource}

namespace Inv

section

variable (h : Inv setup g run₀ w decided entries) (hop : setup.operation = .destroy)
  (hprior : setup.prior.ById) (hb : Graph.build .destroy (Plan.destroy setup.prior) = .ok g)
  (hr : run₀.recorded = setup.prior)

include h hop hprior hb hr

/-- In a run that destroys, what is recorded was so before as it is now, and its node has not
succeeded. -/
theorem recorded_iff :
    w.run.recorded.get? k = some r ↔ setup.prior.get? k = some r ∧ ¬ w.Succeeded k := by
  obtain ⟨hg, -, hp⟩ := Graph.build_sound hb
  have hmade : Plan.MadeFrom setup.prior setup.operation g.plan := hop ▸ hp ▸ .destroy
  by_cases hk : k ∈ g.plan.keys
  · by_cases hs : w.Succeeded k
    · obtain ⟨c, known, hf, he⟩ := h.ended_of_succeeded hk hs
      have ha := hmade.action_of_destroy hop (Plan.find?_eq_some hf).1
      have hnone := he.outcome_of_delete (by rw [hop]; exact nofun) ha (run₀.recorded.get? k)
      rw [h.lives.run_extends.get?_recorded, hnone]
      simp [hs]
    · rw [h.get?_recorded_of_failed hr hs]
      simp [hs]
  · constructor
    · exact fun hr' => absurd (h.mem_keys_of_recorded hr hmade hprior hr') hk
    · exact fun hr' => absurd (hmade.mem_keys hprior hr'.1) hk

/-- What a recorded resource depends on is still recorded: `Graph.build` orders its deletion
later. -/
theorem dependsOn_recorded (hk : w.run.recorded.get? k = some r) (hd : d ∈ r.dependsOn)
    (hthere : setup.prior.contains d = true) :
    ∃ q, setup.prior.get? d = some q ∧ w.run.recorded.get? d = some q := by
  obtain ⟨hg, -, -⟩ := Graph.build_sound hb
  obtain ⟨hget, hs⟩ := (h.recorded_iff hop hprior hb hr).mp hk
  obtain ⟨q, hq⟩ := Option.isSome_iff_exists.mp hthere
  have hedge : (k, d) ∈ g.edges := (hprior.edges_destroy hb).mpr ⟨r, hget, hd, hthere⟩
  refine ⟨q, hq, (h.recorded_iff hop hprior hb hr).mpr ⟨hq, fun hsd => hs ?_⟩⟩
  exact h.succeeded_of_edge (hg.mem_keys_of_edge hedge).2 hsd hedge

/-- At the end, what is left failed to be deleted, or such a resource depends on it. Of the nodes in
between none was started (`not_started_iff`). -/
theorem contains_iff_failed (ho : w.isOver = true) (hc : w.run.cancelled = false)
    (hplanned : ∀ f, w.Started f → f ∈ g.plan.keys) :
    w.run.recorded.contains k = true ↔ ∃ f, w.Started f ∧ ¬ w.Succeeded f ∧
      Relation.ReflTransGen setup.prior.DependsOn f k := by
  obtain ⟨hg, -, hp⟩ := Graph.build_sound hb
  -- Only deletions, so the edges are the recorded dependencies, the dependent first.
  have hedges : (fun a b => (a, b) ∈ g.edges) = setup.prior.DependsOn := by
    funext a b
    exact propext (hprior.edges_destroy hb)
  have hleft : w.run.recorded.contains k = true ↔ k ∈ g.plan.keys ∧ ¬ w.Succeeded k := by
    have hkeys : k ∈ g.plan.keys ↔ setup.prior.contains k = true := hp ▸ hprior.mem_keys
    rw [hkeys]
    unfold Keyed.contains
    rw [Option.isSome_iff_exists, Option.isSome_iff_exists]
    simp only [h.recorded_iff hop hprior hb hr, exists_and_right]
  rw [hleft]
  constructor
  · rintro ⟨hk, hs⟩
    by_cases hx : w.Started k
    · exact ⟨k, hx, hs, .refl⟩
    · -- A node that was never started lies behind one that failed.
      obtain ⟨f, hf, hff, hfk⟩ := (h.not_started_iff hg ho hc hk).mp hx
      rw [hedges] at hfk
      exact ⟨f, hf, hff, hfk.to_reflTransGen⟩
  · rintro ⟨f, hf, hff, hfk⟩
    rcases Relation.reflTransGen_iff_eq_or_transGen.mp hfk with rfl | hfk
    · exact ⟨hplanned k hf, hff⟩
    · rw [← hedges] at hfk
      have hk : k ∈ g.plan.keys := by
        cases hfk with
        | single he | tail _ he => exact (hg.mem_keys_of_edge he).2
      have hx := (h.not_started_iff hg ho hc hk).mpr ⟨f, hf, hff, hfk⟩
      exact ⟨hk, fun hs => hx hs.started⟩

end

end Inv

/-- **Main result.** Everything recorded is destroyed, and its dependencies have no cycle. In every
state that is stored the resources are as they were recorded, and whatever they depend on is still
there, if it was recorded at all. At the end of a walk that was not cancelled, there are left the
resources that failed to be deleted and what these depend on, directly or not. If none failed,
nothing is left. -/
theorem destroyed (hop : setup.operation = .destroy) (hprior : setup.prior.ById)
    (hac : Acyclic setup.prior.DependsOn) :
    ∃ g, Graph.build .destroy (Plan.destroy setup.prior) = .ok g ∧
      ∀ (jobs : Nat) (run : Run σ) (cs : List Choice) (w : Walk σ), run.recorded = setup.prior →
        (start g run .empty).steps? setup g jobs cs = some w →
        (∃ es, w.run.history = run.history ++ es ∧ ∀ s ∈ Entry.snapshots es, ∀ r ∈ s.resources,
          setup.prior.get? r.key = some r ∧
          ∀ d ∈ r.dependsOn, setup.prior.contains d = true → ∃ q ∈ s.resources, q.key = d) ∧
        (w.isOver = true → w.run.cancelled = false →
          (∀ k, w.run.recorded.contains k = true ↔ ∃ f, w.Started f ∧ ¬ w.Succeeded f ∧
            Relation.ReflTransGen setup.prior.DependsOn f k) ∧
          ((∀ k, setup.prior.contains k = true → w.Succeeded k) → w.run.recorded = .empty ∧
            (run.state.index = setup.prior → w.run.state.resources = []))) := by
  obtain ⟨g, hb⟩ := hprior.build_destroy hac
  refine ⟨g, hb, fun jobs run cs w hr hw => ?_⟩
  obtain ⟨hg, -, -⟩ := Graph.build_sound hb
  obtain ⟨decided, es, h, hall⟩ := Inv.forall_snapshots (Q := fun s => ∀ r ∈ s.resources,
      setup.prior.get? r.key = some r ∧
      ∀ d ∈ r.dependsOn, setup.prior.contains d = true → ∃ q ∈ s.resources, q.key = d) hg
    (fun {v decided entries} h hne r hmem => by
      rw [h.lives.run_extends.resources hne] at hmem ⊢
      obtain ⟨k, hk⟩ := Index.mem_byId.mp hmem
      have hget := ((h.recorded_iff hop hprior hb hr).mp hk).1
      obtain rfl := hprior k r hget
      refine ⟨hget, fun d hd hthere => ?_⟩
      obtain ⟨q, hq, hq'⟩ := h.dependsOn_recorded hop hprior hb hr hk hd hthere
      exact ⟨q, Index.mem_byId.mpr ⟨d, hq'⟩, hprior d q hq⟩) hw
  refine ⟨⟨es, h.lives.run_extends.history, hall⟩, fun ho hc => ⟨fun k => ?_, fun hdone => ?_⟩⟩
  · refine h.contains_iff_failed hop hprior hb hr ho hc fun f hf => ?_
    exact Decidable.byContradiction fun hn => Inv.not_started_of_not_planned hg hw hn hf
  · have hempty : w.run.recorded = .empty := by
      refine Keyed.ext_get? fun k => Option.eq_none_iff_forall_ne_some.mpr fun r hk => ?_
      obtain ⟨hget, hs⟩ := (h.recorded_iff hop hprior hb hr).mp hk
      exact hs (hdone k (Index.contains_of_get? hget))
    refine ⟨hempty, fun hstate => Index.eq_nil_of_ofResources ?_⟩
    have hbyId : w.run.recorded.ById := by
      rw [hempty]
      exact fun k r hk => nomatch hk
    exact (h.index_state (hstate.trans hr.symm) hbyId).trans hempty

/-! ## A resource that cannot be deleted -/

/-- What is recorded: `c` depends on `b` and that on `a`, but no backend serves `b`. What `e`
depends on is not recorded. -/
def stuckState : State where
  serial := 2
  lastModified := default
  resources := [⟨"a", "Local", [], []⟩, ⟨"b", "Remote", [], ["a"]⟩, ⟨"c", "Local", [], ["b"]⟩,
    ⟨"e", "Local", [], ["z"]⟩]

/-- The graph that deletes everything. -/
def stuckGraph : Graph where
  operation := .destroy
  plan := stuckState.resources.map fun r => ⟨r, .delete⟩
  edges := [("b", "a"), ("c", "b")]
  order := ["e", "c", "b", "a"]

/-- The backend does as asked. -/
def stuckSetup : Setup Unit := .replying (fun _ r => .returned r) .destroy stuckState.index []

/-- Two workers are on `c` and `e` at once, and `b` follows. -/
def stuckSteps : List Choice :=
  [.tell "c", .tell "e", .leave, .take "c", .take "e", .begin "c", .begin "e", .finish "c",
    .receive "c", .tell "b", .leave, .finish "e", .receive "e", .leave, .take "b", .begin "b",
    .receive "b", .tell "a", .leave, .leave]

theorem destroyed_stuck :
    ∃ w, (start stuckGraph (.ofState stuckState) .empty).steps? stuckSetup stuckGraph 2
        stuckSteps = some w ∧ w.isOver = true ∧ w.run.recorded.keys = ["a", "b"] ∧
      (∃ f, w.Started f ∧ ¬ w.Succeeded f ∧
        Relation.ReflTransGen stuckState.index.DependsOn f "a") ∧
      (Entry.snapshots w.run.history).length = 2 ∧
      ∀ s ∈ Entry.snapshots w.run.history, ∀ r ∈ s.resources, ∀ d ∈ r.dependsOn,
        stuckState.index.contains d = true → ∃ q ∈ s.resources, q.key = d := by
  have hlisted : stuckState.index.byId = stuckState.index.values :=
    Index.byId_eq_values (by decide)
  have hb : Graph.build .destroy (Plan.destroy stuckState.index) = .ok stuckGraph := by
    unfold Plan.destroy
    rw [hlisted]
    rfl
  have hprior : stuckState.index.ById := Index.byId_ofResources _
  have hac : Acyclic stuckState.index.DependsOn :=
    hprior.acyclic_of_rank (fun k => if k = "c" ∨ k = "e" then 2 else if k = "b" then 1 else 0)
      (by decide)
  have hend : ((start stuckGraph (.ofState stuckState) .empty).steps? stuckSetup stuckGraph 2
      stuckSteps).any fun w => w.isOver && (!w.run.cancelled &&
        (w.run.recorded.keys == ["a", "b"] && (Entry.snapshots w.run.history).length == 2)) := by
    decide +kernel
  obtain ⟨w, hw, hend⟩ := (Option.any_eq_true _ _).mp hend
  simp only [Bool.and_eq_true, Bool.not_eq_true', beq_iff_eq] at hend
  obtain ⟨ho, hc, hkeys, hlen⟩ := hend
  obtain ⟨g, hg, hall⟩ := @destroyed _ stuckSetup rfl hprior hac
  obtain rfl := Except.ok.inj (hb.symm.trans hg)
  obtain ⟨⟨es, hes, hsnapshots⟩, hover⟩ := hall 2 (.ofState stuckState) stuckSteps w rfl hw
  have hleft : w.run.recorded.contains "a" = true := by
    obtain ⟨r, hr⟩ := Keyed.mem_keys.mp (hkeys ▸ List.mem_cons_self)
    exact Index.contains_of_get? hr
  refine ⟨w, hw, ho, hkeys, ((hover ho hc).1 "a").mp hleft, hlen, fun s hs r hr => ?_⟩
  rw [hes] at hs
  exact (hsnapshots s hs r hr).2

end Walk

end Provision
