import Provision.Manifest
import Provision.Proofs.State.Dependencies
import Provision.Proofs.Walk.Recorded

/-!
# What is recorded keeps what it depends on

* `Walk.Inv.dependent_succeeded`: before a dropped resource is deleted, whatever was recorded to
  depend on it was updated or deleted. The graph orders two deletions, and an update before what it
  leads to; it knows nothing of what an updated resource depended on before.
* `Walk.snapshots_closed`: so an application stores only states in which whatever a resource depends
  on is recorded, as long as the graph leads from every updated resource to what it drops.
* `Walk.snapshots_not_closed`: otherwise it may delete what a resource still depends on.
-/

namespace Provision

namespace Graph

/-- Between two deletions `Change.orient` turns a dependency round: the dependent goes first. -/
theorem mem_edges_of_deleted {g : Graph} (hg : g.Sound) {c dependency : Change} (hc : c ∈ g.plan)
    (hd : dependency ∈ g.plan) (ha : c.action = .delete) (ha' : dependency.action = .delete)
    (h : dependency.key ∈ c.resource.dependsOn) : (c.key, dependency.key) ∈ g.edges := by
  rw [hg.edges_eq, Plan.mem_edges]
  refine ⟨c, hc, dependency.key, List.mem_append_left _ h, dependency,
    Plan.find?_of_mem hg.keys_nodup hd, ?_⟩
  unfold Change.orient
  rw [if_pos (.inr ⟨ha', ha⟩)]

/-- The graph leads from every updated resource to whatever it was recorded to depend on and is
dropped. -/
def DropsLater (g : Graph) (desired : List Resource) (prior : Index) : Prop :=
  ∀ c ∈ g.plan, c.action = .update → ∀ r, prior.get? c.key = some r →
    ∀ d ∈ r.dependsOn, d ∉ desired.map Resource.key →
      Relation.TransGen (fun a b => (a, b) ∈ g.edges) c.key d

end Graph

namespace Walk

variable {σ : Type} {setup : Setup σ} {g : Graph} {jobs : Nat} {w : Walk σ}
  {decided : List (String × Except Status Unit)} {run₀ : Run σ} {entries : List Entry}
  {desired : List Resource} {ignored : List FieldPath}

namespace Inv

/-- `succeeded_of_started` along a path: whatever leads to a node that was started has succeeded. -/
theorem succeeded_of_transGen (hg : g.Sound) (h : Inv setup g run₀ w decided entries)
    {a b : String} (hx : w.Started b) (hab : Relation.TransGen (fun a b => (a, b) ∈ g.edges) a b) :
    w.Succeeded a := by
  have hstep : ∀ {p k}, (p, k) ∈ g.edges → w.Started k → w.Succeeded p := fun he hx =>
    h.succeeded_of_started (hg.mem_keys_of_edge he).2 hx (Graph.mem_dependencies.mpr he)
  induction hab with
  | single he => exact hstep he hx
  | tail _ he ih => exact ih (hstep he hx).started

section

variable (hg : g.Sound) (h : Inv setup g run₀ w decided entries)
  (hp : g.plan = Plan.apply desired setup.prior ignored) (hprior : setup.prior.ById)

include hg h hp hprior

/-- A desired resource stays recorded, and is recorded once its node succeeded: its action is no
deletion. -/
theorem contains_of_desired (hop : setup.operation = .apply) (hids : setup.KeepsIds)
    (hr : run₀.recorded = setup.prior) {k : String} (hk : k ∈ desired.map Resource.key)
    (hthere : setup.prior.contains k = true ∨ w.Succeeded k) :
    w.run.recorded.contains k = true := by
  have hmade : Plan.MadeFrom setup.prior setup.operation g.plan := .of_apply hop hp
  obtain ⟨q, hq, rfl⟩ := List.mem_map.mp hk
  have hc : ⟨q, Plan.actionFor setup.prior ignored q⟩ ∈ g.plan := hp ▸ Plan.mem_apply_of_mem hq
  have hkeys : q.key ∈ g.plan.keys := List.mem_map_of_mem (f := Change.key) hc
  unfold Keyed.contains at hthere ⊢
  by_cases hs : w.Succeeded q.key
  · obtain ⟨c, known, hf, he⟩ := h.ended_of_succeeded hkeys hs
    obtain rfl := Option.some.inj ((Plan.find?_of_mem hg.keys_nodup hc).symm.trans hf)
    rw [h.lives.run_extends.get?_recorded, hr]
    exact he.isSome_outcome hmade hprior hids hc (by rw [hop]; exact nofun) Plan.actionFor_ne_delete
  · rw [h.get?_recorded_of_failed hr hs]
    exact hthere.resolve_right hs

variable (hdesired : ∀ q ∈ desired, ∀ d ∈ q.dependsOn, d ∈ desired.map Resource.key)
  (hclosed : setup.prior.Closed) (hdrops : g.DropsLater desired setup.prior)

include hdesired hclosed hdrops

/-- Before a dropped resource `d` is deleted, whatever was recorded to depend on it was updated or
deleted. For a deletion the graph has the edge; for an update `hdrops` asks for a path. -/
theorem dependent_succeeded {k d : String} {r : Resource} (hk : setup.prior.get? k = some r)
    (hd : d ∈ r.dependsOn) (hn : d ∉ desired.map Resource.key) (hx : w.Started d) :
    w.Succeeded k := by
  have hkeys : ∀ {k r}, setup.prior.get? k = some r →
      k ∈ (Plan.apply desired setup.prior ignored).keys := fun hk => Plan.mem_keys_apply hprior hk
  obtain ⟨c, hc, rfl⟩ := List.mem_map.mp (hkeys hk)
  cases ha : c.action with
  | create => exact absurd ha (Plan.ne_create_of_get? hc hk)
  | update => exact h.succeeded_of_transGen hg hx (hdrops c (hp ▸ hc) ha r hk d hd hn)
  | unchanged =>
    -- It is desired with the dependencies that are recorded, and none of them is dropped.
    obtain ⟨recorded, hget, hdep⟩ := (Plan.MadeFrom.apply desired ignored).get?_of_unchanged hprior
      hc ha
    obtain rfl := Option.some.inj (hget.symm.trans hk)
    have hq := Plan.mem_desired_of_ne_delete hc (by rw [ha]; exact nofun)
    exact absurd (hdesired _ hq d (hdep ▸ hd)) hn
  | delete =>
    -- Both are deleted, and the graph has the dependent first.
    obtain ⟨rd, hrd⟩ := Option.isSome_iff_exists.mp (hclosed _ r hk d hd)
    obtain ⟨dependency, hdc, rfl⟩ := List.mem_map.mp (hkeys hrd)
    obtain rfl := Option.some.inj ((Plan.get?_of_delete hprior hc ha).symm.trans hk)
    exact h.succeeded_of_transGen hg hx (.single (Graph.mem_edges_of_deleted hg (hp ▸ hc)
      (hp ▸ hdc) ha (Plan.action_of_dropped hdc hn) hd))

/-- **Closure.** At any time of a walk that applies, whatever a recorded resource depends on is
recorded: `Index.Closed` of what is recorded, which is what the stored states list. -/
theorem recorded_closed (hop : setup.operation = .apply) (hgop : g.operation = .apply)
    (hids : setup.KeepsIds) (hr : run₀.recorded = setup.prior) : w.run.recorded.Closed := by
  have hmade : Plan.MadeFrom setup.prior setup.operation g.plan := .of_apply hop hp
  intro k r hk d hd
  rcases h.recorded_cases hr hmade hprior hids hk with ⟨hs, hget⟩ | ⟨hs, c, hf, ha, -, hdep⟩
  · -- Its node did not succeed, so it has the dependencies that it had before.
    have hthere := hclosed k r hget d hd
    by_cases hn : d ∈ desired.map Resource.key
    · exact h.contains_of_desired hg hp hprior hop hids hr hn (.inl hthere)
    · obtain ⟨rd, hrd⟩ := Option.isSome_iff_exists.mp hthere
      have hx : ¬ w.Succeeded d := fun hx =>
        hs (h.dependent_succeeded hg hp hprior hdesired hclosed hdrops hget hd hn hx.started)
      refine Index.contains_of_get? (r := rd) ?_
      rw [h.get?_recorded_of_failed hr hx]
      exact hrd
  · -- Its node succeeded, and had waited for its dependencies.
    obtain ⟨hc, rfl⟩ := Plan.find?_eq_some hf
    have hn := hdesired _ (Plan.mem_desired_of_ne_delete (hp ▸ hc) ha) d (hdep ▸ hd)
    refine h.contains_of_desired hg hp hprior hop hids hr hn (.inr ?_)
    have hkeys : d ∈ g.plan.keys := by
      obtain ⟨q, hq, rfl⟩ := List.mem_map.mp hn
      exact List.mem_map_of_mem (f := Change.key) (hp ▸ Plan.mem_apply_of_mem hq)
    exact h.succeeded_of_edge (List.mem_map_of_mem hc) hs (Graph.mem_before_of_depends hg
      (by rw [hgop]; exact nofun) hc ha (List.mem_append_left _ (hdep ▸ hd)) hkeys)

end

end Inv

/-- **Main result.** A manifest is applied in which every dependency is desired, from a state in
which every dependency is recorded, on backends that keep ids. If the graph leads from every updated
resource to what it drops (`Graph.DropsLater`), every state that is stored is closed under
dependencies, and before a dropped resource is deleted, whatever was recorded to depend on it was
updated or deleted. -/
theorem snapshots_closed (hop : setup.operation = .apply) (hids : setup.KeepsIds)
    (hb : Graph.build .apply (Plan.apply desired setup.prior ignored) = .ok g)
    (hdesired : ∀ q ∈ desired, ∀ d ∈ q.dependsOn, d ∈ desired.map Resource.key)
    (hclosed : setup.prior.Closed) (hdrops : g.DropsLater desired setup.prior) {run : Run σ}
    (hr : run.recorded = setup.prior) (hst : run.state.index = setup.prior) {cs : List Choice}
    (hw : (start g run .empty).steps? setup g jobs cs = some w) :
    (∃ es, w.run.history = run.history ++ es ∧ ∀ s ∈ Entry.snapshots es, s.index.Closed) ∧
      ∀ k r, setup.prior.get? k = some r → ∀ d ∈ r.dependsOn, d ∉ desired.map Resource.key →
        w.Started d → w.Succeeded k := by
  have hprior : setup.prior.ById := hst ▸ Index.byId_ofResources _
  obtain ⟨hg, hgop, hp⟩ := Graph.build_sound hb
  have hmade : Plan.MadeFrom setup.prior setup.operation g.plan := .of_apply hop hp
  obtain ⟨decided, es, h, hall⟩ := Inv.forall_snapshots (Q := fun s => s.index.Closed) hg
    (fun h _ => by
      rw [h.index_state (hst.trans hr.symm) (h.recorded_byId hr hmade hprior hids)]
      exact h.recorded_closed hg hp hprior hdesired hclosed hdrops hop hgop hids hr) hw
  exact ⟨⟨es, h.lives.run_extends.history, hall⟩, fun k r hk d hd hn hx =>
    h.dependent_succeeded hg hp hprior hdesired hclosed hdrops hk hd hn hx⟩

/-! ## A dependency that is dropped -/

/-- What is recorded: `a` depends on `b`, and there may be more. -/
def droppedState (more : List Resource) : State where
  serial := 2
  lastModified := default
  resources := [⟨"a", "Local", [], ["b"]⟩, ⟨"b", "Local", [], []⟩] ++ more

/-- What is desired: `a` alone. -/
def remaining : List Resource := [⟨"a", "Local", [], []⟩]

/-- What may be recorded besides: `c` depends on both. -/
def follower : Resource := ⟨"c", "Local", [], ["a", "b"]⟩

/-- The graph with `c`, which is deleted after the update of `a` and before `b`. -/
def followerGraph : Graph where
  operation := .apply
  plan := [⟨⟨"a", "Local", [], []⟩, .update⟩, ⟨⟨"b", "Local", [], []⟩, .delete⟩,
    ⟨follower, .delete⟩]
  edges := [("a", "c"), ("c", "b")]
  order := ["a", "c", "b"]

/-- The backend returns what it is asked to apply. -/
def followerSetup : Setup Unit :=
  .replying (fun _ r => .returned r) .apply (droppedState [follower]).index []

/-- One node after the other. -/
def followerSteps : List Choice :=
  [.tell "a", .leave, .take "a", .begin "a", .finish "a", .receive "a", .tell "c", .leave,
    .take "c", .begin "c", .finish "c", .receive "c", .tell "b", .leave, .take "b", .begin "b",
    .finish "b", .receive "b", .leave]

/-- `Graph.DropsLater` holds without an edge from `a` to `b`: the graph leads from the update of `a`
by `c` to `b`, so `b` goes last. -/
theorem snapshots_closed_follower :
    ∃ w, (start followerGraph (.ofState (droppedState [follower])) .empty).steps? followerSetup
        followerGraph 1 followerSteps = some w ∧ w.isOver = true ∧
      (Entry.snapshots w.run.history).length = 3 ∧
      ∀ s ∈ Entry.snapshots w.run.history, s.index.Closed := by
  have hlisted : (droppedState [follower]).index.byId = (droppedState [follower]).index.values :=
    Index.byId_eq_values (by decide)
  have hb : Graph.build .apply (Plan.apply remaining followerSetup.prior []) =
      .ok followerGraph := by
    unfold Plan.apply
    rw [show followerSetup.prior.byId = _ from hlisted]
    rfl
  have hids : followerSetup.KeepsIds := Setup.replying_keepsIds fun prior planned applied h => by
    cases h
    rfl
  have hdrops : followerGraph.DropsLater remaining followerSetup.prior := by
    have hpath : Relation.TransGen (fun a b => (a, b) ∈ followerGraph.edges) "a" "b" :=
      .tail (.single (by decide : ("a", "c") ∈ followerGraph.edges)) (by decide)
    have hkeys : ∀ c ∈ followerGraph.plan, c.action = .update → c.key = "a" := by decide
    have hdropped : ∀ r ∈ followerSetup.prior.get? "a", r.dependsOn = ["b"] := by decide
    intro c hc ha r hr d hd hn
    rw [hkeys c hc ha] at hr ⊢
    rw [hdropped r hr, List.mem_singleton] at hd
    exact hd ▸ hpath
  have hend : ((start followerGraph (.ofState (droppedState [follower])) .empty).steps?
      followerSetup followerGraph 1 followerSteps).any fun w =>
        w.isOver && (Entry.snapshots w.run.history).length == 3 := by
    decide +kernel
  obtain ⟨w, hw, hend⟩ := (Option.any_eq_true _ _).mp hend
  rw [Bool.and_eq_true, beq_iff_eq] at hend
  obtain ⟨⟨es, hes, hall⟩, -⟩ := snapshots_closed rfl hids hb (by decide) (by decide) hdrops rfl rfl
    hw
  refine ⟨w, hw, hend.1, hend.2, ?_⟩
  rw [hes]
  exact hall

/-- The graph without `c`, where nothing leads from `a` to `b`. -/
def aloneGraph : Graph where
  operation := .apply
  plan := [⟨⟨"a", "Local", [], []⟩, .update⟩, ⟨⟨"b", "Local", [], []⟩, .delete⟩]
  edges := []
  order := ["b", "a"]

/-- The backend refuses to update `a`. -/
def aloneSetup : Setup Unit :=
  .replying (fun _ _ => .refused ⟨.backendFailure, "quota exceeded"⟩) .apply
    (droppedState []).index []

/-- The two nodes start together, and `b` ends first. -/
def aloneSteps : List Choice :=
  [.tell "a", .tell "b", .leave, .take "a", .begin "a", .take "b", .begin "b", .finish "b",
    .finish "a", .receive "b", .leave, .receive "a", .leave]

/-- Without `Graph.DropsLater` a stored state need not be closed: `b` is deleted although the update
of `a`, which drops the dependency on `b`, fails. -/
theorem snapshots_not_closed :
    ¬ ∀ (desired : List Resource) (ignored : List FieldPath) (setup : Setup Unit) (g : Graph)
      (run : Run Unit) (jobs : Nat) (cs : List Choice) (w : Walk Unit) (es : List Entry),
      setup.operation = .apply → setup.KeepsIds → setup.Stores →
      Manifest.validate ⟨desired⟩ = .ok () →
      (∀ q ∈ desired, ∀ d ∈ q.dependsOn ++ q.attributes.referencedKeys,
        d ∈ desired.map Resource.key) →
      (Acyclic fun a b => ∃ q ∈ desired, q.key = a ∧
        b ∈ q.dependsOn ++ q.attributes.referencedKeys) →
      setup.prior.Closed →
      Graph.build .apply (Plan.apply desired setup.prior ignored) = .ok g →
      run.known = setup.prior → run.recorded = setup.prior → run.state.index = setup.prior →
      (start g run .empty).steps? setup g jobs cs = some w → w.run.history = run.history ++ es →
      ∀ s ∈ Entry.snapshots es, s.index.Closed := by
  intro h
  have hlisted : (droppedState []).index.byId = (droppedState []).index.values :=
    Index.byId_eq_values (by decide)
  have hb : Graph.build .apply (Plan.apply remaining aloneSetup.prior []) = .ok aloneGraph := by
    unfold Plan.apply
    rw [show aloneSetup.prior.byId = _ from hlisted]
    rfl
  have hids : aloneSetup.KeepsIds := Setup.replying_keepsIds fun prior planned applied h => by
    cases h
  have hacyclic : Acyclic fun a b => ∃ q ∈ remaining, q.key = a ∧
      b ∈ q.dependsOn ++ q.attributes.referencedKeys := by
    refine Acyclic.of_rank (fun _ => 0) fun a b ⟨q, hq, _, hb⟩ => ?_
    cases List.mem_singleton.mp hq
    cases hb
  have hend : ((start aloneGraph (.ofState (droppedState [])) .empty).steps? aloneSetup aloneGraph 2
      aloneSteps).any fun w => (Entry.snapshots w.run.history).any fun s =>
        decide ¬ s.index.Closed := by
    decide +kernel
  obtain ⟨w, hw, hend⟩ := (Option.any_eq_true _ _).mp hend
  obtain ⟨s, hs, hnot⟩ := List.any_eq_true.mp hend
  exact of_decide_eq_true hnot (h remaining [] aloneSetup _ _ _ _ w _ rfl hids
    Setup.replying_stores rfl (by decide) hacyclic (by decide) hb rfl rfl rfl hw rfl s hs)

end Walk

end Provision
