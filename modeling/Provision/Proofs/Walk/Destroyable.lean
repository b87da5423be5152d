import Provision.Proofs.State.Dependencies
import Provision.Proofs.Walk.Recorded

/-!
# What is recorded can be destroyed

* `Walk.Inv.recorded_acyclic`: at any time of a walk, the dependencies recorded have no cycle. Those
  of the nodes that succeeded follow the edges of the graph, and lead only to such nodes; all others
  are as they were before.
* `Walk.stays_destroyable`: so whatever a run stores can be destroyed and refreshed.
-/

namespace Provision

namespace Walk

variable {σ : Type} {setup : Setup σ} {g : Graph} {jobs : Nat} {w : Walk σ}
  {decided : List (String × Except Status Unit)} {run₀ : Run σ} {entries : List Entry}

namespace Inv

variable (hg : g.Sound) (h : Inv setup g run₀ w decided entries) (hr : run₀.recorded = setup.prior)
  (hgop : g.operation = setup.operation)
  (hp : Plan.MadeFrom setup.prior setup.operation g.plan) (hprior : setup.prior.ById)
  (hids : setup.KeepsIds)

include hg h hr hgop hp hprior hids

/-- A node that succeeded waited for whatever it is now recorded to depend on, as far as that is
recorded itself. -/
theorem edge_of_dependsOn {a b : String} (ha : w.Succeeded a)
    (hab : w.run.recorded.DependsOn a b) : (b, a) ∈ g.edges := by
  obtain ⟨r, hra, hb, hcontains⟩ := hab
  obtain ⟨r', hrb⟩ := Option.isSome_iff_exists.mp hcontains
  rcases h.recorded_cases hr hp hprior hids hra with ⟨hn, -⟩ | ⟨-, c, hf, hne, -, hdep⟩
  · exact absurd ha hn
  · obtain ⟨hc, rfl⟩ := Plan.find?_eq_some hf
    refine Graph.mem_before_of_depends hg (fun hop => ?_) hc hne ?_
      (h.mem_keys_of_recorded hr hp hprior hrb)
    · exact hne (hp.action_of_destroy (hgop.symm.trans hop) hc)
    · unfold Change.dependencies
      exact List.mem_append_left _ (hdep ▸ hb)

/-- **Closure.** The dependencies recorded have no cycle: a cycle would lie among the nodes that
succeeded, against the order of the graph, or among the others, against `hac`. -/
theorem recorded_acyclic (hac : Acyclic setup.prior.DependsOn) :
    Acyclic w.run.recorded.DependsOn := by
  -- From a node that succeeded dependencies lead only to such nodes, along edges turned round.
  refine Acyclic.of_closed (P := w.Succeeded) (s := fun a b => (a, b) ∈ g.edges)
    (fun a b ha hab => ?_) (fun a b ha hb hab => ?_) hg.acyclic hac
  · have he := h.edge_of_dependsOn hg hr hgop hp hprior hids ha hab
    exact ⟨h.succeeded_of_edge (hg.mem_keys_of_edge he).2 ha he, he⟩
  · obtain ⟨r, hra, hb', hcontains⟩ := hab
    obtain ⟨r', hrb⟩ := Option.isSome_iff_exists.mp hcontains
    rw [h.get?_recorded_of_failed hr ha] at hra
    rw [h.get?_recorded_of_failed hr hb] at hrb
    exact ⟨r, hra, hb', Index.contains_of_get? hrb⟩

end Inv

/-- **Main result.** From a state whose dependencies have no cycle something is applied, destroyed
or refreshed, on backends that keep ids. At any time of the walk, the dependencies in the state and
in every state that was stored have no cycle, so `Graph.build` accepts the plan that destroys what
is recorded there, and the one that refreshes it. -/
theorem stays_destroyable {op : Operation} {p : Plan} (hp : Plan.MadeFrom setup.prior op p)
    (hb : Graph.build op p = .ok g) (hop : setup.operation = op) (hids : setup.KeepsIds)
    (hac : Acyclic setup.prior.DependsOn) {run : Run σ} (hr : run.recorded = setup.prior)
    (hst : run.state.index = setup.prior) {cs : List Choice}
    (hw : (start g run .empty).steps? setup g jobs cs = some w) :
    ∃ es, w.run.history = run.history ++ es ∧ ∀ s, s = w.run.state ∨ s ∈ Entry.snapshots es →
      Acyclic s.index.DependsOn ∧
      (∃ g, Graph.build .destroy (Plan.destroy s.index) = .ok g) ∧
      ∃ g, Graph.build .refresh (Plan.refresh s.index) = .ok g := by
  have hprior : setup.prior.ById := hst ▸ Index.byId_ofResources _
  obtain ⟨hg, hgop, rfl⟩ := Graph.build_sound hb
  subst hop
  have hstate : ∀ {v decided entries}, Inv setup g run v decided entries →
      Acyclic v.run.state.index.DependsOn := fun {v decided entries} h => by
    rw [h.index_state (hst.trans hr.symm) (h.recorded_byId hr hp hprior hids)]
    exact h.recorded_acyclic hg hr hgop hp hprior hids hac
  obtain ⟨decided, es, h, hall⟩ := Inv.forall_snapshots (Q := fun s => Acyclic s.index.DependsOn) hg
    (fun h _ => hstate h) hw
  refine ⟨es, h.lives.run_extends.history, fun s hs => ?_⟩
  have hs : Acyclic s.index.DependsOn := by
    rcases hs with rfl | hs
    · exact hstate h
    · exact hall s hs
  have hid : s.index.ById := Index.byId_ofResources _
  exact ⟨hs, hid.build_destroy hs, hid.build_refresh hs⟩

/-! ## A dependency that is turned around -/

/-- What is recorded: `b` depends on `a`. -/
def turnedState : State where
  serial := 2
  lastModified := default
  resources := [⟨"a", "Local", [], []⟩, ⟨"b", "Local", [], ["a"]⟩]

/-- What is desired: `a` depends on `b`. -/
def turned : List Resource := [⟨"a", "Local", [], ["b"]⟩, ⟨"b", "Local", [], []⟩]

/-- The graph of the changes: `b` is updated before `a`. -/
def turnedGraph : Graph where
  operation := .apply
  plan := turned.map fun r => ⟨r, .update⟩
  edges := [("b", "a")]
  order := ["b", "a"]

/-- The backend returns what it is asked to apply. -/
def turnedSetup : Setup Unit := .replying (fun _ r => .returned r) .apply turnedState.index []

/-- One node after the other. -/
def turnedSteps : List Choice :=
  [.tell "b", .leave, .take "b", .begin "b", .finish "b", .receive "b", .tell "a", .leave,
    .take "a", .begin "a", .finish "a", .receive "a", .leave]

theorem stays_destroyable_turned :
    ∃ w, (start turnedGraph (.ofState turnedState) .empty).steps? turnedSetup turnedGraph 1
        turnedSteps = some w ∧ w.isOver = true ∧ w.run.state.serial = 4 ∧
      ∃ g, Graph.build .destroy (Plan.destroy w.run.state.index) = .ok g := by
  have hb : Graph.build .apply (Plan.apply turned turnedSetup.prior []) = .ok turnedGraph := by
    rw [Plan.apply_eq_map (by decide)]
    rfl
  have hids : turnedSetup.KeepsIds := Setup.replying_keepsIds fun prior planned applied h => by
    cases h
    rfl
  have hac : Acyclic turnedSetup.prior.DependsOn :=
    (Index.byId_ofResources _).acyclic_of_rank (fun k => if k = "b" then 1 else 0) (by decide)
  have hend : ((start turnedGraph (.ofState turnedState) .empty).steps? turnedSetup turnedGraph 1
      turnedSteps).any fun w => w.isOver && w.run.state.serial == 4 := by
    decide +kernel
  obtain ⟨w, hw, hend⟩ := (Option.any_eq_true _ _).mp hend
  rw [Bool.and_eq_true, beq_iff_eq] at hend
  obtain ⟨es, -, hall⟩ := stays_destroyable (.apply turned []) hb rfl hids hac rfl rfl hw
  exact ⟨w, hw, hend.1, hend.2, (hall _ (.inl rfl)).2.1⟩

end Walk

end Provision
