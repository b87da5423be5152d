import Mathlib.Logic.Relation
import Provision.Proofs.Run.Effect
import Provision.Proofs.Walk.Invariant

/-!
# Failures stay with the nodes that wait for them

* `Walk.Started`, `Walk.Succeeded`: whether a fresh node was started, and whether it ended well.
* `Walk.failures_isolated`: at the end of a walk that was not cancelled, the nodes that were started
  are those whose dependencies all succeeded; they were started after these had ended and committed.
  Any other node is left out, is reported as blocked by a dependency that did not succeed, and
  follows from a node that failed.
-/

namespace Provision

namespace Walk

variable {σ : Type} {setup : Setup σ} {g : Graph} {jobs : Nat} {w v w' : Walk σ}
  {ch : Choice} {decided ds : List (String × Except Status Unit)} {run₀ : Run σ}
  {entries es : List Entry}

/-- The node was started. -/
def Started (w : Walk σ) (k : String) : Prop := w.stateOf k ≠ .pending

/-- The node was executed and ended well. -/
def Succeeded (w : Walk σ) (k : String) : Prop := w.stateOf k = .succeeded

instance (w : Walk σ) (k : String) : Decidable (w.Started k) :=
  inferInstanceAs (Decidable (w.stateOf k ≠ .pending))

instance (w : Walk σ) (k : String) : Decidable (w.Succeeded k) :=
  inferInstanceAs (Decidable (w.stateOf k = .succeeded))

theorem Succeeded.started {k : String} (h : w.Succeeded k) : w.Started k := by
  unfold Started
  rw [show w.stateOf k = .succeeded from h]
  exact nofun

theorem Turned.stateOf_of_not_planned (h : Turned setup g w w' ch decided ds es)
    (hs : Scheduled g w decided) {k : String} (hk : k ∉ g.plan.keys) :
    w'.stateOf k = w.stateOf k := by
  cases h with
  | stays hm => exact hm.states k
  | moves hm ht =>
    refine hm.states k ?_
    rintro rfl
    exact hk (hs.mem_keys (mem_active_of_place hm.source ht.not_ended))

namespace Inv

/-- Keys that are not planned have no node, so `Started` never holds of them. -/
theorem not_started_of_not_planned (hg : g.Sound) {run : Run σ} {cs : List Choice}
    (hw : (Walk.start g run .empty).steps? setup g jobs cs = some w) {k : String}
    (hk : k ∉ g.plan.keys) : ¬ w.Started k := by
  obtain ⟨-, -, -, hpending⟩ := (Inv.start hg run).induct hg
    (P := fun _ w _ => w.stateOf k = .pending)
    (fun h _ ht _ hP => (ht.stateOf_of_not_planned h.scheduled hk).trans hP) [] rfl hw
  exact fun hx => hx hpending

theorem succeeded_iff (h : Inv setup g run₀ w decided entries) {k : String}
    {r : Except Status Unit} (hr : (k, r) ∈ decided) : w.Succeeded k ↔ r = .ok () :=
  (h.story hr).succeeded_iff

theorem not_succeeded (h : Inv setup g run₀ w decided entries) {k : String} {s : Status}
    (hr : (k, .error s) ∈ decided) : ¬ w.Succeeded k := by
  rw [h.succeeded_iff hr]
  exact nofun

/-- `Inv.cleared` in terms of `Started` and `Succeeded`. -/
theorem succeeded_of_started (h : Inv setup g run₀ w decided entries) {k : String}
    (hk : k ∈ g.plan.keys) (hx : w.Started k) {d : String} (hd : d ∈ g.dependencies k) :
    w.Succeeded d :=
  (h.succeeded_iff (h.cleared hk hx d (Graph.mem_dependencies.mp hd))).mpr rfl

section

variable (hg : g.Sound) (h : Inv setup g run₀ w decided entries) (ho : w.isOver = true)
  (hc : w.run.cancelled = false)

include hg h ho

theorem succeeded_iff_failure? {k : String} (hk : k ∈ g.plan.keys) :
    w.Succeeded k ↔ w.summary.failure? k = none := by
  obtain ⟨r, hr⟩ := h.exists_result hg ho hk
  rw [h.succeeded_iff hr, h.scheduled.failure?_eq_none_iff hg h.tallied hr]

include hc

/-- At the end a node that was not started is blocked by a dependency that did not succeed, and
nothing else happened to it. -/
theorem blocked_of_not_started {k : String} (hk : k ∈ g.plan.keys) (hx : ¬ w.Started k) :
    ∃ d ∈ g.dependencies k, ¬ w.Succeeded d ∧ w.summary.failure? k = some (.blockedBy d) ∧
      Entry.about k entries = [.emitted ⟨k, .skipped, some (.blockedBy d)⟩] := by
  obtain ⟨r, hr⟩ := h.exists_result hg ho hk
  obtain ⟨d, s, he, hd, rfl, habout⟩ := h.blocked hc hr (Decidable.not_not.mp hx)
  exact ⟨d, Graph.mem_dependencies.mpr he, h.not_succeeded hd,
    (h.failure?_eq_some_iff hg).mpr hr, habout⟩

theorem started_iff {k : String} (hk : k ∈ g.plan.keys) :
    w.Started k ↔ ∀ d ∈ g.dependencies k, w.Succeeded d := by
  refine ⟨fun hx d hd => h.succeeded_of_started hk hx hd, fun hall => ?_⟩
  refine Decidable.byContradiction fun hx => ?_
  obtain ⟨d, hd, hfail, -⟩ := h.blocked_of_not_started hg ho hc hk hx
  exact hfail (hall d hd)

/-- **Induction along the edges.** The nodes that were not started are the transitive successors of
those that were started and failed: following the blocking dependencies back ends at such a node. -/
theorem not_started_iff {k : String} (hk : k ∈ g.plan.keys) :
    ¬ w.Started k ↔ ∃ f, w.Started f ∧ ¬ w.Succeeded f ∧
      Relation.TransGen (fun a b => (a, b) ∈ g.edges) f k := by
  constructor
  · refine hg.induct (P := fun k => k ∈ g.plan.keys → ¬ w.Started k → ∃ f, w.Started f ∧
      ¬ w.Succeeded f ∧ Relation.TransGen (fun a b => (a, b) ∈ g.edges) f k)
      (fun k ih hk hx => ?_) hk hk
    obtain ⟨d, hd, hfail, -⟩ := h.blocked_of_not_started hg ho hc hk hx
    have he := Graph.mem_dependencies.mp hd
    by_cases hdx : w.Started d
    · exact ⟨d, hdx, hfail, .single he⟩
    · obtain ⟨f, hf, hff, hfd⟩ := ih d (Edges.mem_before.mpr he) (hg.mem_keys_of_edge he).1 hdx
      exact ⟨f, hf, hff, hfd.tail he⟩
  · rintro ⟨f, hf, hff, hfk⟩
    induction hfk with
    | single he =>
      intro hx
      exact hff (h.succeeded_of_started hk hx (Graph.mem_dependencies.mpr he))
    | tail hab he ih =>
      intro hx
      have hb := h.succeeded_of_started hk hx (Graph.mem_dependencies.mpr he)
      exact ih (hg.mem_keys_of_edge he).1 hb.started

end

/-- Between two points of a walk nothing happens to what a started node depends on: its dependencies
have their results at the first point. -/
theorem settled_of_started (h : Inv setup g run₀ v decided entries)
    (h' : Inv setup g run₀ w (decided ++ ds) (entries ++ es))
    (hes : ∀ d ∈ decided.map Prod.fst, Entry.about d es = []) {k : String}
    (hk : k ∈ g.plan.keys) (hx : v.Started k) {d : String} (hd : d ∈ g.dependencies k) :
    v.run.known.get? d = w.run.known.get? d ∧ v.run.recorded.get? d = w.run.recorded.get? d ∧
      Entry.about d v.run.history = Entry.about d w.run.history := by
  have hr := h.cleared hk hx d (Graph.mem_dependencies.mp hd)
  have habout : Entry.about d (entries ++ es) = Entry.about d entries := by
    rw [Entry.about_append, hes d (List.mem_map_of_mem (f := Prod.fst) hr), List.append_nil]
  have hx := h.lives.run_extends
  have hx' := h'.lives.run_extends
  refine ⟨?_, ?_, ?_⟩
  · rw [hx.get?_known, hx'.get?_known, habout]
  · rw [hx.get?_recorded, hx'.get?_recorded, habout]
  · rw [hx.history, hx'.history, Entry.about_append, Entry.about_append, habout]

end Inv

/-- **Main result.** At the end of a walk that was not cancelled, a node was started if and only if
all its dependencies succeeded. It was started after they had ended and committed: whenever it is
started they have succeeded, and what is known and told of them is final. Nothing happens to any
other node, and the summary says that it is blocked by a dependency that did not succeed. These
nodes are the transitive successors of those that were started and failed. -/
theorem failures_isolated {op : Operation} {p : Plan} (hb : Graph.build op p = .ok g) {run : Run σ}
    {cs : List Choice} (hw : (start g run .empty).steps? setup g jobs cs = some w)
    (ho : w.isOver = true) (hc : w.run.cancelled = false) {k : String} (hk : k ∈ p.keys) :
    (w.Started k ↔ ∀ d ∈ g.dependencies k, w.Succeeded d) ∧
    (∀ cs₁ cs₂ v, cs = cs₁ ++ cs₂ → (start g run .empty).steps? setup g jobs cs₁ = some v →
      v.Started k → ∀ d ∈ g.dependencies k, v.Succeeded d ∧
        v.run.known.get? d = w.run.known.get? d ∧ v.run.recorded.get? d = w.run.recorded.get? d ∧
        Entry.about d v.run.history = Entry.about d w.run.history) ∧
    (¬ w.Started k → w.run.known.get? k = run.known.get? k ∧
      w.run.recorded.get? k = run.recorded.get? k ∧
      ∃ d ∈ g.dependencies k, ¬ w.Succeeded d ∧ w.summary.failure? k = some (.blockedBy d) ∧
        Entry.about k w.run.history =
          Entry.about k run.history ++ [.emitted ⟨k, .skipped, some (.blockedBy d)⟩]) ∧
    (¬ w.Started k ↔ ∃ f, w.Started f ∧ ¬ w.Succeeded f ∧
      Relation.TransGen (fun a b => (a, b) ∈ g.edges) f k) ∧
    (w.Succeeded k ↔ w.summary.failure? k = none) := by
  obtain ⟨hg, -, rfl⟩ := Graph.build_sound hb
  obtain ⟨decided, entries, h⟩ := Inv.of_steps hg hw
  refine ⟨h.started_iff hg ho hc hk, ?_, fun hx => ?_, h.not_started_iff hg ho hc hk,
    h.succeeded_iff_failure? hg ho hk⟩
  · rintro cs₁ cs₂ v rfl hv hx d hd
    obtain ⟨v', hv', hw'⟩ := steps?_append cs₁ cs₂ hw
    obtain rfl : v = v' := Option.some.inj (hv.symm.trans hv')
    obtain ⟨decided, entries, h⟩ := Inv.of_steps hg hv
    obtain ⟨ds, es, h', hes⟩ := h.steps hg hw'
    exact ⟨h.succeeded_of_started hk hx hd, h.settled_of_started h' hes hk hx hd⟩
  · obtain ⟨d, hd, hfail, hstatus, habout⟩ := h.blocked_of_not_started hg ho hc hk hx
    have hx := h.lives.run_extends
    refine ⟨?_, ?_, d, hd, hfail, hstatus, ?_⟩
    · rw [hx.get?_known, habout]
      rfl
    · rw [hx.get?_recorded, habout]
      rfl
    · rw [hx.history, Entry.about_append, habout]

/-! ## A walk with a failure -/

/-- Resources `b` and `d` wait for `a`, and `c` waits for `b`. -/
def fork : Plan :=
  [⟨⟨"a", "Local", [], []⟩, .create⟩, ⟨⟨"b", "Local", [], ["a"]⟩, .create⟩,
    ⟨⟨"c", "Local", [], ["b"]⟩, .create⟩, ⟨⟨"d", "Local", [], ["a"]⟩, .create⟩]

/-- The graph of `fork`. -/
def forkGraph : Graph := ⟨.apply, fork, [("a", "b"), ("b", "c"), ("a", "d")], ["a", "d", "b", "c"]⟩

/-- The backend breaks down at `b`. -/
def forkSetup : Setup Unit :=
  .replying (fun _ r => if r.id = "b" then .brokeDown else .returned r) .apply .empty []

/-- Two workers are on `b` and `d` at once, and `d` ends first. -/
def forkSteps : List Choice :=
  [.tell "a", .leave, .take "a", .begin "a", .finish "a", .receive "a", .tell "b", .tell "d",
    .leave, .take "b", .take "d", .begin "b", .begin "d", .finish "d", .finish "b", .receive "d",
    .leave, .receive "b", .tell "c", .leave, .leave]

theorem failures_isolated_fork :
    ∃ w, (start forkGraph (.ofState default) .empty).steps? forkSetup forkGraph 2 forkSteps =
      some w ∧ w.isOver = true ∧ w.run.cancelled = false ∧ ¬ w.Started "c" ∧
      ∃ f, w.Started f ∧ ¬ w.Succeeded f ∧
        Relation.TransGen (fun a b => (a, b) ∈ forkGraph.edges) f "c" := by
  have hb : Graph.build .apply fork = .ok forkGraph := rfl
  have hw : (start forkGraph (.ofState default) .empty).steps? forkSetup forkGraph 2 forkSteps =
    some _ := rfl
  refine ⟨_, hw, rfl, rfl, by decide, ?_⟩
  have h := failures_isolated hb hw rfl rfl (k := "c") (by decide)
  exact h.2.2.2.1.mp (by decide)

end Walk

end Provision
