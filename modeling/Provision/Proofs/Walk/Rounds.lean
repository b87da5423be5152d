import Provision.Proofs.Walk.Calls
import Provision.Proofs.Walk.Isolation

/-!
# Several walks of one graph

Nodes keep their states when a graph is walked again, while the scheduler forgets what it knew. A
node that was started before is passed over, and counted as a success.

* `Walk.Rounds`: a walk of fresh nodes, or one that goes on after another walk of the same graph.
* `Walk.Course`: how far a node has come, given its state as the walk began. `Course.turn`: every
  turn keeps to it.
* `Walk.Turned.calls_add_le`, `Walk.Turned.cleared_of_called`: a step makes a call only as the
  execution of the node begins, and all that the node waits for has ended well by then.
* `Walk.Resumed`: all that a walk keeps whose nodes had any states as it began.
* `Walk.rounds_ordered`: over all walks each node makes at most one call, and its dependencies
  succeeded before, apart from those that an earlier walk has left failed or broken down.
* `Walk.rounds_disordered`: from these it is called nevertheless.
-/

namespace Provision

namespace NodeState

/-- Whether a node in this state was started and has not succeeded. -/
def isSpent : NodeState → Bool
  | .pending | .succeeded => false
  | .resolving | .executing | .failed => true

theorem ofResult_eq_succeeded_iff {r : Except Status Unit} :
    ofResult r = .succeeded ↔ r = .ok () := by
  cases r with
  | ok u => exact ⟨fun _ => rfl, fun _ => rfl⟩
  | error s => exact ⟨nofun, nofun⟩

theorem eq_succeeded_iff_of_ne_pending {state : NodeState} (h : state ≠ .pending) :
    state = .succeeded ↔ state.isSpent = false := by
  cases state with
  | pending => exact absurd rfl h
  | succeeded => exact ⟨fun _ => rfl, fun _ => rfl⟩
  | resolving | executing | failed => exact ⟨nofun, nofun⟩

end NodeState

namespace Walk

variable {σ : Type} {setup : Setup σ} {g : Graph} {jobs : Nat} {w w' : Walk σ} {ch : Choice}
  {decided ds : List (String × Except Status Unit)} {run : Run σ} {es : List Entry}
  {left : String → NodeState} {k : String}

/-! ## A node with any state -/

/-- How far the node `k` has come, which had the state `left` as the walk began: its stage and
state. -/
inductive Course (setup : Setup σ) (g : Graph) (k : String) (left : NodeState) :
    Stage → NodeState → Prop
  | waiting : Course setup g k left .waiting left
  | resolving (hl : left = .pending) : Course setup g k left .resolving .resolving
  | calling {c : Change} {known : Index} {call : Call} (hl : left = .pending)
    (hf : g.find? k = some c) (hi : c.intent setup known = .ok (.call call)) :
    Course setup g k left (.calling call) .executing
  | executed {r : Except Status Unit} {state : NodeState} (hl : left = .pending)
    (hs : state = .succeeded ↔ r = .ok ()) : Course setup g k left (.ended r) state
  | skipped {s : Status} : Course setup g k left (.ended (.error s)) left
  | passed (hl : left ≠ .pending) : Course setup g k left (.ended (.ok ())) left

namespace Course

variable {left : NodeState} {stage stage' : Stage} {state state' : NodeState}

theorem attended (h : Course setup g k left stage state) : Attended setup g k stage state := by
  cases h with
  | calling _ hf hi =>
    refine ⟨nofun, fun call he => ?_⟩
    cases he
    exact ⟨rfl, _, _, hf, hi⟩
  | resolving => exact ⟨fun _ => rfl, nofun⟩
  | waiting | executed | skipped | passed => exact ⟨nofun, nofun⟩

/-- **Step.** Every turn keeps to the `Course` of its node, from whatever state it had as the walk
began. -/
theorem turn (h : Course setup g k left stage state)
    (ht : Turn setup g decided run k ch stage state stage' state' es) :
    Course setup g k left stage' state' := by
  cases ht with
  | skipped =>
    cases h
    exact .skipped
  | passed hs =>
    cases h
    exact .passed hs
  | taken =>
    cases h
    exact .resolving rfl
  | uncalled =>
    cases h with
    | resolving hl => exact .executed hl NodeState.ofResult_eq_succeeded_iff
  | called hf hi =>
    cases h with
    | resolving hl => exact .calling hl hf hi
  | answered =>
    cases h with
    | calling hl => exact .executed hl NodeState.ofResult_eq_succeeded_iff
  | brokeDown =>
    cases h with
    | calling hl => exact .executed hl ⟨nofun, nofun⟩

/-- A node with a good result has succeeded, unless it was spent as the walk began: `Course.passed`
gives the result without looking at the state. -/
theorem succeeded_iff (h : Course setup g k left (.ended (.ok ())) state) :
    state = .succeeded ↔ left.isSpent = false := by
  cases h with
  | executed hl hs =>
    rw [hs, hl]
    exact ⟨fun _ => rfl, fun _ => rfl⟩
  | passed hl => exact NodeState.eq_succeeded_iff_of_ne_pending hl

end Course

/-! ## Calls of a step -/

theorem Adds.length_calls_le {known : Index} (h : Adds setup g known (.begin k) es) :
    (Entry.calls k es).length ≤ 1 := by
  obtain ⟨c, hc⟩ : ∃ c, g.find? k = some c := by
    cases h with
    | nothing hn | told hn => exact absurd rfl (hn k)
    | ended hf | called hf => exact ⟨_, hf⟩
  rw [h.calls_of_begin hc]
  unfold Change.calls
  split
  · exact Nat.le_refl _
  · exact Nat.zero_le _

theorem Turn.ne_waiting_of_called {stage stage' : Stage} {state state' : NodeState}
    (h : Turn setup g decided run k ch stage state stage' state' es) {call : Call}
    (hc : .called k call ∈ es) : stage ≠ .waiting := by
  cases h with
  | skipped =>
    cases List.mem_singleton.mp hc
  | passed | taken => cases hc
  | uncalled | called | answered | brokeDown => exact nofun

namespace Turned

variable (h : Turned setup g w w' ch decided ds es)
  (ha : ∀ {k stage}, (k, stage) ∈ w.places decided → Attended setup g k stage (w.stateOf k))

include h ha

/-- **Step.** Each call of a node is paid for by `NodeState.hasBegun`, which no later walk takes
back. -/
theorem calls_add_le (k : String) : (Entry.calls k es).length + (w.stateOf k).hasBegun.toNat ≤
    (w'.stateOf k).hasBegun.toNat := by
  have hadds := h.adds ha
  rcases h.hasBegun_cases ha k with ⟨rfl, hn, hb⟩ | ⟨hch, hsame⟩
  · rw [hn, hb]
    exact hadds.length_calls_le
  · rw [hadds.calls_of_ne_begin hch, hsame]
    exact Nat.le_of_eq (Nat.zero_add _)

/-- A call is made for a node only when all that it waits for has ended well, in this walk at
least. -/
theorem cleared_of_called (hgd : Guarded g w decided) {call : Call} (hc : .called k call ∈ es) :
    ∀ p, (p, k) ∈ g.edges → (p, .ok ()) ∈ decided := by
  cases h with
  | stays => cases hc
  | moves hm ht =>
    obtain rfl := ht.key (ha hm.source) _ hc
    exact hgd.cleared_of_place hm.source (ht.ne_waiting_of_called hc) ht.not_ended

end Turned

/-! ## A walk of any states -/

/-- All that a walk keeps whose nodes had the states `left` as it began. -/
structure Resumed (setup : Setup σ) (g : Graph) (left : String → NodeState) (w : Walk σ)
    (decided : List (String × Except Status Unit)) : Prop where
  scheduled : Scheduled g w decided
  guarded : Guarded g w decided
  tallied : w.summary = g.tally setup.operation decided
  course : ∀ k stage, (k, stage) ∈ w.places decided →
    Course setup g k (left k) stage (w.stateOf k)

namespace Resumed

theorem start (hg : g.Sound) (run : Run σ) (states : Keyed NodeState) :
    Resumed setup g (start g run states).stateOf (start g run states) [] where
  scheduled := .start hg run states
  guarded := .start run states
  tallied := rfl
  course k stage hp := by
    obtain rfl := eq_waiting_of_mem_start hp
    exact .waiting

theorem attended (h : Resumed setup g left w decided) {stage : Stage}
    (hk : (k, stage) ∈ w.places decided) : Attended setup g k stage (w.stateOf k) :=
  (h.course k stage hk).attended

/-- **Step.** The schedule, the tally and the course of every node are kept. -/
theorem step (hg : g.Sound) (h : Resumed setup g left w decided)
    (hst : Step setup g jobs w ch w' ds) :
    ∃ es, Turned setup g w w' ch decided ds es ∧ Resumed setup g left w' (decided ++ ds) := by
  have hs' := h.scheduled.step hg hst
  obtain ⟨es, ht⟩ := hst.turn h.scheduled h.guarded
  refine ⟨es, ht, hs', h.guarded.step hg h.scheduled hst, hst.summary_eq h.tallied,
    fun k stage hk => ?_⟩
  cases ht with
  | stays hm =>
    rw [hm.states k]
    exact h.course k stage (hm.places k stage hk)
  | @moves key _ _ _ hm ht =>
    by_cases hke : k = key
    · subst hke
      rw [hs'.stage_unique hg hk hm.target]
      exact (h.course k _ hm.source).turn ht
    · rw [hm.states k hke]
      exact h.course k stage (hm.places k hke stage hk)

/-- `Course.succeeded_iff` for the results that the scheduler knows. -/
theorem succeeded_iff (h : Resumed setup g left w decided) (hk : (k, .ok ()) ∈ decided) :
    w.Succeeded k ↔ (left k).isSpent = false :=
  (h.course k _ (ended_mem (.inr hk))).succeeded_iff

end Resumed

/-! ## Walks after each other -/

/-- A walk of fresh nodes from `run`, or one that goes on after such a walk is over, with the run
and the states that it has left. As it began, the nodes had the states `left`. -/
inductive Rounds (setup : Setup σ) (g : Graph) (run : Run σ) : (String → NodeState) → Walk σ → Prop
  | first : Rounds setup g run (fun _ => .pending) (start g run .empty)
  | step {left : String → NodeState} {w w' : Walk σ} {jobs : Nat} {ch : Choice}
    (h : Rounds setup g run left w) (hw : w.step? setup g jobs ch = some w') :
    Rounds setup g run left w'
  | again {left : String → NodeState} {w : Walk σ} (h : Rounds setup g run left w)
    (ho : w.isOver = true) : Rounds setup g run w.stateOf (start g w.run w.states)

namespace Rounds

theorem steps (h : Rounds setup g run left w) {cs : List Choice}
    (hw : w.steps? setup g jobs cs = some w') : Rounds setup g run left w' := by
  induction cs generalizing w with
  | nil =>
    cases hw
    exact h
  | cons ch cs ih =>
    obtain ⟨v, hv, hw⟩ := Option.bind_eq_some_iff.mp hw
    exact ih (h.step hv) hw

/-- **Run.** Over all walks a node makes at most one call, once its execution has begun.
`Rounds.again` starts the schedule anew and leaves history and states as they are. -/
theorem resumed (hg : g.Sound) (h : Rounds setup g run left w) :
    ∃ decided es, Resumed setup g left w decided ∧ Run.Extends run w.run es ∧
      ∀ k, (Entry.calls k es).length ≤ (w.stateOf k).hasBegun.toNat := by
  induction h with
  | first => exact ⟨[], [], .start hg run .empty, .refl run, fun k => Nat.zero_le _⟩
  | step h hw ih =>
    obtain ⟨decided, es, hr, hx, hcalls⟩ := ih
    obtain ⟨ds, hst⟩ := step_of_step? hw
    obtain ⟨es', ht, hr'⟩ := hr.step hg hst
    refine ⟨_, _, hr', hx.trans ht.run_extends, fun k => ?_⟩
    -- The calls so far and those of this step, against whether the execution had begun before.
    rw [Entry.calls_append, List.length_append, Nat.add_comm]
    exact Nat.le_trans (Nat.add_le_add_left (hcalls k) _) (ht.calls_add_le hr.attended k)
  | @again _ w h ho ih =>
    obtain ⟨decided, es, hr, hx, hcalls⟩ := ih
    exact ⟨[], es, .start hg w.run w.states, hx, hcalls⟩

end Rounds

/-- **Main result.** Over any number of walks of one graph each node makes at most one call. When it
makes a call, a dependency has succeeded if and only if no earlier walk has left it spent
(`NodeState.isSpent`); and so it is with the nodes that a walk counts as successes. -/
theorem rounds_ordered {op : Operation} {p : Plan} (hb : Graph.build op p = .ok g)
    (h : Rounds setup g run left w) :
    (∃ es, w.run.history = run.history ++ es ∧ ∀ k, (Entry.calls k es).length ≤ 1) ∧
    (∀ jobs ch w' es k call, w.step? setup g jobs ch = some w' →
      w'.run.history = w.run.history ++ es → .called k call ∈ es →
      ∀ d ∈ g.dependencies k, w.Succeeded d ↔ (left d).isSpent = false) ∧
    (w.isOver = true →
      w.summary.Accounts setup.operation p (fun k => w.summary.failure? k = none) ∧
      ∀ k ∈ p.keys, w.summary.failure? k = none →
        (w.Succeeded k ↔ (left k).isSpent = false)) := by
  obtain ⟨hg, -, rfl⟩ := Graph.build_sound hb
  obtain ⟨decided, es, hr, hx, hcalls⟩ := h.resumed hg
  refine ⟨⟨es, hx.history, fun k => Nat.le_trans (hcalls k) (Bool.toNat_le _)⟩, ?_, fun ho => ?_⟩
  · intro jobs ch w' es' k call hw hh hc d hd
    obtain ⟨ds, hst⟩ := step_of_step? hw
    obtain ⟨es₁, ht, -⟩ := hr.step hg hst
    obtain rfl : es' = es₁ := List.append_cancel_left (hh.symm.trans ht.run_extends.history)
    exact hr.succeeded_iff (ht.cleared_of_called hr.attended hr.guarded hc d
      (Graph.mem_dependencies.mp hd))
  · refine ⟨hr.scheduled.accounts hg hr.tallied ho fun k r hkr => ?_, fun k hk hn => ?_⟩
    · exact hr.scheduled.failure?_eq_none_iff hg hr.tallied hkr
    · obtain ⟨r, hkr⟩ := hr.scheduled.exists_result_of_isOver hg ho hk
      obtain rfl := (hr.scheduled.failure?_eq_none_iff hg hr.tallied hkr).mp hn
      exact hr.succeeded_iff hkr

/-! ## Two walks of two nodes -/

/-- Resource `b` waits for `a`. -/
def couple : Plan :=
  [⟨⟨"a", "Local", [], []⟩, .create⟩, ⟨⟨"b", "Local", [], ["a"]⟩, .create⟩]

/-- The graph of `couple`. -/
def coupleGraph : Graph := ⟨.apply, couple, [("a", "b")], ["a", "b"]⟩

/-- The backend returns `b`, and answers for `a` as given. -/
def coupleSetup (answer : Resource → Reply Resource) : Setup Unit :=
  .replying (fun _ r => if r.id = "a" then answer r else .returned r) .apply .empty []

/-- There is no room for `a`. -/
def noRoom : Resource → Reply Resource := fun _ => .refused ⟨.backendFailure, "quota exceeded"⟩

/-- Two walks of `couple`, by the choices `cs` and then `cs'`. -/
def coupleWalks (answer : Resource → Reply Resource) (cs cs' : List Choice) :
    Option (Walk Unit × Walk Unit) := do
  let v ← (start coupleGraph (.ofState default) .empty).steps? (coupleSetup answer) coupleGraph 1 cs
  if v.isOver then
    let w ← (start coupleGraph v.run v.states).steps? (coupleSetup answer) coupleGraph 1 cs'
    return (v, w)
  else none

theorem rounds_of_coupleWalks {answer : Resource → Reply Resource} {cs cs' : List Choice}
    {v w : Walk Unit} (h : coupleWalks answer cs cs' = some (v, w)) :
    Rounds (coupleSetup answer) coupleGraph (.ofState default) v.stateOf w := by
  obtain ⟨v', hv, h⟩ := Option.bind_eq_some_iff.mp h
  split at h
  · next ho =>
    obtain ⟨w', hw, h⟩ := Option.bind_eq_some_iff.mp h
    cases h
    exact ((Rounds.first.steps hv).again ho).steps hw
  · cases h

/-- If both nodes succeed, the second walk passes over them and counts them once more. -/
theorem rounds_ordered_couple :
    ∃ left w, Rounds (coupleSetup .returned) coupleGraph (.ofState default) left w ∧
      w.isOver = true ∧ w.summary.failure? "a" = none ∧ left "a" = .succeeded ∧
      w.Succeeded "a" := by
  have hb : Graph.build .apply couple = .ok coupleGraph := rfl
  have hend : (coupleWalks .returned
      [.tell "a", .leave, .take "a", .begin "a", .finish "a", .receive "a", .tell "b", .leave,
        .take "b", .begin "b", .finish "b", .receive "b", .leave]
      [.tell "a", .leave, .take "a", .receive "a", .tell "b", .leave, .take "b", .receive "b",
        .leave]).any fun (v, w) => w.isOver && w.summary.failure? "a" == none &&
          v.stateOf "a" == .succeeded := by
    decide +kernel
  obtain ⟨⟨v, w⟩, hw, hend⟩ := (Option.any_eq_true _ _).mp hend
  simp only [Bool.and_eq_true, beq_iff_eq] at hend
  obtain ⟨⟨ho, hn⟩, hleft⟩ := hend
  have h := rounds_of_coupleWalks hw
  obtain ⟨-, -, hcounted⟩ := rounds_ordered hb h
  have hs := ((hcounted ho).2 "a" (by decide) hn).mpr (by rw [hleft]; rfl)
  exact ⟨_, w, h, ho, hn, hleft, hs⟩

/-- With spent nodes the order is lost: a second walk passes over `a`, which has failed, counts it
as a success and goes on with the call of `b`. -/
theorem rounds_disordered :
    ¬ ∀ (op : Operation) (p : Plan) (g : Graph) (setup : Setup Unit) (run : Run Unit)
      (left : String → NodeState) (w : Walk Unit), Graph.build op p = .ok g →
      Rounds setup g run left w →
      (∃ es, w.run.history = run.history ++ es ∧ ∀ k, (Entry.calls k es).length ≤ 1) ∧
      (∀ jobs ch w' es k call, w.step? setup g jobs ch = some w' →
        w'.run.history = w.run.history ++ es → .called k call ∈ es →
        ∀ d ∈ g.dependencies k, w.Succeeded d) ∧
      (w.isOver = true → ∀ k ∈ p.keys, w.summary.failure? k = none → w.Succeeded k) := by
  intro h
  have hend : (coupleWalks noRoom
      [.tell "a", .leave, .take "a", .begin "a", .finish "a", .receive "a", .tell "b", .leave,
        .leave]
      [.tell "a", .leave, .take "a", .receive "a", .tell "b", .leave, .take "b"]).any fun (_, w) =>
        !decide (w.Succeeded "a") &&
        (w.step? (coupleSetup noRoom) coupleGraph 1 (.begin "b")).any fun w' =>
          w'.run.history == w.run.history ++ [.emitted ⟨"b", .started, none⟩,
            .called "b" (.apply none ⟨"b", "Local", [], ["a"]⟩)] := by
    decide +kernel
  obtain ⟨⟨v, w⟩, hw, hend⟩ := (Option.any_eq_true _ _).mp hend
  obtain ⟨hfailed, hcall⟩ := Bool.and_eq_true_iff.mp hend
  obtain ⟨w', hw', hh⟩ := (Option.any_eq_true _ _).mp hcall
  have hdep : "a" ∈ coupleGraph.dependencies "b" := Graph.mem_dependencies.mpr (by decide)
  obtain ⟨-, hcalls, -⟩ := h .apply couple coupleGraph _ _ _ w rfl (rounds_of_coupleWalks hw)
  have hs := hcalls 1 (.begin "b") w' _ "b" _ hw' (beq_iff_eq.mp hh)
    (List.mem_cons_of_mem _ (List.mem_singleton_self _)) "a" hdep
  rw [decide_eq_true hs] at hfailed
  cases hfailed

end Walk

end Provision
