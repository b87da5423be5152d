import Provision.Proofs.Walk.Calls
import Provision.Proofs.Walk.Isolation
import Provision.Proofs.Walk.Progress

/-!
# Every node is accounted for

* `Walk.Step.awaited_add_count`: the count of a node falls by one each time that it is told of a
  departure, and never below zero.
* `Walk.Accounted`: what becomes of one node by the end of a walk.
* `Walk.ends_accounted`: every walk ends, and then each node was told of all that it waited for,
  was executed or skipped once, reported its end once, made the one call that it intended, and
  stands in the summary once.
-/

namespace Provision

namespace Entry

/-- Whether an entry reports the end of an execution, or that there was none. -/
def isEnd : Entry → Bool
  | .emitted e => e.phase ≠ .started
  | _ => false

end Entry

namespace Change

variable {σ : Type} {setup : Setup σ} {known : Index} {c : Change} {es : List Entry}

theorem isEnd_ending (setup : Setup σ) (c : Change) (r : Except Status Unit) :
    (Entry.emitted (c.ending setup r)).isEnd = true := by
  cases r with
  | ok u => cases h : c.isNoop setup <;> simp [ending, Entry.isEnd, h]
  | error s => rfl

theorem Earned.countP_isEnd {m : Mutation} (h : c.Earned setup known es m) :
    es.countP Entry.isEnd = 0 := by
  cases h <;> rfl

/-- An execution reports its end once: `Change.ending` stands last in each way that `Ended` lists,
and nothing before it is an end. -/
theorem Ended.countP_isEnd {state : NodeState} {r : Except Status Unit}
    (h : c.Ended setup known state r es) : es.countP Entry.isEnd = 1 := by
  cases h with
  | unfit | absent => rw [List.countP_singleton, isEnd_ending, if_pos rfl]
  | committed he | uncommitted he =>
    rw [List.countP_append, he.countP_isEnd, List.countP_cons_of_neg Bool.false_ne_true,
      List.countP_singleton, isEnd_ending, if_pos rfl]
  | refused | brokeDown => rfl

end Change

namespace Walk

variable {σ : Type} {setup : Setup σ} {g : Graph} {jobs : Nat} {w w' : Walk σ} {ch : Choice}
  {decided ds : List (String × Except Status Unit)} {run₀ : Run σ} {entries : List Entry}
  {cs : List Choice} {k : String}

/-! ## Counts -/

private theorem count_tell_add {key : String} {n m : Nat} (ha : w.awaited.get? key = some n)
    (hn : 0 < n) (hm : m =
      if k = key then (w.awaited.get? k).getD 0 - 1 else (w.awaited.get? k).getD 0) :
    [Choice.tell key].count (.tell k) + m = (w.awaited.get? k).getD 0 := by
  rw [hm]
  by_cases hk : k = key
  · subst hk
    rw [if_pos rfl, ha, List.count_singleton_self, Option.getD_some]
    omega
  · simp [hk, Ne.symm hk]

/-- **Step.** `Walk.awaited` and the choices `tell k` make up for each other: the count falls by one
with each, and with nothing else. -/
theorem Step.awaited_add_count (h : Scheduled g w decided) (hst : Step setup g jobs w ch w' ds)
    (k : String) :
    [ch].count (.tell k) + (w'.awaited.get? k).getD 0 = (w.awaited.get? k).getD 0 := by
  cases hst with
  | idle hd hk ha =>
    obtain ⟨n, hn, -⟩ := h.awaited_of_untold (hd ▸ List.mem_cons_self) hk
    rw [ha] at hn
    cases hn
  | countDown hd hk ha hn =>
    exact count_tell_add ha (h.positive _ _ ha) ((h.awaited_insert ha hn).1 k)
  | enqueue hd hk ha hn | skip hd hk ha hn =>
    exact count_tell_add ha (h.positive _ _ ha) ((h.awaited_erase ha hn).1 k)
  | leave | takeCancelled | takeAgain | takeUp | beginOver | beginCall | finishOver | finishBroken
  | receive | cancel => exact Nat.zero_add _

/-- **Run.** At any time a node was told of just the departures that it no longer counts. -/
theorem Inv.count_tell (hg : g.Sound) {run : Run σ}
    (hw : (Walk.start g run .empty).steps? setup g jobs cs = some w) (hk : k ∈ g.plan.keys) :
    cs.count (.tell k) + (w.awaited.get? k).getD 0 = awaitedAt g k := by
  have hstart : [].count (Choice.tell k) +
      ((Walk.start g run .empty).awaited.get? k).getD 0 = awaitedAt g k := by
    rw [Scheduled.get?_start hg, if_pos hk]
    exact Nat.zero_add _
  obtain ⟨-, -, -, hcount⟩ := (Inv.start hg run).induct hg
    (P := fun cs w _ => cs.count (.tell k) + (w.awaited.get? k).getD 0 = awaitedAt g k)
    (fun h hst _ _ hP => by
      rw [List.count_append, Nat.add_assoc, hst.awaited_add_count h.scheduled, hP]) [] hstart hw
  exact hcount

/-- By `decided_perm` the decided nodes are all of the plan, which leaves none to be active. -/
theorem Scheduled.active_of_isOver (hg : g.Sound) (h : Scheduled g w decided)
    (ho : w.isOver = true) : w.active = [] := by
  have hlen := h.placed.length_eq
  rw [List.length_append, (h.decided_perm hg ho).length_eq] at hlen
  exact List.length_eq_zero_iff.mp (by omega)

theorem Scheduled.awaited_of_isOver (hg : g.Sound) (h : Scheduled g w decided)
    (ho : w.isOver = true) (k : String) : w.awaited.get? k = none := by
  refine Option.eq_none_iff_forall_ne_some.mpr fun n hn => ?_
  have hm : k ∈ w.active := List.mem_append_left _ (Keyed.mem_keys.mpr ⟨n, hn⟩)
  rw [h.active_of_isOver hg ho] at hm
  cases hm

/-! ## Nodes -/

theorem Withheld.isSkip {cancelled : Bool} {s : Status} (h : Withheld g decided cancelled k s) :
    s.kind.isSkip = true := by
  cases h <;> rfl

/-- What becomes of the node of `c` in a walk from `run` by the choices `cs`, with `es` added to the
history. -/
structure Accounted (setup : Setup σ) (g : Graph) (jobs : Nat) (run : Run σ) (cs : List Choice)
    (w : Walk σ) (es : List Entry) (c : Change) : Prop where
  /-- It was told of every departure that it waited for. -/
  told : cs.count (.tell c.key) = awaitedAt g c.key
  begun : cs.count (.begin c.key) = if w.Started c.key then 1 else 0
  ended : (Entry.about c.key es).countP Entry.isEnd = 1
  skipped : ¬ w.Started c.key → Entry.calls c.key es = [] ∧
    ∃ s, s.kind.isSkip = true ∧ w.summary.failure? c.key = some s
  /-- It made the call that it intended when it was started, if it came to that. -/
  called : ∀ cs₁ cs₂ v, cs = cs₁ ++ .begin c.key :: cs₂ →
    (Walk.start g run .empty).steps? setup g jobs cs₁ = some v →
    Entry.calls c.key es = c.calls setup v.run.known
  answered : Entry.answers c.key es = Entry.calls c.key es
  unchanged : c.action = .unchanged → setup.operation ≠ .refresh → Entry.calls c.key es = []

namespace Inv

/-- In the end a node was executed, and `Choice.begin` was taken for it once, or it was skipped and
that was never taken. -/
theorem begun_of_isOver (hg : g.Sound) {run : Run σ}
    (hw : (Walk.start g run .empty).steps? setup g jobs cs = some w) (ho : w.isOver = true)
    (hk : k ∈ g.plan.keys) :
    (w.Started k ∧ cs.count (.begin k) = 1) ∨ (¬ w.Started k ∧ cs.count (.begin k) = 0) := by
  obtain ⟨decided, entries, h⟩ := of_steps hg hw
  obtain ⟨r, hr⟩ := h.exists_result hg ho hk
  rw [count_begin hg hw]
  rcases (h.story hr).of_ended with ⟨c, known, -, -, he, -⟩ | ⟨s, -, -, hs, -⟩
  · refine .inl ⟨he.state_ne.1, ?_⟩
    obtain ⟨hpending, hresolving⟩ := he.state_ne
    cases hs : w.stateOf k with
    | pending => exact absurd hs hpending
    | resolving => exact absurd hs hresolving
    | executing | succeeded | failed => rfl
  · refine .inr ⟨fun hx => hx hs, ?_⟩
    rw [hs]
    rfl

/-- By the end of a walk every node is `Accounted`: its `Story` gives the entries, and
`Inv.count_tell` and `Inv.count_begin` give the choices. -/
theorem accounted (hg : g.Sound) {run : Run σ}
    (hw : (Walk.start g run .empty).steps? setup g jobs cs = some w) (ho : w.isOver = true)
    (h : Inv setup g run w decided entries) {c : Change} (hc : c ∈ g.plan) :
    Accounted setup g jobs run cs w entries c := by
  have hf : g.find? c.key = some c := Plan.find?_of_mem hg.keys_nodup hc
  have hk : c.key ∈ g.plan.keys := List.mem_map_of_mem hc
  obtain ⟨r, hr⟩ := h.exists_result hg ho hk
  have hstory := (h.story hr).of_ended
  refine ⟨?_, ?_, ?_, fun hx => ?_, ?_, ?_, fun ha hop => ?_⟩
  · have hcount := count_tell hg hw hk
    rwa [h.scheduled.awaited_of_isOver hg ho] at hcount
  · rcases begun_of_isOver hg hw ho hk with ⟨hx, hcount⟩ | ⟨hx, hcount⟩
    · rw [hcount, if_pos hx]
    · rw [hcount, if_neg hx]
  · rcases hstory with ⟨c', known, -, -, he, -⟩ | ⟨s, -, -, -, habout⟩
    · exact he.countP_isEnd
    · rw [habout]
      rfl
  · rcases hstory with ⟨c', known, -, -, he, -⟩ | ⟨s, rfl, hs, -, habout⟩
    · exact absurd he.state_ne.1 hx
    · refine ⟨?_, s, hs.isSkip, (h.failure?_eq_some_iff hg).mpr hr⟩
      rw [← Entry.calls_about, habout]
      rfl
  · -- Steps are determined by the choices, so `v` is where the walk was as the node was begun.
    rintro cs₁ cs₂ v rfl hv
    obtain ⟨v', hv', hw'⟩ := steps?_append cs₁ _ hw
    obtain rfl : v = v' := Option.some.inj (hv.symm.trans hv')
    exact calls_eq hg hv hw' hf h.lives.run_extends.history
  · rw [← Entry.answers_about, ← Entry.calls_about]
    rcases hstory with ⟨c', known, hf', -, he, -⟩ | ⟨s, -, -, -, habout⟩
    · obtain rfl := Option.some.inj (hf'.symm.trans hf)
      rw [he.answers_eq, he.calls_eq]
    · rw [habout]
      rfl
  · rw [← Entry.calls_about]
    rcases hstory with ⟨c', known, hf', -, he, -⟩ | ⟨s, -, -, -, habout⟩
    · obtain rfl := Option.some.inj (hf'.symm.trans hf)
      rw [he.calls_eq, Change.calls_of_unchanged ha hop]
    · rw [habout]
      rfl

end Inv

/-- **Main result.** Every walk ends: apart from cancellations it takes no more steps than six for
each node and one for each edge, and one more; until it is over it can go on, and whichever node is
to be told next still counts departures. Once it is over, the summary `Accounts` for the plan, and
every node is `Accounted`. -/
theorem ends_accounted {op : Operation} {p : Plan} (hb : Graph.build op p = .ok g)
    (hop : setup.operation = op) {run : Run σ}
    (hw : (start g run .empty).steps? setup g jobs cs = some w) :
    cs.countP (· ≠ .cancel) ≤ 6 * p.length + g.edges.length + 1 ∧
    (∀ d ∈ w.departures, ∀ k ∈ d.untold, ∃ n, w.awaited.get? k = some n ∧ 0 < n) ∧
    (w.isOver = false → ∃ ch, ch ≠ .cancel ∧ (w.step? setup g jobs ch).isSome) ∧
    (w.isOver = true → w.summary.Accounts op p w.Succeeded ∧
      ∃ es, w.run.history = run.history ++ es ∧ ∀ c ∈ p, Accounted setup g jobs run cs w es c) := by
  obtain ⟨hg, -, rfl⟩ := Graph.build_sound hb
  obtain ⟨decided, entries, h⟩ := Inv.of_steps hg hw
  refine ⟨?_, fun d hd k hk => h.scheduled.awaited_of_untold hd hk, fun ho => ?_, fun ho => ?_⟩
  · have hsteps := countP_add_work_le hw
    have hstart := work_start_le hg run .empty
    unfold Graph.size at hstart
    omega
  · obtain ⟨ch, -, hc, hs⟩ := h.scheduled.exists_next setup jobs ho
    exact ⟨ch, hc, hs⟩
  · refine ⟨?_, entries, h.lives.run_extends.history, fun c hc => Inv.accounted hg hw ho h hc⟩
    exact h.scheduled.accounts hg (hop ▸ h.tallied) ho fun k r hr => h.succeeded_iff hr

theorem ends_accounted_fork :
    ∃ w, (start forkGraph (.ofState default) .empty).steps? forkSetup forkGraph 2 forkSteps =
      some w ∧ w.summary.Accounts .apply fork w.Succeeded := by
  have hb : Graph.build .apply fork = .ok forkGraph := rfl
  have hw : (start forkGraph (.ofState default) .empty).steps? forkSetup forkGraph 2 forkSteps =
    some _ := rfl
  exact ⟨_, hw, ((ends_accounted hb rfl hw).2.2.2 rfl).1⟩

end Walk

end Provision
