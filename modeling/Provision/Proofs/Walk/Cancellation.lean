import Provision.Proofs.Walk.Progress
import Provision.Proofs.Walk.Recorded

/-!
# Cancellation

A run that is cancelled starts no more nodes. Those that were started are brought to their end, and
what they store is kept; those that waited are reported as not started.

* `Walk.WindsDown`: what a walk can still come to once its run is cancelled. `WindsDown.step`: every
  turn keeps to it, and `Inv.windsDown`: so does every walk.
* `Walk.Untouched`, `Walk.Concluded`: what is left of a node that was never started, and of one
  that was executed.
* `Walk.cancelled_concludes`: at whatever point the run is cancelled, the walk comes to its end, and
  leaves every node untouched or concluded.
-/

namespace Provision

/-- `Entry.stored` stands only in the history of an execution that succeeded, and what it stored is
the outcome. -/
theorem Change.Ended.of_stored {σ : Type} {setup : Setup σ} {known : Index} {c : Change}
    {state : NodeState} {r : Except Status Unit} {es : List Entry}
    (h : c.Ended setup known state r es) {k : String} {m : Mutation} {s : State}
    (hm : .stored k m s ∈ es) :
    state = .succeeded ∧ r = .ok () ∧ ∀ x, Entry.outcome es x = m.resource? := by
  have hs := Entry.mem_snapshots_of_stored hm
  cases h with
  | unfit | absent | refused | brokeDown => cases hs
  | uncommitted he =>
    rw [Entry.snapshots_append, he.snapshots_eq] at hs
    cases hs
  | committed he =>
    rcases List.mem_append.mp hm with hm | hm
    · have hs := Entry.mem_snapshots_of_stored hm
      rw [he.snapshots_eq] at hs
      cases hs
    · simp only [List.mem_cons, Entry.stored.injEq, List.not_mem_nil, or_false, reduceCtorEq] at hm
      obtain ⟨-, rfl, -⟩ := hm
      refine ⟨rfl, rfl, fun x => ?_⟩
      rw [Entry.outcome_append]
      rfl

namespace Walk

variable {σ : Type} {setup : Setup σ} {g : Graph} {jobs : Nat} {v w w' : Walk σ} {ch : Choice}
  {decided ds : List (String × Except Status Unit)} {run run₀ : Run σ} {entries es : List Entry}
  {k : String}

/-! ## Turns -/

namespace Turn

variable {stage stage' : Stage} {state state' : NodeState}

theorem of_cancelled (h : Turn setup g decided run k ch .waiting state stage' state' es)
    (hc : run.cancelled = true) :
    state' = state ∧ es = [.emitted ⟨k, .skipped, some .notStarted⟩] := by
  cases h with
  | skipped _ _ hs =>
    obtain rfl := hs hc
    exact ⟨rfl, rfl⟩
  | passed _ hn | taken hn => exact absurd (hn.symm.trans hc) nofun

/-- No turn leads back to `NodeState.pending`. -/
theorem started (h : Turn setup g decided run k ch stage state stage' state' es)
    (hs : state ≠ .pending) : state' ≠ .pending := by
  cases h with
  | skipped | passed | brokeDown => exact hs
  | taken | called => exact nofun
  | @uncalled _ _ r | @answered _ _ _ r => cases r <;> exact nofun

end Turn

/-! ## Steps -/

/-- What a walk has come to from `v`, where the run was cancelled and the history told `before`:
since then no node was started, and all that is told of the others is that they were not. -/
structure WindsDown (v : Walk σ) (before : List Entry) (w : Walk σ) (entries : List Entry) :
    Prop where
  cancelled : w.run.cancelled = true
  started_iff : ∀ k, w.Started k ↔ v.Started k
  told : ∀ e ∈ entries, ¬ v.Started e.key →
    e ∈ before ∨ e = .emitted ⟨e.key, .skipped, some .notStarted⟩

theorem WindsDown.step {before : List Entry} (hd : WindsDown v before w entries)
    (h : Inv setup g run₀ w decided entries) (ht : Turned setup g w w' ch decided ds es) :
    WindsDown v before w' (entries ++ es) := by
  cases ht with
  | stays hm =>
    rw [List.append_nil]
    refine ⟨hm.run_extends.cancelled hd.cancelled, fun k => ?_, hd.told⟩
    unfold Started
    rw [hm.states k]
    exact hd.started_iff k
  | @moves key stage stage' es hm ht =>
    have hkey := ht.key (h.lives.attended hm.source)
    -- Such a node waits: of the stages that come before the end only this one is pending.
    have hwaiting : ¬ v.Started key → stage = .waiting ∧ w.stateOf key = .pending := fun hk => by
      have hs : w.stateOf key = .pending := Decidable.not_not.mp ((hd.started_iff key).not.mpr hk)
      have hstory := h.lives.story key stage hm.source
      rw [hs] at hstory
      exact ⟨hstory.waiting_of_pending ht.not_ended, hs⟩
    refine ⟨hm.run_extends.cancelled hd.cancelled, fun k => ?_, fun e he hk => ?_⟩
    · by_cases hke : k = key
      · subst hke
        refine ⟨fun hs => Decidable.byContradiction fun hk => ?_, fun hk => ?_⟩
        · obtain ⟨rfl, hpending⟩ := hwaiting hk
          exact hs ((ht.of_cancelled hd.cancelled).1.trans hpending)
        · exact ht.started ((hd.started_iff k).mpr hk)
      · unfold Started
        rw [hm.states k hke]
        exact hd.started_iff k
    · rcases List.mem_append.mp he with he | he
      · exact hd.told e he hk
      · obtain rfl := hkey e he
        obtain ⟨rfl, -⟩ := hwaiting hk
        rw [(ht.of_cancelled hd.cancelled).2] at he
        exact .inr (List.mem_singleton.mp he)

/-- **Run.** From the cancellation on, the walk satisfies `WindsDown`, by `WindsDown.step`. -/
theorem Inv.windsDown (hg : g.Sound) (h : Inv setup g run₀ v decided entries)
    (hc : v.run.cancelled = true) {cs : List Choice} (hw : v.steps? setup g jobs cs = some w) :
    ∃ ds es, Inv setup g run₀ w (decided ++ ds) (entries ++ es) ∧
      WindsDown v entries w (entries ++ es) :=
  h.induct hg (P := fun _ w es => WindsDown v entries w es)
    (fun h _ ht _ hd => hd.step h ht) []
    ⟨hc, fun _ => .rfl, fun _ he _ => .inl he⟩ hw

/-! ## Nodes -/

/-- Nothing was done for the node `k`: it made no call and stored nothing. -/
structure Untouched (run : Run σ) (w : Walk σ) (k : String) (es : List Entry) : Prop where
  pending : w.stateOf k = .pending
  told : ∀ e ∈ es, e.key = k → ∃ event, e = .emitted event
  recorded : w.run.recorded.get? k = run.recorded.get? k
  known : w.run.known.get? k = run.known.get? k

/-- The node `k` was executed to its end, whichever that was. What was stored for it is recorded,
and is part of the state that was stored last. -/
structure Concluded (setup : Setup σ) (g : Graph) (w : Walk σ) (k : String) (es : List Entry) :
    Prop where
  ended : ∃ c known r, g.find? k = some c ∧ g.Agree k known w.run.known ∧
    c.Ended setup known (w.stateOf k) r (Entry.about k es) ∧
    ∀ s, w.summary.failure? k = some s ↔ r = .error s
  stored : ∀ m s, .stored k m s ∈ es → w.Succeeded k ∧ w.summary.failure? k = none ∧
    w.run.recorded.get? k = m.resource? ∧ w.run.known.get? k = m.resource? ∧
    (Entry.snapshots es).getLast? = some w.run.state ∧
    w.run.state.resources = w.run.recorded.byId

namespace Inv

theorem untouched (h : Inv setup g run₀ w decided entries) (hk : ¬ w.Started k) :
    Untouched run₀ w k entries := by
  have hs : w.stateOf k = .pending := Decidable.not_not.mp hk
  obtain ⟨hrecorded, hknown⟩ := h.get?_of_not_succeeded fun hsucc => hk hsucc.started
  refine ⟨hs, fun e he hek => ?_, hrecorded, hknown⟩
  obtain ⟨stage, hstory⟩ := h.story_of_mem (h.lives.planned e he)
  have hm : e ∈ Entry.about e.key entries := Entry.mem_about.mpr ⟨he, rfl⟩
  rw [hek, hs] at hstory
  rw [hek] at hm
  generalize Entry.about k entries = about at hstory hm
  cases hstory with
  | waiting => cases hm
  | executed _ _ hend => exact absurd rfl hend.state_ne.1
  | skipped => exact ⟨_, List.mem_singleton.mp hm⟩

/-- A node that waited as the run was cancelled ends with `Status.notStarted`, and with no blocked
status, even if a predecessor fails later. -/
theorem about_of_windsDown (hg : g.Sound) {before : List (String × Except Status Unit)}
    {es : List Entry} (hv : Inv setup g run₀ v before es) (h : Inv setup g run₀ w decided entries)
    (hd : WindsDown v es w entries) (ho : w.isOver = true)
    (hk : k ∈ v.awaited.keys ∨ k ∈ v.queue) :
    w.summary.failure? k = some .notStarted ∧
      Entry.about k entries = [.emitted ⟨k, .skipped, some .notStarted⟩] := by
  have hplace : (k, Stage.waiting) ∈ v.places before := waiting_mem hk
  have hplanned := hv.scheduled.mem_keys (mem_active_of_place hplace nofun)
  obtain ⟨hpending, hnone⟩ := (hv.lives.story k _ hplace).of_waiting
  have hns : ¬ v.Started k := fun hs => hs hpending
  obtain ⟨r, hr⟩ := h.exists_result hg ho hplanned
  rcases (h.story hr).of_ended with ⟨c, known, -, -, hend, -⟩ | ⟨s, rfl, -, -, habout⟩
  · exact absurd ((hd.started_iff k).mp hend.state_ne.1) hns
  · have hm : .emitted ⟨k, .skipped, some s⟩ ∈ Entry.about k entries :=
      habout ▸ List.mem_singleton_self _
    rcases hd.told _ (Entry.mem_about.mp hm).1 hns with hold | hnew
    · have hm : .emitted ⟨k, .skipped, some s⟩ ∈ Entry.about k es :=
        Entry.mem_about.mpr ⟨hold, rfl⟩
      rw [hnone] at hm
      cases hm
    · -- The one entry about the node is new, and new entries say that it was not started.
      cases hnew
      exact ⟨(h.failure?_eq_some_iff hg).mpr hr, habout⟩

/-- A node that was started has ended by the end of the walk, and what was stored for it is in both
indices and in the last state. -/
theorem concluded (hg : g.Sound) (h : Inv setup g run₀ w decided entries) (ho : w.isOver = true)
    (hk : k ∈ g.plan.keys) (hs : w.Started k) : Concluded setup g w k entries := by
  obtain ⟨r, hr⟩ := h.exists_result hg ho hk
  have hx := h.lives.run_extends
  rcases (h.story hr).of_ended with ⟨c, known, hf, ha, hend, -⟩ | ⟨s, -, -, hpending, -⟩
  · refine ⟨⟨c, known, r, hf, ha, hend, fun s => ?_⟩, fun m s hm => ?_⟩
    · rw [h.failure?_eq_some_iff hg]
      exact ⟨fun hr' => h.scheduled.result_unique hg hr hr', fun he => he ▸ hr⟩
    · obtain ⟨hsucc, hok, hout⟩ := hend.of_stored (Entry.mem_about.mpr ⟨hm, rfl⟩)
      have hne := List.ne_nil_of_mem (Entry.mem_snapshots_of_stored hm)
      refine ⟨hsucc, (h.scheduled.failure?_eq_none_iff hg h.tallied hr).mpr hok, ?_, ?_, ?_,
        hx.resources hne⟩
      · rw [hx.get?_recorded]
        exact hout _
      · rw [hx.get?_known]
        exact hout _
      · rw [hx.state, List.getLastD_eq_getLast?]
        cases hlast : (Entry.snapshots entries).getLast? with
        | none => exact absurd (List.getLast?_eq_none_iff.mp hlast) hne
        | some s => rfl
  · exact absurd hpending hs

end Inv

/-- **Main result.** Once the run is cancelled the walk still comes to its end, and at any time
until then a node that was not started when it was cancelled is `Untouched`. In the end the nodes
that waited are reported as not started, whatever became of those that they waited for; and every
node that was started is `Concluded`, and counted if it succeeded. -/
theorem cancelled_concludes {op : Operation} {p : Plan} (hb : Graph.build op p = .ok g)
    {run : Run σ} {cs : List Choice} (hv : (start g run .empty).steps? setup g jobs cs = some v)
    (hc : v.run.cancelled = true) :
    (∃ cs' w, v.steps? setup g jobs cs' = some w ∧ w.isOver = true) ∧
    ∀ cs' w, v.steps? setup g jobs cs' = some w → ∃ es, w.run.history = run.history ++ es ∧
      (∀ k, ¬ v.Started k → Untouched run w k es) ∧
      (w.isOver = true →
        w.summary.Accounts setup.operation p w.Succeeded ∧
        (∀ k, k ∈ v.awaited.keys ∨ k ∈ v.queue → w.summary.failure? k = some .notStarted ∧
          Entry.about k es = [.emitted ⟨k, .skipped, some .notStarted⟩]) ∧
        ∀ k, v.Started k → Concluded setup g w k es) := by
  obtain ⟨hg, -, rfl⟩ := Graph.build_sound hb
  obtain ⟨decided, before, h⟩ := Inv.of_steps hg hv
  refine ⟨h.scheduled.exists_isOver setup jobs hg, fun cs' w hw => ?_⟩
  obtain ⟨ds, es, h', hd⟩ := h.windsDown hg hc hw
  refine ⟨_, h'.lives.run_extends.history, fun k hk => ?_, fun ho => ⟨?_, fun k hk => ?_,
    fun k hk => ?_⟩⟩
  · exact h'.untouched ((hd.started_iff k).not.mpr hk)
  · exact h'.scheduled.accounts hg h'.tallied ho fun k r hr => h'.succeeded_iff hr
  · exact h.about_of_windsDown hg h' hd ho hk
  · have hplanned : k ∈ g.plan.keys := Decidable.byContradiction fun hn =>
      Inv.not_started_of_not_planned hg hv hn hk
    exact h'.concluded hg ho hplanned ((hd.started_iff k).mpr hk)

/-- Two workers are on `b` and `d` when the run is cancelled. -/
def forkCancelled : List Choice :=
  [.tell "a", .leave, .take "a", .begin "a", .finish "a", .receive "a", .tell "b", .tell "d",
    .leave, .take "b", .take "d", .begin "b", .begin "d", .cancel]

/-- Both come to their end, and `c` is told of that of `b`. -/
def forkRest : List Choice :=
  [.finish "d", .finish "b", .receive "d", .leave, .receive "b", .tell "c", .leave, .leave]

theorem cancelled_concludes_fork :
    ∃ v w, (start forkGraph (.ofState default) .empty).steps? forkSetup forkGraph 2 forkCancelled =
        some v ∧
      v.run.cancelled = true ∧ v.steps? forkSetup forkGraph 2 forkRest = some w ∧
      w.isOver = true ∧ w.summary.failure? "b" = some (.brokeDown "b") ∧
      w.summary.failure? "c" = some .notStarted ∧ w.Succeeded "d" := by
  have hb : Graph.build .apply fork = .ok forkGraph := rfl
  have hends : ((start forkGraph (.ofState default) .empty).steps? forkSetup forkGraph 2
      forkCancelled).any fun v => v.run.cancelled && (v.awaited.get? "c").isSome &&
        (v.steps? forkSetup forkGraph 2 forkRest).any fun w => w.isOver &&
          w.summary.failure? "b" == some (.brokeDown "b") && decide (w.Succeeded "d") := by
    decide +kernel
  obtain ⟨v, hv, hends⟩ := (Option.any_eq_true _ _).mp hends
  rw [Bool.and_eq_true, Bool.and_eq_true] at hends
  obtain ⟨⟨hc, hwaits⟩, hends⟩ := hends
  obtain ⟨w, hw, hend⟩ := (Option.any_eq_true _ _).mp hends
  simp only [Bool.and_eq_true, beq_iff_eq, decide_eq_true_eq] at hend
  obtain ⟨⟨ho, hbroke⟩, hsucc⟩ := hend
  obtain ⟨n, hn⟩ := Option.isSome_iff_exists.mp hwaits
  obtain ⟨es, -, -, hconcl⟩ := (cancelled_concludes hb hv hc).2 forkRest w hw
  refine ⟨v, w, hv, hc, hw, ho, hbroke, ?_, hsucc⟩
  exact ((hconcl ho).2.1 "c" (.inl (Keyed.mem_keys.mpr ⟨n, hn⟩))).1

end Walk

end Provision
