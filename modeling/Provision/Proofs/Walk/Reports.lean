import Provision.Proofs.Attributes.Resolve
import Provision.Proofs.Walk.Account
import Provision.Proofs.Walk.Relay

/-!
# What the reports tell

* `Change.Ended.events_eq`: an execution reports its start if it makes a call, and then its end.
* `Change.Ended.isSkip_eq_false`: the status of an execution never stands for a node that was not
  executed, as long as no backend gives such a status.
* `Walk.Reported`: what the reports about a node say of it.
* `Walk.events_truthful`: at the end of a walk all that was reported of its nodes is true, and
  nothing is missing. A channel that nobody drains holds what was reported first.
-/

namespace Provision

namespace Change

variable {σ : Type} {setup : Setup σ} {known : Index} {c : Change} {es : List Entry}

/-- What a node reports before its end: its start, if it makes a call. -/
def openings (setup : Setup σ) (known : Index) (c : Change) : List Event :=
  if c.calls setup known = [] then [] else [⟨c.key, .started, none⟩]

theorem openings_of_intent {call : Call} (h : c.intent setup known = .ok (.call call)) :
    c.openings setup known = [⟨c.key, .started, none⟩] := by
  unfold openings
  rw [calls_of_intent h, if_neg (List.cons_ne_nil _ _)]

theorem openings_eq_nil (h : ∀ call, c.intent setup known ≠ .ok (.call call)) :
    c.openings setup known = [] := by
  refine if_pos ?_
  unfold calls
  split
  · next call hi => exact absurd hi (h call)
  · rfl

/-- Before its commit an execution reports its start alone, and that only if it makes a call. -/
theorem Earned.events_eq {m : Mutation} (h : c.Earned setup known es m) :
    Entry.events es = c.openings setup known := by
  cases h with
  | kept hi =>
    rw [openings_eq_nil fun call => by rw [hi]; exact nofun]
    rfl
  | answered hi =>
    rw [openings_of_intent hi]
    rfl

/-- **Sequence.** The `openings` and then `Change.ending`, however the execution came out. -/
theorem Ended.events_eq {state : NodeState} {r : Except Status Unit}
    (h : c.Ended setup known state r es) :
    Entry.events es = c.openings setup known ++ [c.ending setup r] := by
  cases h with
  | unfit hi | absent hi =>
    rw [openings_eq_nil fun call => by rw [hi]; exact nofun]
    rfl
  | committed he | uncommitted he =>
    rw [Entry.events_append, he.events_eq]
    rfl
  | refused hi | brokeDown hi =>
    rw [openings_of_intent hi]
    rfl

/-- **Inversion.** A node that has no intent refers to what is not there, or no backend serves it.
Either status names what was missing. -/
theorem error_of_intent {s : Status} (h : c.intent setup known = .error s) :
    (∃ b ∈ c.resource.attributes.references, s = .unresolved (Reference.key b) b) ∨
      ∃ type, s = .unserved type := by
  have hserved : ∀ {call : Call}, ifServed setup call = .error s → ∃ type, s = .unserved type :=
    fun hs => ⟨_, Registry.get_eq_error (ifServed_eq_error.mp hs)⟩
  rcases intent_cases setup c with ⟨-, hi⟩ | ⟨-, -, hi⟩ | ⟨-, -, hi⟩ | ⟨-, -, hi⟩
  · exact .inr (hserved ((hi known).symm.trans h))
  · rw [hi] at h
    unfold planned at h
    cases hr : c.resource.attributes.resolve known with
    | error s' =>
      rw [hr] at h
      cases h
      obtain ⟨b, hb, -, rfl⟩ := Attributes.error_of_resolve hr
      exact .inl ⟨b, hb, rfl⟩
    | ok a =>
      rw [hr] at h
      exact .inr (hserved h)
  · exact .inr (hserved ((hi known).symm.trans h))
  · cases (hi known).symm.trans h

/-- The status of an execution never stands for a node that was not executed. A backend could give
such a status by itself, which `hb` rules out. -/
theorem Ended.isSkip_eq_false
    (hb : ∀ call s, setup.Answers call (.refused s) → s.kind.isSkip = false) {state : NodeState}
    {s : Status} (h : c.Ended setup known state (.error s) es) : s.kind.isSkip = false := by
  cases h with
  | unfit hi =>
    rcases error_of_intent hi with ⟨b, -, rfl⟩ | ⟨type, rfl⟩
    · rfl
    · rfl
  | uncommitted => rfl
  | refused hi ha => exact hb _ _ ha
  | brokeDown => rfl

end Change

namespace Walk

variable {σ : Type} {setup : Setup σ} {g : Graph} {jobs : Nat} {w : Walk σ}
  {decided : List (String × Except Status Unit)} {run₀ : Run σ} {entries : List Entry}

/-- What the reports about the node of `c` say of it, at the end of a walk that added `es` to the
history: it started if its backend was called, and `last` is how it ended. -/
structure Reported (setup : Setup σ) (w : Walk σ) (es : List Entry) (c : Change) (last : Event) :
    Prop where
  sequence : (Entry.events es).filter (·.key = c.key) =
    (if Entry.calls c.key es = [] then [] else [⟨c.key, .started, none⟩]) ++ [last]
  terminal : last.phase ≠ .started
  failed : ∀ s, last = ⟨c.key, .failed, some s⟩ ↔
    w.Started c.key ∧ s.kind.isSkip = false ∧ (c.key, s) ∈ w.summary.failures
  skipped : ∀ s, last = ⟨c.key, .skipped, some s⟩ ↔
    ¬ w.Started c.key ∧ (c.key, s) ∈ w.summary.failures
  /-- There was nothing to do. -/
  idle : last = ⟨c.key, .skipped, none⟩ ↔
    w.Succeeded c.key ∧ c.action = .unchanged ∧ setup.operation ≠ .refresh
  succeeded : last = ⟨c.key, .succeeded, none⟩ ↔
    w.Succeeded c.key ∧ ¬ (c.action = .unchanged ∧ setup.operation ≠ .refresh)
  /-- The kinds of status tell the nodes that were executed from the others. -/
  kind : ∀ s, (c.key, s) ∈ w.summary.failures → (s.kind.isSkip = true ↔ ¬ w.Started c.key)

namespace Inv

theorem mem_failures_iff (hg : g.Sound) (h : Inv setup g run₀ w decided entries) {k : String}
    {r : Except Status Unit} (hr : (k, r) ∈ decided) {s : Status} :
    (k, s) ∈ w.summary.failures ↔ r = .error s := by
  rw [h.tallied, Graph.mem_failures_tally]
  refine ⟨fun hs => h.scheduled.result_unique hg hr hs, ?_⟩
  rintro rfl
  exact hr

/-- What was reported of a node that was executed: `Change.ending` is in step with the summary,
result by result. -/
theorem reported_of_ended (hg : g.Sound)
    (hb : ∀ call s, setup.Answers call (.refused s) → s.kind.isSkip = false)
    (h : Inv setup g run₀ w decided entries) {c : Change} {r : Except Status Unit}
    (hr : (c.key, r) ∈ decided) {known : Index}
    (he : c.Ended setup known (w.stateOf c.key) r (Entry.about c.key entries)) :
    Reported setup w entries c (c.ending setup r) := by
  have hstarted : w.Started c.key := he.state_ne.1
  have hsucceeded := h.succeeded_iff hr
  have hfailures := fun s => h.mem_failures_iff hg hr (s := s)
  -- Whether a start was reported is said by the calls made, which `Ended` has as intended.
  have hseq : (Entry.events entries).filter (·.key = c.key) =
      (if Entry.calls c.key entries = [] then [] else [⟨c.key, .started, none⟩]) ++
        [c.ending setup r] := by
    rw [← Entry.events_about, he.events_eq, ← Entry.calls_about, he.calls_eq]
    rfl
  have hterminal : (c.ending setup r).phase ≠ .started :=
    of_decide_eq_true (Change.isEnd_ending setup c r)
  cases r with
  | ok u =>
    refine ⟨hseq, hterminal, fun s => ?_, fun s => ?_, ?_, ?_, fun s hs => ?_⟩
    · simp [Change.ending, hfailures]
    · simp [Change.ending, hfailures]
    · simp [Change.ending, Change.isNoop, hsucceeded]
    · simp [Change.ending, Change.isNoop, hsucceeded]
    · cases (hfailures s).mp hs
  | error s =>
    have hs := he.isSkip_eq_false hb
    refine ⟨hseq, hterminal, fun s' => ?_, fun s' => ?_, ?_, ?_, fun s' hs' => ?_⟩
    · rw [hfailures]
      constructor
      · intro hlast
        cases hlast
        exact ⟨hstarted, hs, rfl⟩
      · rintro ⟨-, -, hr'⟩
        cases hr'
        rfl
    · simp [Change.ending, hstarted]
    · simp [Change.ending, hsucceeded]
    · simp [Change.ending, hsucceeded]
    · cases (hfailures s').mp hs'
      exact iff_of_false (by simp [hs]) (not_not.mpr hstarted)

/-- What was reported of a node that was withheld: one event, with a status that `isSkip`. -/
theorem reported_of_withheld (hg : g.Sound) (h : Inv setup g run₀ w decided entries) {c : Change}
    {s : Status} (hr : (c.key, .error s) ∈ decided) (hstate : w.stateOf c.key = .pending)
    (hs : s.kind.isSkip = true)
    (ha : Entry.about c.key entries = [.emitted ⟨c.key, .skipped, some s⟩]) :
    Reported setup w entries c ⟨c.key, .skipped, some s⟩ := by
  have hstarted : ¬ w.Started c.key := not_not.mpr hstate
  have hsucceeded : ¬ w.Succeeded c.key := h.not_succeeded hr
  have hfailures := fun s' => h.mem_failures_iff hg hr (s := s')
  refine ⟨?_, nofun, fun s' => ?_, fun s' => ?_, ?_, ?_, fun s' hs' => ?_⟩
  · rw [← Entry.events_about, ← Entry.calls_about, ha]
    rfl
  · exact iff_of_false nofun fun hx => hstarted hx.1
  · rw [hfailures]
    constructor
    · intro hlast
      cases hlast
      exact ⟨hstarted, rfl⟩
    · rintro ⟨-, hr'⟩
      cases hr'
      rfl
  · exact iff_of_false nofun fun hx => hsucceeded hx.1
  · exact iff_of_false nofun fun hx => hsucceeded hx.1
  · cases (hfailures s').mp hs'
    exact iff_of_true hs hstarted

/-- By the end of a walk every node was reported, as it has its `Story`. -/
theorem reported (hg : g.Sound)
    (hb : ∀ call s, setup.Answers call (.refused s) → s.kind.isSkip = false)
    (h : Inv setup g run₀ w decided entries) (ho : w.isOver = true) {c : Change} (hc : c ∈ g.plan) :
    ∃ last, Reported setup w entries c last := by
  obtain ⟨r, hr⟩ := h.exists_result hg ho (List.mem_map_of_mem hc)
  rcases (h.story hr).of_ended with ⟨c', known, hf, -, he, -⟩ | ⟨s, rfl, hw, hstate, ha⟩
  · obtain rfl := Option.some.inj ((Plan.find?_of_mem hg.keys_nodup hc).symm.trans hf)
    exact ⟨_, h.reported_of_ended hg hb hr he⟩
  · exact ⟨_, h.reported_of_withheld hg hr hstate hw.isSkip ha⟩

end Inv

/-- **Main result.** Whatever was reported during a walk is about a node of the plan; at the end
every node was `Reported`: to start if its backend was called, and then once how it ended, which is
what the summary says of it. If nobody drains the channel, then at any time it holds the first
events that were reported, up to its capacity. `hkinds`: backends are taken not to answer with the
kinds of status that stand for a node that was not executed. -/
theorem events_truthful {op : Operation} {p : Plan} (hb : Graph.build op p = .ok g)
    (hkinds : ∀ call s, setup.Answers call (.refused s) → s.kind.isSkip = false) {run : Run σ}
    {cs : List Choice} (hw : (start g run .empty).steps? setup g jobs cs = some w) :
    ∃ es, w.run.history = run.history ++ es ∧
      (∀ e ∈ Entry.events es, e.key ∈ p.keys) ∧
      (w.isOver = true → ∀ c ∈ p, ∃ last, Reported setup w es c last) ∧
      ∀ n, run.progress = some (.ofCapacity n) →
        w.run.progress.map Channel.waiting = some ((Entry.events es).take n) := by
  obtain ⟨hg, -, rfl⟩ := Graph.build_sound hb
  obtain ⟨decided, entries, h⟩ := Inv.of_steps hg hw
  refine ⟨entries, h.lives.run_extends.history, fun e he => ?_,
    fun ho c hc => h.reported hg hkinds ho hc, fun n hn => ?_⟩
  · obtain ⟨entry, hm, he⟩ := List.mem_filterMap.mp he
    have hkey := h.lives.planned entry hm
    cases entry with
    | emitted event =>
      cases he
      exact hkey
    | called | answered | stored | notStored => cases he
  · obtain ⟨es, hes, hp⟩ := relays_of_steps hw
    obtain rfl : entries = es :=
      List.append_cancel_left (h.lives.run_extends.history.symm.trans hes)
    have hrun : (start g run .empty).run.progress = some (.ofCapacity n) := hn
    rw [hp, hrun, Option.map_some, Option.map_some]
    exact congrArg some (Channel.waiting_sendAll _ rfl (Nat.zero_le _))

theorem isSkip_of_fork (call : Call) (s : Status) (h : forkSetup.Answers call (.refused s)) :
    s.kind.isSkip = false := by
  obtain ⟨cancelled, world, h⟩ := h
  unfold Setup.perform at h
  split at h
  · next backend hb =>
    obtain rfl := Setup.eq_replying hb
    cases call with
    | apply prior planned =>
      by_cases hid : planned.id = "b"
      · simp [Call.perform, Backend.replying, Outcome.map, hid] at h
      · simp [Call.perform, Backend.replying, Outcome.map, hid] at h
    | delete prior => cases h
    | read prior => cases h
  · next s' hb =>
    cases h
    rw [Registry.get_eq_error hb]
    rfl

/-- A run whose reports go into a channel with room for three. -/
def watchedRun : Run Unit := { Run.ofState default with progress := some (.ofCapacity 3) }

theorem events_truthful_fork :
    ∃ w, (start forkGraph watchedRun .empty).steps? forkSetup forkGraph 2 forkSteps = some w ∧
      (∃ last, Reported forkSetup w w.run.history ⟨⟨"b", "Local", [], ["a"]⟩, .create⟩ last) ∧
      w.run.progress.map Channel.waiting = some ((Entry.events w.run.history).take 3) := by
  have hb : Graph.build .apply fork = .ok forkGraph := rfl
  obtain ⟨w, hw, ho⟩ : ∃ w, (start forkGraph watchedRun .empty).steps? forkSetup forkGraph 2
    forkSteps = some w ∧ w.isOver = true := ⟨_, rfl, rfl⟩
  obtain ⟨es, hes, -, hreported, hchannel⟩ := events_truthful hb isSkip_of_fork hw
  obtain rfl : w.run.history = es := hes
  exact ⟨w, hw, hreported ho _ (by decide), hchannel 3 rfl⟩

end Walk

end Provision
