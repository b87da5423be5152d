import Provision.Proofs.Walk.Recorded

/-!
# What a walk writes

* `Walk.Ends`: the call of a node ends at some time of a walk. `Walk.Inv.ends_of_answered`: every
  answer that the history tells of is the one that a backend gave at such a time.
* `Change.Writes`: what a node that succeeds makes of the resource at its key.
  `Change.Ended.writes`: every execution that succeeds does so.
* `Walk.written`: each key holds what its own node wrote, if that node succeeded, and otherwise what
  it held before the walk.
-/

namespace Provision

namespace Run

variable {σ : Type} {setup : Setup σ} {c : Change} {run run' : Run σ}

theorem intent_of_begin_over {r : Except Status Unit} (h : run.begin setup c = (.over r, run'))
    (call : Call) : c.intent setup run.known ≠ .ok (.call call) := by
  intro hi
  unfold begin at h
  rw [hi] at h
  cases h

/-- The end of a call tells of its answer first, and of no other call. -/
theorem history_finish {call : Call} {f : Finished} (h : run.finish setup c call = (f, run')) :
    ∃ es, run'.history = run.history ++
      .answered c.key call (setup.perform call run.cancelled run.world).reply :: es ∧
      ∀ e ∈ es, e.call? = none := by
  have happend : ∀ {run run' run'' : Run σ} {e : Entry} {es : List Entry},
      Extends run run' [e] → Extends run' run'' es → run''.history = run.history ++ e :: es :=
    fun he hes => (he.trans hes).history
  have hanswer := run.answered_extends c.key call (setup.perform call run.cancelled run.world)
  unfold finish at h
  dsimp only at h
  split at h
  · next m _ =>
    rcases hc : (run.answered c.key call (setup.perform call run.cancelled run.world)).commit
      setup c.key m with ⟨result, run₁⟩
    rw [hc] at h
    cases h
    rcases commit_extends hc with ⟨s, rfl, -, he⟩ | ⟨s, cause, rfl, -, he⟩
    · exact ⟨_, happend hanswer (he.trans (conclude_extends _ _)), by simp [Entry.call?]⟩
    · exact ⟨_, happend hanswer (he.trans (conclude_extends _ _)), by simp [Entry.call?]⟩
  · cases h
    exact ⟨_, happend hanswer (conclude_extends _ _), by simp [Entry.call?]⟩
  · cases h
    exact ⟨[], hanswer.history, fun e he => absurd he List.not_mem_nil⟩

end Run

namespace Walk

variable {σ : Type} {setup : Setup σ} {g : Graph} {jobs : Nat} {v w w' : Walk σ} {ch : Choice}
  {decided ds : List (String × Except Status Unit)} {run₀ : Run σ} {entries es : List Entry}
  {k : String} {call : Call} {reply : Reply Mutation}

/-! ## Answers -/

/-- On the way `cs` from `v` the call of the node `k` ends, when the run has come to `run`. -/
def Ends (setup : Setup σ) (g : Graph) (jobs : Nat) (v : Walk σ) (cs : List Choice) (k : String)
    (call : Call) (run : Run σ) : Prop :=
  ∃ cs₁ cs₂ u, cs = cs₁ ++ .finish k :: cs₂ ∧ v.steps? setup g jobs cs₁ = some u ∧
    (k, .calling call) ∈ u.busy ∧ u.run = run

theorem Ends.cons {cs : List Choice} {run : Run σ} (hv : v.step? setup g jobs ch = some w)
    (h : Ends setup g jobs w cs k call run) : Ends setup g jobs v (ch :: cs) k call run := by
  obtain ⟨cs₁, cs₂, u, rfl, hu, hb, hrun⟩ := h
  exact ⟨ch :: cs₁, cs₂, u, rfl, Option.bind_eq_some_iff.mpr ⟨w, hv, hu⟩, hb, hrun⟩

/-- **Inversion.** Only `Choice.finish k` adds an answer for `k`, and the answer is that of the
backend to the call that `k` was on, in the world of that moment. -/
theorem Step.answered (hst : Step setup g jobs w ch w' ds)
    (hh : w'.run.history = w.run.history ++ es) (he : .answered k call reply ∈ es) :
    ch = .finish k ∧ (k, .calling call) ∈ w.busy ∧
      reply = (setup.perform call w.run.cancelled w.run.world).reply := by
  have hes : ∀ {fs}, w'.run.history = w.run.history ++ fs → .answered k call reply ∈ fs :=
    fun hfs => List.append_cancel_left (hh.symm.trans hfs) ▸ he
  -- Both ways to end a call: what the run adds, and then perhaps one more event.
  have hfinish : ∀ {key c call' f run}, (key, .calling call') ∈ w.busy → g.find? key = some c →
      w.run.finish setup c call' = (f, run) → ∀ fs, w'.run.history = run.history ++ fs →
      (∀ e ∈ fs, e.call? = none) → key = k ∧ (k, .calling call) ∈ w.busy ∧
        reply = (setup.perform call w.run.cancelled w.run.world).reply := by
    intro key c call' f run hb hf hr fs hfs hnone
    obtain ⟨es', hes', hnone'⟩ := Run.history_finish hr
    rw [hes', List.append_assoc, List.cons_append] at hfs
    rcases List.mem_cons.mp (hes hfs) with heq | hm
    · cases heq
      obtain rfl := (Plan.find?_eq_some hf).2
      exact ⟨rfl, hb, rfl⟩
    · have hcall : (Entry.answered k call reply).call? = none := by
        rcases List.mem_append.mp hm with hm | hm
        · exact hnone' _ hm
        · exact hnone _ hm
      cases hcall
  cases hst with
  | idle | countDown | enqueue | leave | takeAgain | takeUp | receive | cancel =>
    exact absurd (hes (List.append_nil _).symm) List.not_mem_nil
  | skip | takeCancelled => cases List.mem_singleton.mp (hes rfl)
  | beginOver hb hf hr =>
    obtain ⟨es', hx, hend⟩ := Run.begin_over hr
    exact absurd (hend.call? (hes hx.history) rfl) (Run.intent_of_begin_over hr call)
  | beginCall hb hf hr =>
    obtain ⟨-, hx⟩ := Run.begin_calling hr
    have hm := hes hx.history
    simp [Change.opening] at hm
  | finishOver hb hf hr =>
    obtain ⟨rfl, h⟩ := hfinish hb hf hr [] (List.append_nil _).symm
      fun e he => absurd he List.not_mem_nil
    exact ⟨rfl, h⟩
  | @finishBroken key c call' run hb hf hr =>
    obtain ⟨rfl, h⟩ := hfinish hb hf hr [.emitted ⟨key, .failed, some (.brokeDown key)⟩] rfl
      (by simp [Entry.call?])
    exact ⟨rfl, h⟩

/-- **Run.** So for every answer that is told of there is a point where the call `Ends`. The
induction is on the choices, as `Ends` splits them. -/
theorem Inv.ends_of_answered (hg : g.Sound) (h : Inv setup g run₀ v decided entries)
    {cs : List Choice} (hw : v.steps? setup g jobs cs = some w) :
    ∃ ds es, Inv setup g run₀ w (decided ++ ds) (entries ++ es) ∧
      ∀ k call reply, .answered k call reply ∈ es → ∃ run, Ends setup g jobs v cs k call run ∧
        reply = (setup.perform call run.cancelled run.world).reply := by
  induction cs generalizing v decided entries with
  | nil =>
    cases hw
    refine ⟨[], [], ?_, fun k call reply he => absurd he List.not_mem_nil⟩
    rwa [List.append_nil, List.append_nil]
  | cons ch cs ih =>
    obtain ⟨v', hv', hw⟩ := Option.bind_eq_some_iff.mp hw
    obtain ⟨ds, hst⟩ := step_of_step? hv'
    obtain ⟨es, ht, h', -⟩ := h.step hg hst
    obtain ⟨ds', es', hend, hrest⟩ := ih h' hw
    refine ⟨ds ++ ds', es ++ es', ?_, fun k call reply he => ?_⟩
    · rw [← List.append_assoc, ← List.append_assoc]
      exact hend
    · rcases List.mem_append.mp he with he | he
      · obtain ⟨rfl, hb, hreply⟩ := hst.answered ht.run_extends.history he
        exact ⟨v.run, ⟨[], cs, v, rfl, rfl, hb, rfl⟩, hreply⟩
      · obtain ⟨run, hends, hreply⟩ := hrest k call reply he
        exact ⟨run, hends.cons hv', hreply⟩

end Walk

/-! ## What a node writes -/

namespace Change

variable {σ : Type} {setup : Setup σ} {known : Index} {c : Change} {es : List Entry}
  {ends : Call → Run σ → Prop}

/-- What a node that succeeds makes of the resource at its key, whose call ends as `ends` tells. -/
inductive Writes (setup : Setup σ) (c : Change) (ends : Call → Run σ → Prop) :
    (Option Resource → Option Resource) → Prop
  /-- What the backend returned stands there with the dependencies that the node declares. -/
  | applied {planned applied : Resource} {backend : Backend σ} {run : Run σ}
    (hop : setup.operation ≠ .refresh) (ha : c.action.isApply = true)
    (hb : setup.backends.get c.resource.type = .ok backend)
    (hends : ends (.apply (setup.prior.get? c.key) planned) run)
    (hr : (backend.apply (setup.prior.get? c.key) planned run.cancelled run.world).reply =
      .returned applied) :
    Writes setup c ends fun _ => some { applied with dependsOn := c.resource.dependsOn }
  | deleted {backend : Backend σ} {run : Run σ}
    (hop : setup.operation ≠ .refresh) (ha : c.action = .delete)
    (hb : setup.backends.get (setup.recordedOr c.resource).type = .ok backend)
    (hends : ends (.delete (setup.recordedOr c.resource)) run)
    (hr : (backend.delete (setup.recordedOr c.resource) run.cancelled run.world).reply =
      .returned ()) :
    Writes setup c ends fun _ => none
  /-- What the backend observed stands there with the dependencies that were recorded. -/
  | observed {observed : Resource} {backend : Backend σ} {run : Run σ}
    (hop : setup.operation = .refresh)
    (hb : setup.backends.get (setup.recordedOr c.resource).type = .ok backend)
    (hends : ends (.read (setup.recordedOr c.resource)) run)
    (hr : (backend.read (setup.recordedOr c.resource) run.cancelled run.world).reply =
      .returned (some observed)) :
    Writes setup c ends fun _ =>
      some { observed with dependsOn := (setup.recordedOr c.resource).dependsOn }
  | gone {backend : Backend σ} {run : Run σ}
    (hop : setup.operation = .refresh)
    (hb : setup.backends.get (setup.recordedOr c.resource).type = .ok backend)
    (hends : ends (.read (setup.recordedOr c.resource)) run)
    (hr : (backend.read (setup.recordedOr c.resource) run.cancelled run.world).reply =
      .returned none) :
    Writes setup c ends fun _ => none
  /-- What was recorded before the run stands there, if anything was. -/
  | kept (hop : setup.operation ≠ .refresh) (ha : c.action = .unchanged) :
    Writes setup c ends fun r => (setup.prior.get? c.key).or r

/-- What a node commits is what it `Writes`. `hends` ties the answer that was recorded to a point
where the call ended. -/
theorem Earned.writes {m : Mutation} (h : c.Earned setup known es m)
    (hends : ∀ call, .answered c.key call (.returned m) ∈ es → ∃ run, ends call run ∧
      .returned m = (setup.perform call run.cancelled run.world).reply) :
    ∃ f, c.Writes setup ends f ∧ ∀ r, f r = m.resource? := by
  cases h with
  | kept hi =>
    cases intends_of_intent hi with
    | keep hop ha hget =>
      refine ⟨_, .kept hop ha, fun r => ?_⟩
      rw [hget]
      rfl
  | @answered call m hi _ =>
    obtain ⟨run, hend, hreply⟩ := hends call (by simp)
    obtain ⟨backend, hb, hreply⟩ := Setup.reply_perform_eq_returned hreply.symm
    cases intends_of_intent hi with
    | read hop hrecorded =>
      subst hrecorded
      obtain ⟨observed, hr, rfl⟩ := Outcome.reply_map_eq_returned hreply
      cases observed with
      | some observed => exact ⟨_, .observed hop hb hend hr, fun _ => rfl⟩
      | none => exact ⟨_, .gone hop hb hend hr, fun _ => rfl⟩
    | apply hop ha hprior hp =>
      subst hprior
      obtain ⟨-, htype, hdep⟩ := planned_keeps hp
      obtain ⟨applied, hr, rfl⟩ := Outcome.reply_map_eq_returned hreply
      refine ⟨_, .applied hop ha (htype ▸ hb) hend hr, fun _ => ?_⟩
      rw [← hdep]
      rfl
    | delete hop ha hrecorded =>
      subst hrecorded
      obtain ⟨⟨⟩, hr, rfl⟩ := Outcome.reply_map_eq_returned hreply
      exact ⟨_, .deleted hop ha hb hend hr, fun _ => rfl⟩

/-- An execution that succeeds leaves what its node `Writes`, also where there was nothing to
commit. -/
theorem Ended.writes (h : c.Ended setup known .succeeded (.ok ()) es)
    (hends : ∀ call reply, .answered c.key call reply ∈ es → ∃ run, ends call run ∧
      reply = (setup.perform call run.cancelled run.world).reply) :
    ∃ f, c.Writes setup ends f ∧ ∀ r, Entry.outcome es r = f r := by
  cases h with
  | absent hi =>
    cases intends_of_intent hi with
    | keep hop ha hget =>
      refine ⟨_, .kept hop ha, fun r => ?_⟩
      rw [hget]
      rfl
  | @committed es m s he _ =>
    obtain ⟨f, hf, hm⟩ := he.writes fun call hc => hends call _ (List.mem_append_left _ hc)
    refine ⟨f, hf, fun r => ?_⟩
    rw [hm, Entry.outcome_append]
    rfl

end Change

namespace Walk

variable {σ : Type} {setup : Setup σ} {g : Graph} {jobs : Nat} {w : Walk σ}

/-- Both indices have of a node that succeeded what it wrote, as no other node writes under its
key. -/
theorem Inv.writes_of_succeeded (hg : g.Sound) {run : Run σ} {cs : List Choice}
    (hw : (Walk.start g run .empty).steps? setup g jobs cs = some w) {k : String}
    (hs : w.Succeeded k) :
    ∃ c f, g.find? k = some c ∧
      c.Writes setup (Ends setup g jobs (Walk.start g run .empty) cs k) f ∧
      w.run.recorded.get? k = f (run.recorded.get? k) ∧
      w.run.known.get? k = f (run.known.get? k) := by
  obtain ⟨ds, es, h, hends⟩ := (Inv.start hg run).ends_of_answered hg hw
  rw [List.nil_append] at h
  have hx := h.lives.run_extends
  have hk : k ∈ g.plan.keys := Decidable.byContradiction fun hk =>
    Inv.not_started_of_not_planned hg hw hk hs.started
  obtain ⟨c, known, hf, he⟩ := h.ended_of_succeeded hk hs
  obtain rfl := (Plan.find?_eq_some hf).2
  obtain ⟨f, hwrites, hout⟩ := he.writes fun call reply hc =>
    hends _ call reply (Entry.mem_about.mp hc).1
  refine ⟨c, f, hf, hwrites, ?_, ?_⟩
  · rw [hx.get?_recorded, hout]
  · rw [hx.get?_known, hout]

/-- **Main result.** At any time of a walk of fresh nodes, both indices hold at each key what its
own node `Writes`, if that node succeeded, and otherwise what they held before the walk. -/
theorem written {op : Operation} {p : Plan} (hb : Graph.build op p = .ok g) {run : Run σ}
    {cs : List Choice} (hw : (start g run .empty).steps? setup g jobs cs = some w) (k : String) :
    (w.Succeeded k → ∃ c f, p.find? k = some c ∧
      c.Writes setup (Ends setup g jobs (start g run .empty) cs k) f ∧
      w.run.recorded.get? k = f (run.recorded.get? k) ∧
      w.run.known.get? k = f (run.known.get? k)) ∧
    (¬ w.Succeeded k → w.run.recorded.get? k = run.recorded.get? k ∧
      w.run.known.get? k = run.known.get? k) := by
  obtain ⟨hg, -, rfl⟩ := Graph.build_sound hb
  obtain ⟨decided, es, h⟩ := Inv.of_steps hg hw
  exact ⟨Inv.writes_of_succeeded hg hw, h.get?_of_not_succeeded⟩

/-! ## A backend with ideas of its own -/

/-- What is recorded before. -/
def patchedState : State where
  serial := 2
  lastModified := default
  resources := [⟨"a", "Local", [], ["c"]⟩, ⟨"b", "Local", [], ["a"]⟩, ⟨"c", "Local", [], []⟩]

/-- The resource `a` no longer depends on `c`, which is deleted, and `b` waits for `a`. -/
def patch : Plan :=
  [⟨⟨"a", "Local", [], []⟩, .update⟩, ⟨⟨"b", "Local", [], ["a"]⟩, .update⟩,
    ⟨⟨"c", "Local", [], []⟩, .delete⟩]

/-- The graph of `patch`. -/
def patchGraph : Graph := ⟨.apply, patch, [("a", "b")], ["c", "a", "b"]⟩

/-- The backend returns resources that depend on `z`, and refuses to update `b`. -/
def patchSetup : Setup Unit :=
  .replying (fun _ r => if r.id = "b" then .refused ⟨.backendFailure, "quota exceeded"⟩
    else .returned { r with dependsOn := ["z"] }) .apply patchedState.index []

/-- Two workers are on `a` and `c` at once, and `b` follows. -/
def patchSteps : List Choice :=
  [.tell "a", .tell "c", .leave, .take "a", .take "c", .begin "c", .begin "a", .finish "a",
    .finish "c", .receive "a", .tell "b", .leave, .receive "c", .leave, .take "b", .begin "b",
    .finish "b", .receive "b", .leave]

theorem written_patch :
    ∃ w, (start patchGraph (.ofState patchedState) .empty).steps? patchSetup patchGraph 2
        patchSteps = some w ∧ w.isOver = true ∧
      (∃ c f, patch.find? "a" = some c ∧
        c.Writes patchSetup (Ends patchSetup patchGraph 2
          (start patchGraph (.ofState patchedState) .empty) patchSteps "a") f ∧
        w.run.recorded.get? "a" = f (patchedState.index.get? "a")) ∧
      w.run.recorded.get? "a" = some ⟨"a", "Local", [], []⟩ ∧
      w.run.recorded.get? "b" = patchedState.index.get? "b" := by
  have hb : Graph.build .apply patch = .ok patchGraph := rfl
  have hend : ((start patchGraph (.ofState patchedState) .empty).steps? patchSetup patchGraph 2
      patchSteps).any fun w => w.isOver && (decide (w.Succeeded "a") &&
        (decide (¬ w.Succeeded "b") &&
          w.run.recorded.get? "a" == some ⟨"a", "Local", [], []⟩)) := by
    decide +kernel
  obtain ⟨w, hw, hend⟩ := (Option.any_eq_true _ _).mp hend
  simp only [Bool.and_eq_true, decide_eq_true_eq, beq_iff_eq] at hend
  obtain ⟨ho, ha, hnot, hentry⟩ := hend
  obtain ⟨c, f, hf, hwrites, hrecorded, -⟩ := (written hb hw "a").1 ha
  exact ⟨w, hw, ho, ⟨c, f, hf, hwrites, hrecorded⟩, hentry, ((written hb hw "b").2 hnot).1⟩

end Walk

end Provision
