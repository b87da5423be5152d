import Provision.Proofs.Plan.Convergence

/-!
# What is recorded during a run

* `Plan.MadeFrom`: the plans that are made from recorded resources.
* `Change.Earned.keeps`: what a node of such a plan commits stands under its key and has the
  dependencies that were planned, on backends that keep ids.
* `Walk.Inv.recorded_cases`: at any time of a walk, what is recorded under a key was so before the
  run, or was committed by a node that succeeded.
* `Walk.Inv.forall_snapshots`: what holds of the state at any time of a walk, once something was
  stored, holds of every state stored.
-/

namespace Provision

namespace Setup

variable {σ : Type}

/-- Backends keep the ids of the resources that they apply and read. -/
def KeepsIds (setup : Setup σ) : Prop :=
  ∀ type backend, setup.backends.get type = .ok backend →
    (∀ prior planned cancelled world applied,
      (backend.apply prior planned cancelled world).reply = .returned applied →
      applied.id = planned.id) ∧
    ∀ prior cancelled world observed,
      (backend.read prior cancelled world).reply = .returned (some observed) →
      observed.id = prior.id

theorem replying_keepsIds {reply : Option Resource → Resource → Reply Resource}
    (h : ∀ prior planned applied, reply prior planned = .returned applied → applied.id = planned.id)
    {operation : Operation} {prior : Index} {ignored : List FieldPath} :
    (replying reply operation prior ignored).KeepsIds := by
  intro type backend hb
  obtain rfl := eq_replying hb
  refine ⟨fun prior planned _ _ applied ha => h prior planned applied ha,
    fun prior _ _ observed ho => ?_⟩
  cases ho
  rfl

end Setup

/-! ## Plans -/

namespace Plan

variable {prior : Index} {op : Operation} {p : Plan} {c : Change}

/-- The plans that are made from the resources recorded before a run. -/
inductive MadeFrom (prior : Index) : Operation → Plan → Prop
  | apply (desired : List Resource) (ignored : List FieldPath) :
    MadeFrom prior .apply (apply desired prior ignored)
  | destroy : MadeFrom prior .destroy (destroy prior)
  | refresh : MadeFrom prior .refresh (refresh prior)

namespace MadeFrom

theorem of_apply {desired : List Resource} {ignored : List FieldPath} (hop : op = .apply)
    (hp : p = Plan.apply desired prior ignored) : MadeFrom prior op p := by
  subst hop hp
  exact .apply desired ignored

theorem action_of_refresh (h : MadeFrom prior op p) (hop : op = .refresh) (hc : c ∈ p) :
    c.action = .unchanged := by
  subst hop
  cases h
  obtain ⟨r, -, rfl⟩ := List.mem_map.mp hc
  rfl

theorem action_of_destroy (h : MadeFrom prior op p) (hop : op = .destroy) (hc : c ∈ p) :
    c.action = .delete := by
  subst hop
  cases h
  obtain ⟨r, -, rfl⟩ := List.mem_map.mp hc
  rfl

/-- What is left alone is recorded, with the dependencies that are planned: `differs` compares them,
and a refresh plans what is recorded. -/
theorem get?_of_unchanged (h : MadeFrom prior op p) (hprior : prior.ById) (hc : c ∈ p)
    (ha : c.action = .unchanged) :
    ∃ r, prior.get? c.key = some r ∧ r.dependsOn = c.resource.dependsOn := by
  cases h with
  | apply desired ignored =>
    rcases mem_apply.mp hc with ⟨r, -, rfl⟩ | ⟨r, -, -, rfl⟩
    · obtain ⟨recorded, hget, hd⟩ := actionFor_eq_unchanged_iff.mp ha
      exact ⟨recorded, hget, (differs_eq_false_iff.mp hd).2.1⟩
    · cases ha
  | destroy =>
    obtain ⟨r, -, rfl⟩ := List.mem_map.mp hc
    cases ha
  | refresh =>
    obtain ⟨r, hr, rfl⟩ := List.mem_map.mp hc
    exact ⟨r, hprior.mem_byId.mp hr, rfl⟩

/-- `MadeFrom` plans for everything recorded: what is no longer desired is planned to be deleted. -/
theorem mem_keys (h : MadeFrom prior op p) (hprior : prior.ById) {k : String} {r : Resource}
    (hk : prior.get? k = some r) : k ∈ p.keys := by
  cases h with
  | apply desired ignored => exact mem_keys_apply hprior hk
  | destroy | refresh =>
    obtain rfl := hprior k r hk
    exact List.mem_map_of_mem (f := Change.key)
      (List.mem_map_of_mem (f := fun r => (Change.mk r _)) (hprior.mem_byId.mpr hk))

end MadeFrom

end Plan

/-! ## Commits -/

namespace Change

variable {σ : Type} {setup : Setup σ} {known : Index} {c : Change} {es : List Entry}

/-- What a backend made keeps the id of what it was asked to apply; the dependencies are those
planned, whatever it returned. -/
theorem applied_of_answers (hids : setup.KeepsIds) {prior : Option Resource} {planned : Resource}
    {m : Mutation} (h : setup.Answers (.apply prior planned) (.returned m)) :
    ∃ r, m = .upsert r ∧ r.id = planned.id ∧ r.dependsOn = planned.dependsOn := by
  obtain ⟨backend, cancelled, world, hb, h⟩ := reply_of_answers h
  obtain ⟨applied, ha, rfl⟩ := Outcome.reply_map_eq_returned h
  exact ⟨_, rfl, (hids _ backend hb).1 _ _ _ _ applied ha, rfl⟩

/-- What a backend observed keeps the id and the dependencies of what it was asked to read. -/
theorem observed_of_answers (hids : setup.KeepsIds) {prior : Resource} {m : Mutation}
    (h : setup.Answers (.read prior) (.returned m)) {r : Resource} (hr : m.resource? = some r) :
    r.id = prior.id ∧ r.dependsOn = prior.dependsOn := by
  obtain ⟨backend, cancelled, world, hb, h⟩ := reply_of_answers h
  obtain ⟨observed, ho, rfl⟩ := Outcome.reply_map_eq_returned h
  cases observed with
  | none => cases hr
  | some observed =>
    cases hr
    exact ⟨(hids _ backend hb).2 _ _ _ observed ho, rfl⟩

/-- What a node commits stands under its key, on backends that keep ids and with `prior` under its
own keys. -/
theorem Earned.key_eq (hprior : setup.prior.ById) (hids : setup.KeepsIds) {m : Mutation}
    (h : c.Earned setup known es m) {r : Resource} (hr : m.resource? = some r) :
    r.key = c.key := by
  cases h with
  | kept hi =>
    cases hr
    cases intends_of_intent hi with
    | keep _ _ hget => exact hprior _ _ hget
  | answered hi hanswer =>
    cases intends_of_intent hi with
    | read _ hrecorded =>
      refine (observed_of_answers hids hanswer hr).1.trans ?_
      rw [← hrecorded]
      unfold Setup.recordedOr
      cases hget : setup.prior.get? c.resource.key with
      | none => rfl
      | some recorded => exact hprior _ _ hget
    | apply _ _ _ hp =>
      obtain ⟨r', rfl, hid, -⟩ := applied_of_answers hids hanswer
      cases hr
      exact hid.trans (planned_keeps hp).1
    | delete =>
      rw [remove_of_answers hanswer] at hr
      cases hr

/-- A success is always committed: `absent` would need an unchanged node of which nothing is
recorded, and plans that are `MadeFrom` what is recorded have none. -/
theorem Ended.earned {p : Plan} (hp : Plan.MadeFrom setup.prior setup.operation p)
    (hprior : setup.prior.ById) (hc : c ∈ p) (h : c.Ended setup known .succeeded (.ok ()) es) :
    ∃ before m s, c.Earned setup known before m ∧
      es = before ++ [.stored c.key m s, .emitted (c.ending setup (.ok ()))] := by
  cases h with
  | committed he => exact ⟨_, _, _, he, rfl⟩
  | absent hi =>
    cases intends_of_intent hi with
    | keep _ ha hnone =>
      obtain ⟨recorded, hget, -⟩ := hp.get?_of_unchanged hprior hc ha
      cases hnone.symm.trans hget

section

variable {p : Plan} (hp : Plan.MadeFrom setup.prior setup.operation p) (hprior : setup.prior.ById)
  (hids : setup.KeepsIds) (hc : c ∈ p)

include hp hprior hids hc

/-- Moreover it has the dependencies that were planned. For a refresh these are the recorded ones,
and `hp` makes them the same. -/
theorem Earned.keeps {m : Mutation} (h : c.Earned setup known es m) {r : Resource}
    (hr : m.resource? = some r) :
    c.action ≠ .delete ∧ r.key = c.key ∧ r.dependsOn = c.resource.dependsOn := by
  have hkey := h.key_eq hprior hids hr
  cases h with
  | kept hi =>
    cases hr
    cases intends_of_intent hi with
    | keep _ ha hget =>
      obtain ⟨recorded, hget', hd⟩ := hp.get?_of_unchanged hprior hc ha
      obtain rfl := Option.some.inj (hget'.symm.trans hget)
      exact ⟨by rw [ha]; exact nofun, hkey, hd⟩
  | answered hi hanswer =>
    cases intends_of_intent hi with
    | read hop hrecorded =>
      have ha := hp.action_of_refresh hop hc
      obtain ⟨recorded, hget, hd⟩ := hp.get?_of_unchanged hprior hc ha
      have hdep := (observed_of_answers hids hanswer hr).2
      unfold Setup.recordedOr at hrecorded
      rw [show setup.prior.get? c.resource.key = some recorded from hget, Option.getD_some]
        at hrecorded
      exact ⟨by rw [ha]; exact nofun, hkey, (hrecorded ▸ hdep).trans hd⟩
    | apply _ ha _ hplanned =>
      obtain ⟨r', rfl, -, hdep⟩ := applied_of_answers hids hanswer
      cases hr
      refine ⟨fun hdel => ?_, hkey, hdep.trans (planned_keeps hplanned).2.2⟩
      rw [hdel] at ha
      cases ha
    | delete =>
      rw [remove_of_answers hanswer] at hr
      cases hr

/-- The same of what an execution that succeeds leaves, if it leaves a resource. -/
theorem Ended.keeps (h : c.Ended setup known .succeeded (.ok ()) es) {r : Resource}
    (hr : Entry.outcome es (setup.prior.get? c.key) = some r) :
    c.action ≠ .delete ∧ r.key = c.key ∧ r.dependsOn = c.resource.dependsOn := by
  obtain ⟨before, m, s, he, rfl⟩ := h.earned hp hprior hc
  rw [Entry.outcome_append] at hr
  exact he.keeps hp hprior hids hc hr

/-- It leaves one unless it reads or deletes: a backend that applies may not return nothing. -/
theorem Ended.isSome_outcome (hop : setup.operation ≠ .refresh) (ha : c.action ≠ .delete)
    (h : c.Ended setup known .succeeded (.ok ()) es) :
    (Entry.outcome es (setup.prior.get? c.key)).isSome = true := by
  obtain ⟨before, m, s, he, rfl⟩ := h.earned hp hprior hc
  rw [Entry.outcome_append]
  cases he with
  | kept => rfl
  | answered hi hanswer =>
    cases intends_of_intent hi with
    | read hop' => exact absurd hop' hop
    | apply =>
      obtain ⟨r, rfl, -⟩ := applied_of_answers hids hanswer
      rfl
    | delete _ ha' => exact absurd ha' ha

end

end Change

/-! ## Walks -/

namespace Walk

variable {σ : Type} {setup : Setup σ} {g : Graph} {jobs : Nat} {w : Walk σ} {ch : Choice}
  {decided : List (String × Except Status Unit)} {run₀ : Run σ} {entries es : List Entry}
  {k : String}

/-- `Entry.outcome` depends on the entries `stored`, of which a node that did not succeed has
none. -/
theorem Story.outcome_of_failed {run : Run σ} {stage : Stage} {state : NodeState}
    (h : Story setup g decided run k stage state es) (hs : state ≠ .succeeded)
    (x : Option Resource) : Entry.outcome es x = x := by
  cases h with
  | waiting | resolving | calling | skipped => rfl
  | executed hf ha he hp => exact he.outcome_of_failed hs x

namespace Inv

theorem story_of_mem (h : Inv setup g run₀ w decided entries) (hk : k ∈ g.plan.keys) :
    ∃ stage, Story setup g decided w.run k stage (w.stateOf k) (Entry.about k entries) := by
  obtain ⟨stage, hm⟩ := h.scheduled.exists_stage hk
  exact ⟨stage, h.lives.story k stage hm⟩

/-- A node that succeeded was executed, with the result `.ok ()`. -/
theorem ended_of_succeeded (h : Inv setup g run₀ w decided entries) (hk : k ∈ g.plan.keys)
    (hs : w.Succeeded k) : ∃ c known, g.find? k = some c ∧
      c.Ended setup known .succeeded (.ok ()) (Entry.about k entries) := by
  obtain ⟨stage, hstory⟩ := h.story_of_mem hk
  rw [show w.stateOf k = .succeeded from hs] at hstory
  cases hstory with
  | executed hf ha he hp =>
    obtain rfl := he.succeeded_iff.mp rfl
    exact ⟨_, _, hf, he⟩

/-- **Frame.** What is recorded and known of a node that did not succeed is what it was, and so it
is where no node is planned. -/
theorem get?_of_not_succeeded (h : Inv setup g run₀ w decided entries) (hs : ¬ w.Succeeded k) :
    w.run.recorded.get? k = run₀.recorded.get? k ∧ w.run.known.get? k = run₀.known.get? k := by
  have hout : ∀ r, Entry.outcome (Entry.about k entries) r = r := by
    intro r
    by_cases hk : k ∈ g.plan.keys
    · obtain ⟨stage, hstory⟩ := h.story_of_mem hk
      exact hstory.outcome_of_failed hs r
    · rw [h.about_of_not_planned hk]
      rfl
  rw [h.lives.run_extends.get?_recorded, h.lives.run_extends.get?_known]
  exact ⟨hout _, hout _⟩

/-- Success goes back along the edges. -/
theorem succeeded_of_edge (h : Inv setup g run₀ w decided entries) (hk : k ∈ g.plan.keys)
    (hs : w.Succeeded k) {d : String} (hd : (d, k) ∈ g.edges) : w.Succeeded d :=
  h.succeeded_of_started hk hs.started (Graph.mem_dependencies.mpr hd)

section

variable (h : Inv setup g run₀ w decided entries) (hr : run₀.recorded = setup.prior)

include h hr

/-- `get?_of_not_succeeded` for a run that begins with what was recorded. -/
theorem get?_recorded_of_failed (hs : ¬ w.Succeeded k) :
    w.run.recorded.get? k = setup.prior.get? k := hr ▸ (h.get?_of_not_succeeded hs).1

variable (hp : Plan.MadeFrom setup.prior setup.operation g.plan) (hprior : setup.prior.ById)

include hp hprior

/-- Whatever is recorded at any time is planned for: nodes write only under their own keys. -/
theorem mem_keys_of_recorded {r : Resource} (hk : w.run.recorded.get? k = some r) :
    k ∈ g.plan.keys := by
  refine Decidable.byContradiction fun hn => hn ?_
  rw [h.lives.run_extends.get?_recorded, h.about_of_not_planned hn, hr] at hk
  exact hp.mem_keys hprior hk

variable (hids : setup.KeepsIds)

include hids

/-- **Cases.** What is recorded under a key was so before, as its node has not succeeded, or that
node succeeded and planned these dependencies. -/
theorem recorded_cases {r : Resource} (hk : w.run.recorded.get? k = some r) :
    (¬ w.Succeeded k ∧ setup.prior.get? k = some r) ∨
    (w.Succeeded k ∧ ∃ c, g.find? k = some c ∧ c.action ≠ .delete ∧ r.key = k ∧
      r.dependsOn = c.resource.dependsOn) := by
  have hkeys := h.mem_keys_of_recorded hr hp hprior hk
  by_cases hs : w.Succeeded k
  · obtain ⟨c, known, hf, he⟩ := h.ended_of_succeeded hkeys hs
    obtain ⟨hc, rfl⟩ := Plan.find?_eq_some hf
    rw [h.lives.run_extends.get?_recorded, hr] at hk
    exact .inr ⟨hs, c, hf, he.keeps hp hprior hids hc hk⟩
  · rw [h.get?_recorded_of_failed hr hs] at hk
    exact .inl ⟨hs, hk⟩

/-- So on backends that keep ids whatever is recorded stands under its own key, at any time. -/
theorem recorded_byId : w.run.recorded.ById := by
  intro k r hk
  rcases h.recorded_cases hr hp hprior hids hk with ⟨-, hget⟩ | ⟨-, c, -, -, hkey, -⟩
  · exact hprior k r hget
  · exact hkey

end

end Inv

/-! ## States stored -/

/-- A step stores the state at most once, so between two stored states the state is seen as it was
stored. -/
theorem Adds.length_snapshots_le {known : Index} (h : Adds setup g known ch es) :
    (Entry.snapshots es).length ≤ 1 := by
  cases h with
  | nothing | told | called => exact Nat.zero_le _
  | ended hf he => exact he.length_snapshots_le
  | finished hf hi he =>
    have hle := he.length_snapshots_le
    rwa [Entry.snapshots_append] at hle

/-- **Snapshots.** What holds of the state at any time of a walk, once something was stored, holds
of every state stored: each of them was `Run.state` right after the step that stored it. -/
theorem Inv.forall_snapshots (hg : g.Sound) {Q : State → Prop} {run : Run σ}
    (hQ : ∀ {v decided entries}, Inv setup g run v decided entries →
      Entry.snapshots entries ≠ [] → Q v.run.state)
    {cs : List Choice} (hw : (Walk.start g run .empty).steps? setup g jobs cs = some w) :
    ∃ decided entries, Inv setup g run w decided entries ∧ ∀ s ∈ Entry.snapshots entries, Q s := by
  obtain ⟨ds, es, h, hall⟩ := (Inv.start hg run).induct hg
    (P := fun _ _ entries => ∀ s ∈ Entry.snapshots entries, Q s)
    (fun {cs w ch w' decided ds entries es} h hst ht h' hP s hs => by
      rw [Entry.snapshots_append, List.mem_append] at hs
      rcases hs with hs | hs
      · exact hP s hs
      · have hone : Entry.snapshots es = [s] := by
          obtain ⟨s', hs'⟩ := List.length_eq_one_iff.mp
            (Nat.le_antisymm (ht.adds h.lives.attended).length_snapshots_le
              (List.length_pos_of_mem hs))
          rw [hs', List.mem_singleton] at hs
          rw [hs', hs]
        -- `s` was stored by this very step, so it is the state after it.
        have hstate : w'.run.state = s := by
          rw [h'.lives.run_extends.state, Entry.snapshots_append, hone]
          simp
        refine hstate ▸ hQ h' ?_
        rw [Entry.snapshots_append, hone]
        simp) [] (fun s hs => nomatch hs) hw
  exact ⟨ds, es, h, hall⟩

end Walk

end Provision
