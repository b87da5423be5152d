import Provision.Proofs.State.Index
import Provision.Proofs.Walk.Confluence

/-!
# What a successful application leaves

* `Setup.Faithful`: backends return what they were asked to apply as it was given.
* `Change.goal`: what a node that succeeds then leaves at its key.
* `Walk.Inv.get?_recorded_of_succeeded`: a walk that applies leaves this, with references resolved
  against what is known at the end.
-/

namespace Provision

namespace Setup

variable {σ : Type}

/-- Backends return what they were asked to apply as it was given. -/
def Faithful (setup : Setup σ) : Prop :=
  ∀ type backend, setup.backends.get type = .ok backend → ∀ prior planned cancelled world applied,
    (backend.apply prior planned cancelled world).reply = .returned applied → applied = planned

theorem replying_faithful {operation : Operation} {prior : Index} {ignored : List FieldPath} :
    (replying (fun _ r => .returned r) operation prior ignored).Faithful := by
  intro type backend hb prior planned cancelled world applied h
  obtain rfl := eq_replying hb
  cases h
  rfl

/-- `Setup.perform` refuses a call that no backend serves, so only a backend that exists returns
something. -/
theorem reply_perform_eq_returned {setup : Setup σ} {call : Call} {cancelled : Bool} {world : σ}
    {m : Mutation} (h : (setup.perform call cancelled world).reply = .returned m) :
    ∃ backend, setup.backends.get call.type = .ok backend ∧
      (call.perform backend cancelled world).reply = .returned m := by
  unfold perform at h
  split at h
  · next backend hb => exact ⟨backend, hb, h⟩
  · cases h

end Setup

theorem Outcome.reply_map_eq_returned {σ α β : Type} {f : α → β} {o : Outcome σ α} {b : β}
    (h : (o.map f).reply = .returned b) : ∃ a, o.reply = .returned a ∧ f a = b := by
  unfold Outcome.map at h
  dsimp only at h
  split at h
  · next a ha => exact ⟨a, ha, Reply.returned.inj h⟩
  · cases h
  · cases h

namespace Change

variable {σ : Type} {setup : Setup σ} {known : Index} {c : Change} {es : List Entry}

/-- What a node leaves at its key if it succeeds. -/
def goal (setup : Setup σ) (known : Index) (c : Change) : Option Resource :=
  match c.action with
  | .create | .update => (c.planned setup known).toOption
  | .delete => none
  | .unchanged => setup.prior.get? c.key

theorem reply_of_answers {call : Call} {m : Mutation} (h : setup.Answers call (.returned m)) :
    ∃ backend cancelled world, setup.backends.get call.type = .ok backend ∧
      (call.perform backend cancelled world).reply = .returned m := by
  obtain ⟨cancelled, world, h⟩ := h
  obtain ⟨backend, hb, h⟩ := Setup.reply_perform_eq_returned h
  exact ⟨backend, cancelled, world, hb, h⟩

/-- `Setup.Faithful` leaves no other answer to `apply` than what was planned. -/
theorem upsert_of_answers (hf : setup.Faithful) {prior : Option Resource} {planned : Resource}
    {m : Mutation} (h : setup.Answers (.apply prior planned) (.returned m)) :
    m = .upsert planned := by
  obtain ⟨backend, cancelled, world, hb, h⟩ := reply_of_answers h
  obtain ⟨applied, ha, rfl⟩ := Outcome.reply_map_eq_returned h
  rw [hf _ backend hb prior planned cancelled world applied ha]

theorem remove_of_answers {prior : Resource} {m : Mutation}
    (h : setup.Answers (.delete prior) (.returned m)) : m = .remove := by
  obtain ⟨backend, cancelled, world, -, h⟩ := reply_of_answers h
  obtain ⟨-, -, rfl⟩ := Outcome.reply_map_eq_returned h
  rfl

theorem goal_of_planned {planned : Resource} (ha : c.action.isApply = true)
    (hp : c.planned setup known = .ok planned) : c.goal setup known = some planned := by
  unfold goal
  rw [hp]
  cases h : c.action with
  | create | update => rfl
  | delete | unchanged =>
    rw [h] at ha
    cases ha

theorem goal_of_delete (ha : c.action = .delete) : c.goal setup known = none := by
  unfold goal
  rw [ha]

theorem goal_of_unchanged (ha : c.action = .unchanged) :
    c.goal setup known = setup.prior.get? c.key := by
  unfold goal
  rw [ha]

/-- A mutation that was earned leaves the `goal` of its node, on faithful backends. -/
theorem Earned.resource?_eq (hop : setup.operation = .apply) (hf : setup.Faithful) {m : Mutation}
    (h : c.Earned setup known es m) : m.resource? = c.goal setup known := by
  have hne : setup.operation ≠ .refresh := by
    rw [hop]
    exact nofun
  cases h with
  | kept hi =>
    cases intends_of_intent hi with
    | keep _ ha hr =>
      rw [goal_of_unchanged ha, hr]
      rfl
  | answered hi hanswer =>
    cases intends_of_intent hi with
    | read hop' => exact absurd hop' hne
    | apply _ ha _ hp =>
      rw [upsert_of_answers hf hanswer, goal_of_planned ha hp]
      rfl
    | delete _ ha =>
      rw [remove_of_answers hanswer, goal_of_delete ha]
      rfl

/-- An execution that succeeds leaves the `goal` of its node, and could plan what it applied: a node
whose references do not resolve does not succeed. -/
theorem Ended.outcome_eq (hop : setup.operation = .apply) (hf : setup.Faithful)
    {state : NodeState} {r : Except Status Unit} (h : c.Ended setup known state r es)
    (hr : r = .ok ()) :
    Entry.outcome es (setup.prior.get? c.key) = c.goal setup known ∧
      (c.action.isApply = true → ∃ planned, c.planned setup known = .ok planned) := by
  have hne : setup.operation ≠ .refresh := by
    rw [hop]
    exact nofun
  subst hr
  cases h with
  | absent hi =>
    cases intends_of_intent hi with
    | keep _ ha =>
      refine ⟨(goal_of_unchanged ha).symm, fun happly => ?_⟩
      rw [ha] at happly
      cases happly
  | @committed es m s he hs =>
    refine ⟨?_, fun happly => ?_⟩
    · rw [← he.resource?_eq hop hf, Entry.outcome_append]
      rfl
    · obtain ⟨i, hi⟩ : ∃ i, c.intent setup known = .ok i := by
        cases he with
        | kept hi => exact ⟨_, hi⟩
        | answered hi => exact ⟨_, hi⟩
      cases intends_of_intent hi with
      | read hop' => exact absurd hop' hne
      | apply _ _ _ hp => exact ⟨_, hp⟩
      | delete _ ha | keep _ ha =>
        rw [ha] at happly
        cases happly

/-- What a node plans depends only on what it may read: `Graph.Agree` is all that is asked of the
two indices. -/
theorem planned_congr {g : Graph} (hg : g.Sound) {m n : Index} (h : g.Agree c.key m n)
    (hf : g.find? c.key = some c) (hop : g.operation = .apply) (ha : c.action.isApply = true) :
    c.planned setup m = c.planned setup n := by
  unfold planned
  rw [h.resolve_eq hg hf hop ha]

theorem goal_congr {g : Graph} (hg : g.Sound) {m n : Index} (h : g.Agree c.key m n)
    (hf : g.find? c.key = some c) (hop : g.operation = .apply) :
    c.goal setup m = c.goal setup n := by
  unfold goal
  split
  · next ha => rw [planned_congr hg h hf hop (by rw [ha]; rfl)]
  · next ha => rw [planned_congr hg h hf hop (by rw [ha]; rfl)]
  · rfl
  · rfl

end Change

namespace Walk.Inv

variable {σ : Type} {setup : Setup σ} {g : Graph} {w : Walk σ}
  {decided : List (String × Except Status Unit)} {run₀ : Run σ} {entries : List Entry}

/-- `run_extends` replays the same entries over both indices, so a run that knows what it recorded
goes on to do so. -/
theorem known_eq_recorded (h : Inv setup g run₀ w decided entries)
    (hk : run₀.known = run₀.recorded) : w.run.known = w.run.recorded := by
  rw [h.lives.run_extends.known, h.lives.run_extends.recorded, hk]

/-- A run from a state that lists what it recorded ends with such a state. `hr`: what is recorded
under a foreign key is read back under its own id. -/
theorem index_state (h : Inv setup g run₀ w decided entries)
    (hs : run₀.state.index = run₀.recorded) (hr : w.run.recorded.ById) :
    w.run.state.index = w.run.recorded := by
  have hx := h.lives.run_extends
  by_cases hn : Entry.snapshots entries = []
  · rw [hx.state, hx.recorded, hn, Entry.replay_of_snapshots_nil hn]
    exact hs
  · unfold State.index
    rw [hx.resources hn]
    exact hr.ofResources_byId

/-- A walk that applies leaves the `goal` of every node that succeeded, with references resolved
against what is known at the end. Whatever the node saw when it started, `Agree` carries it over to
the end. -/
theorem get?_recorded_of_succeeded (hg : g.Sound) (h : Inv setup g run₀ w decided entries)
    (ho : w.isOver = true) (hop : setup.operation = .apply) (hgop : g.operation = .apply)
    (hf : setup.Faithful) (hr : run₀.recorded = setup.prior) {c : Change} (hc : c ∈ g.plan)
    (hs : w.Succeeded c.key) :
    w.run.recorded.get? c.key = c.goal setup w.run.known ∧
      (c.action.isApply = true → ∃ planned, c.planned setup w.run.known = .ok planned) := by
  obtain ⟨r, hres⟩ := h.exists_result hg ho (List.mem_map_of_mem hc)
  obtain ⟨c', known, hfind, hagree, hend⟩ := h.executed hres hs.started
  have hfc := Plan.find?_of_mem hg.keys_nodup hc
  obtain rfl : c = c' := Option.some.inj (hfc.symm.trans hfind)
  obtain ⟨hout, hplanned⟩ := hend.outcome_eq hop hf ((h.succeeded_iff hres).mp hs)
  refine ⟨?_, fun ha => ?_⟩
  · rw [h.lives.run_extends.get?_recorded, hr, hout]
    exact Change.goal_congr hg hagree hfc hgop
  · rw [← Change.planned_congr hg hagree hfc hgop ha]
    exact hplanned ha

end Walk.Inv

end Provision
