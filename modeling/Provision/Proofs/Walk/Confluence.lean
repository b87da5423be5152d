import Provision.Proofs.Run.Effect
import Provision.Proofs.Walk.Isolation

/-!
# Schedules do not matter

* `Walk.Alike`: two walks made the same of a node.
* `Walk.Inv.alike`: two walks of the same graph from the same run to the end make the same of every
  node, if calls have one answer and the state can be stored. What a node reads is settled by what
  became of the nodes that it waits for.
* `Walk.confluent`: so they end with the same states, statuses, counters, indices and state.
-/

namespace Provision

namespace Entry

/-- The keys of the resources stored, in order. -/
def storedKeys (es : List Entry) : List String :=
  (es.filter fun e => e.snapshot?.isSome).map Entry.key

theorem length_storedKeys (es : List Entry) :
    (storedKeys es).length = (snapshots es).length := by
  induction es with
  | nil => rfl
  | cons e es ih =>
    unfold storedKeys snapshots at ih ⊢
    cases hs : e.snapshot? with
    | none => simpa [hs] using ih
    | some s => simpa [hs] using ih

/-- A key was stored as often as the entries `about` it store anything; so lists of stored keys can
be compared node by node. -/
theorem count_storedKeys (es : List Entry) (k : String) :
    (storedKeys es).count k = (snapshots (about k es)).length := by
  induction es with
  | nil => rfl
  | cons e es ih =>
    unfold storedKeys snapshots about at ih ⊢
    cases hs : e.snapshot? with
    | none => by_cases hk : e.key = k <;> simpa [hs, hk] using ih
    | some s => by_cases hk : e.key = k <;> simpa [hs, hk] using ih

end Entry

namespace Walk

variable {σ : Type} {setup : Setup σ} {g : Graph} {w₁ w₂ : Walk σ}
  {decided₁ decided₂ : List (String × Except Status Unit)} {run₀ : Run σ}
  {entries₁ entries₂ : List Entry}

/-- Two walks made the same of the node `k`. -/
structure Alike (w₁ w₂ : Walk σ) (decided₁ decided₂ : List (String × Except Status Unit))
    (entries₁ entries₂ : List Entry) (k : String) : Prop where
  state : w₁.stateOf k = w₂.stateOf k
  result : w₁.Started k → ∀ r, (k, r) ∈ decided₁ ↔ (k, r) ∈ decided₂
  outcome : ∀ x, Entry.outcome (Entry.about k entries₁) x = Entry.outcome (Entry.about k entries₂) x
  stored : (Entry.snapshots (Entry.about k entries₁)).length =
    (Entry.snapshots (Entry.about k entries₂)).length

namespace Inv

section

variable {w : Walk σ} {decided : List (String × Except Status Unit)} {entries : List Entry}

/-- `Story.of_ended` for a node that was started: it was executed, as one that is withheld stays
pending. -/
theorem executed (h : Inv setup g run₀ w decided entries) {k : String} {r : Except Status Unit}
    (hr : (k, r) ∈ decided) (hx : w.Started k) :
    ∃ c known, g.find? k = some c ∧ g.Agree k known w.run.known ∧
      c.Ended setup known (w.stateOf k) r (Entry.about k entries) := by
  rcases (h.story hr).of_ended with ⟨c, known, hf, ha, he, -⟩ | ⟨s, -, -, hpending, -⟩
  · exact ⟨c, known, hf, ha, he⟩
  · exact absurd hpending hx

theorem about_of_not_planned (h : Inv setup g run₀ w decided entries) {k : String}
    (hk : k ∉ g.plan.keys) : Entry.about k entries = [] := by
  refine List.filter_eq_nil_iff.mpr fun e he hek => hk ?_
  rw [decide_eq_true_eq] at hek
  exact hek ▸ h.lives.planned e he

end

variable (hg : g.Sound) (h₁ : Inv setup g run₀ w₁ decided₁ entries₁)
  (h₂ : Inv setup g run₀ w₂ decided₂ entries₂)

include h₁ h₂

/-- The walks know and record the same of `k` if its node fared `Alike` in both. A key without a
node keeps what the common start has of it. -/
theorem get?_known_eq {k : String}
    (h : k ∈ g.plan.keys → Alike w₁ w₂ decided₁ decided₂ entries₁ entries₂ k) :
    w₁.run.known.get? k = w₂.run.known.get? k ∧
      w₁.run.recorded.get? k = w₂.run.recorded.get? k := by
  have hx₁ := h₁.lives.run_extends
  have hx₂ := h₂.lives.run_extends
  rw [hx₁.get?_known, hx₂.get?_known, hx₁.get?_recorded, hx₂.get?_recorded]
  by_cases hk : k ∈ g.plan.keys
  · exact ⟨(h hk).outcome _, (h hk).outcome _⟩
  · rw [h₁.about_of_not_planned hk, h₂.about_of_not_planned hk]
    exact ⟨rfl, rfl⟩

include hg

variable (ho₁ : w₁.isOver = true) (ho₂ : w₂.isOver = true) (hc₁ : w₁.run.cancelled = false)
  (hc₂ : w₂.run.cancelled = false)

include ho₁ ho₂ hc₁ hc₂

theorem alike_of_not_started {k : String} (hk : k ∈ g.plan.keys) (hx₁ : ¬ w₁.Started k)
    (hx₂ : ¬ w₂.Started k) : Alike w₁ w₂ decided₁ decided₂ entries₁ entries₂ k := by
  obtain ⟨d₁, -, -, -, habout₁⟩ := h₁.blocked_of_not_started hg ho₁ hc₁ hk hx₁
  obtain ⟨d₂, -, -, -, habout₂⟩ := h₂.blocked_of_not_started hg ho₂ hc₂ hk hx₂
  have hs₁ : w₁.stateOf k = .pending := Decidable.not_not.mp hx₁
  have hs₂ : w₂.stateOf k = .pending := Decidable.not_not.mp hx₂
  refine ⟨hs₁.trans hs₂.symm, fun hx => absurd hx hx₁, fun x => ?_, ?_⟩
  · rw [habout₁, habout₂]
    rfl
  · rw [habout₁, habout₂]
    rfl

variable {answer : Call → Reply Mutation} (ha : setup.Steady answer) (hst : setup.Stores)

include ha hst

omit hc₁ hc₂ in
theorem alike_of_started {k : String} (hk : k ∈ g.plan.keys) (hx₁ : w₁.Started k)
    (hx₂ : w₂.Started k)
    (happly : ∀ c ∈ g.plan, c.action.isApply = true → g.operation = .apply)
    (hagree : g.Agree k w₁.run.known w₂.run.known) :
    Alike w₁ w₂ decided₁ decided₂ entries₁ entries₂ k := by
  obtain ⟨r₁, hr₁⟩ := h₁.exists_result hg ho₁ hk
  obtain ⟨r₂, hr₂⟩ := h₂.exists_result hg ho₂ hk
  obtain ⟨c, known₁, hf, ha₁, he₁⟩ := h₁.executed hr₁ hx₁
  obtain ⟨c', known₂, hf', ha₂, he₂⟩ := h₂.executed hr₂ hx₂
  obtain rfl : c = c' := Option.some.inj (hf.symm.trans hf')
  -- What the node reads agrees, so it intends the same and the one answer has the same effect.
  have hintent : c.intent setup known₁ = c.intent setup known₂ :=
    Change.intent_congr hg ((ha₁.trans hagree).trans ha₂.symm) hf
      (happly c (Plan.find?_eq_some hf).1)
  obtain ⟨change₁, heff₁, hout₁, hlen₁⟩ := he₁.effect_eq ha hst
  obtain ⟨change₂, heff₂, hout₂, hlen₂⟩ := he₂.effect_eq ha hst
  rw [hintent, heff₂] at heff₁
  obtain ⟨hstate, hresult, rfl⟩ := Effect.mk.inj heff₁
  refine ⟨hstate.symm, fun _ r => ?_, fun x => ?_, by rw [hlen₁, hlen₂]⟩
  · constructor
    · intro hr
      rw [h₁.scheduled.result_unique hg hr hr₁, ← hresult]
      exact hr₂
    · intro hr
      rw [h₂.scheduled.result_unique hg hr hr₂, hresult]
      exact hr₁
  · rw [hout₁, hout₂, hstate, hresult]

/-- **Induction along the edges.** Two walks to the end make the same of every node: a node is
started in both or in neither, as its predecessors fared alike, and what it reads is among what they
left. -/
theorem alike (happly : ∀ c ∈ g.plan, c.action.isApply = true → g.operation = .apply)
    {k : String} (hk : k ∈ g.plan.keys) :
    Alike w₁ w₂ decided₁ decided₂ entries₁ entries₂ k := by
  refine hg.induct (P := fun k => k ∈ g.plan.keys →
    Alike w₁ w₂ decided₁ decided₂ entries₁ entries₂ k) (fun k ih hk => ?_) hk hk
  have ih : ∀ d, (d, k) ∈ g.edges → Alike w₁ w₂ decided₁ decided₂ entries₁ entries₂ d :=
    fun d hd => ih d (Edges.mem_before.mpr hd) (hg.mem_keys_of_edge hd).1
  -- At the end a node was started exactly if all its predecessors succeeded.
  have hiff : w₁.Started k ↔ w₂.Started k := by
    rw [h₁.started_iff hg ho₁ hc₁ hk, h₂.started_iff hg ho₂ hc₂ hk]
    refine forall₂_congr fun d hd => ?_
    unfold Succeeded
    rw [(ih d (Graph.mem_dependencies.mp hd)).state]
  by_cases hx : w₁.Started k
  · exact h₁.alike_of_started hg h₂ ho₁ ho₂ ha hst hk hx (hiff.mp hx) happly
      fun j hj => (h₁.get?_known_eq h₂ fun hk => ih j (hj hk)).1
  · exact h₁.alike_of_not_started hg h₂ ho₁ ho₂ hc₁ hc₂ hk hx fun hx₂ => hx (hiff.mpr hx₂)

/-- What a result counts as is the same in both walks. The results themselves may differ, in the
failed predecessor that `Status.blockedBy` names. -/
theorem exists_verdict (happly : ∀ c ∈ g.plan, c.action.isApply = true → g.operation = .apply)
    {k : String} {r : Except Status Unit} (hr : (k, r) ∈ decided₁) :
    ∃ r', (k, r') ∈ decided₂ ∧ Verdict.of r' = Verdict.of r := by
  have hk : k ∈ g.plan.keys :=
    h₁.scheduled.placed.mem_iff.mp
      (List.mem_append_right _ (List.mem_map_of_mem (f := Prod.fst) hr))
  have hal := h₁.alike hg h₂ ho₁ ho₂ hc₁ hc₂ ha hst happly hk
  by_cases hx : w₁.Started k
  · exact ⟨r, (hal.result hx r).mp hr, rfl⟩
  · obtain ⟨r', hr'⟩ := h₂.exists_result hg ho₂ hk
    have hs₁ : w₁.stateOf k = .pending := Decidable.not_not.mp hx
    obtain ⟨d₁, s₁, -, -, rfl, -⟩ := h₁.blocked hc₁ hr hs₁
    obtain ⟨d₂, s₂, -, -, rfl, -⟩ := h₂.blocked hc₂ hr' (hal.state.symm.trans hs₁)
    exact ⟨_, hr', rfl⟩

/-- Both walks stored as many states, if perhaps not the same ones: each stores for the same keys,
in an order of its own. -/
theorem length_snapshots_eq
    (happly : ∀ c ∈ g.plan, c.action.isApply = true → g.operation = .apply) :
    (Entry.snapshots entries₁).length = (Entry.snapshots entries₂).length := by
  have hperm : (Entry.storedKeys entries₁).Perm (Entry.storedKeys entries₂) := by
    refine List.perm_iff_count.mpr fun k => ?_
    rw [Entry.count_storedKeys, Entry.count_storedKeys]
    by_cases hk : k ∈ g.plan.keys
    · exact (h₁.alike hg h₂ ho₁ ho₂ hc₁ hc₂ ha hst happly hk).stored
    · rw [h₁.about_of_not_planned hk, h₂.about_of_not_planned hk]
  rw [← Entry.length_storedKeys, ← Entry.length_storedKeys, hperm.length_eq]

end Inv

/-- **Main result.** Two walks of a graph from the same run to the end, with any numbers of workers
and in any order of steps, end alike: every node in the same state, and with the same status if it
was started, with the same counters, indices and serial, and with the same resources up to their
order. All backends answer each call in one way (`Setup.Steady`), the state can be stored
(`Setup.Stores`), neither run was cancelled, and resources are applied only by a graph that follows
their references (`happly`). -/
theorem confluent {op : Operation} {p : Plan} (hb : Graph.build op p = .ok g)
    (happly : ∀ c ∈ p, c.action.isApply = true → op = .apply) {answer : Call → Reply Mutation}
    (ha : setup.Steady answer) (hst : setup.Stores) {run : Run σ} {jobs₁ jobs₂ : Nat}
    {cs₁ cs₂ : List Choice} (hw₁ : (start g run .empty).steps? setup g jobs₁ cs₁ = some w₁)
    (hw₂ : (start g run .empty).steps? setup g jobs₂ cs₂ = some w₂) (ho₁ : w₁.isOver = true)
    (ho₂ : w₂.isOver = true) (hc₁ : w₁.run.cancelled = false) (hc₂ : w₂.run.cancelled = false) :
    (∀ k ∈ p.keys, w₁.stateOf k = w₂.stateOf k ∧
      (w₁.Started k → w₁.summary.failure? k = w₂.summary.failure? k)) ∧
    w₁.summary.counters = w₂.summary.counters ∧ w₁.run.known = w₂.run.known ∧
    w₁.run.recorded = w₂.run.recorded ∧ w₁.run.state.serial = w₂.run.state.serial ∧
    w₁.run.state.resources.Perm w₂.run.state.resources := by
  obtain ⟨hg, rfl, rfl⟩ := Graph.build_sound hb
  obtain ⟨decided₁, entries₁, h₁⟩ := Inv.of_steps hg hw₁
  obtain ⟨decided₂, entries₂, h₂⟩ := Inv.of_steps hg hw₂
  have halike := fun k hk => h₁.alike hg h₂ ho₁ ho₂ hc₁ hc₂ ha hst happly (k := k) hk
  have hindex := fun k => h₁.get?_known_eq h₂ (halike k)
  have hlen := h₁.length_snapshots_eq hg h₂ ho₁ ho₂ hc₁ hc₂ ha hst happly
  have hx₁ := h₁.lives.run_extends
  have hx₂ := h₂.lives.run_extends
  have hrecorded := Keyed.ext_get? fun k => (hindex k).2
  refine ⟨fun k hk => ⟨(halike k hk).state, fun hx => ?_⟩, ?_, Keyed.ext_get? fun k => (hindex k).1,
    hrecorded, ?_, ?_⟩
  · refine Option.ext fun s => ?_
    rw [h₁.failure?_eq_some_iff hg, h₂.failure?_eq_some_iff hg]
    exact (halike k hk).result hx _
  · have hn₁ := (List.nodup_append.mp (h₁.scheduled.nodup hg)).2.1
    have hn₂ := (List.nodup_append.mp (h₂.scheduled.nodup hg)).2.1
    rw [h₁.tallied, h₂.tallied]
    exact Graph.counters_tally_perm hn₁ hn₂
      (fun k r hr => h₁.exists_verdict hg h₂ ho₁ ho₂ hc₁ hc₂ ha hst happly hr)
      fun k r hr => h₂.exists_verdict hg h₁ ho₂ ho₁ hc₂ hc₁ ha hst happly hr
  · rw [hx₁.serial, hx₂.serial, hlen]
  · -- Each stored state lists what is recorded then; without one the state is that of the start.
    by_cases hs : Entry.snapshots entries₁ = []
    · have hs₂ : Entry.snapshots entries₂ = [] := by
        rw [hs] at hlen
        exact List.length_eq_zero_iff.mp hlen.symm
      rw [hx₁.state, hx₂.state, hs, hs₂]
    · have hs₂ : Entry.snapshots entries₂ ≠ [] := fun he => by
        rw [he] at hlen
        exact hs (List.length_eq_zero_iff.mp hlen)
      rw [hx₁.resources hs, hx₂.resources hs₂, hrecorded]

/-- One worker, and `b` ends before `d` starts. -/
def forkStepsInTurn : List Choice :=
  [.tell "a", .leave, .take "a", .begin "a", .finish "a", .receive "a", .tell "d", .tell "b",
    .leave, .take "b", .begin "b", .finish "b", .receive "b", .tell "c", .leave, .leave, .take "d",
    .begin "d", .finish "d", .receive "d", .leave]

theorem confluent_fork :
    ∃ w₁ w₂, (start forkGraph (.ofState default) .empty).steps? forkSetup forkGraph 2 forkSteps =
        some w₁ ∧
      (start forkGraph (.ofState default) .empty).steps? forkSetup forkGraph 1 forkStepsInTurn =
        some w₂ ∧
      w₁.isOver = true ∧ w₂.isOver = true ∧ w₁.run.cancelled = false ∧ w₂.run.cancelled = false ∧
      w₁.summary.counters = w₂.summary.counters ∧ w₁.run.known = w₂.run.known := by
  have hb : Graph.build .apply fork = .ok forkGraph := rfl
  have hw₁ : (start forkGraph (.ofState default) .empty).steps? forkSetup forkGraph 2 forkSteps =
    some _ := rfl
  have hw₂ : (start forkGraph (.ofState default) .empty).steps? forkSetup forkGraph 1
    forkStepsInTurn = some _ := rfl
  have h := confluent hb (fun _ _ _ => rfl) Setup.replying_steady Setup.replying_stores hw₁ hw₂
    rfl rfl rfl rfl
  exact ⟨_, _, hw₁, hw₂, rfl, rfl, rfl, rfl, h.2.1, h.2.2.1⟩

end Walk

end Provision
