import Provision.Proofs.Run.Ending
import Provision.Proofs.Walk.Blocking

/-!
# What a step does to a node

* `Walk.places`: where each node of a walk is; no node is at two stages.
* `Walk.Turn`: all that can happen to a node, from one stage to the next, with its state and what is
  added to the history.
* `Walk.Turned`: every node stays at its stage, or one of them moves by a turn. `Walk.Step.turn`:
  this is all that a step does.
-/

namespace Provision

/-- How far a node has come. -/
inductive Stage where
  /-- It is awaited or queued. -/
  | waiting
  | resolving
  | calling (call : Call)
  | ended (result : Except Status Unit)

/-- The stage of a node that a worker is on. -/
def Task.stage : Task → Stage
  | .resolving => .resolving
  | .calling call => .calling call

namespace Walk

variable {σ : Type} {setup : Setup σ} {g : Graph} {jobs : Nat} {w w' : Walk σ} {ch : Choice}
  {decided ds : List (String × Except Status Unit)} {es : List Entry}

/-! ## Places -/

/-- The nodes with their stages. -/
def places (w : Walk σ) (decided : List (String × Except Status Unit)) : List (String × Stage) :=
  (w.awaited.keys ++ w.queue).map (fun k => (k, .waiting)) ++
    w.busy.map (fun b => (b.1, b.2.stage)) ++
    (w.results ++ decided).map (fun r => (r.1, .ended r.2))

/-- `places` lists just the active nodes and the decided ones, so `Scheduled.nodup` speaks of it. -/
theorem keys_places (w : Walk σ) (decided : List (String × Except Status Unit)) :
    (w.places decided).map Prod.fst = w.active ++ decided.map Prod.fst := by
  simp [places, active, underway, Function.comp_def]

theorem mem_places {k : String} {stage : Stage} :
    (k, stage) ∈ w.places decided ↔
      (stage = .waiting ∧ (k ∈ w.awaited.keys ∨ k ∈ w.queue)) ∨
      (∃ t, (k, t) ∈ w.busy ∧ stage = t.stage) ∨
      ∃ r, ((k, r) ∈ w.results ∨ (k, r) ∈ decided) ∧ stage = .ended r := by
  simp only [places, List.mem_append, List.mem_map, Prod.mk.injEq, Prod.exists]
  constructor
  · rintro ((⟨k', hk, rfl, rfl⟩ | ⟨k', t, hk, rfl, rfl⟩) | ⟨k', r, hk, rfl, rfl⟩)
    · exact .inl ⟨rfl, hk⟩
    · exact .inr (.inl ⟨t, hk, rfl⟩)
    · exact .inr (.inr ⟨r, hk, rfl⟩)
  · rintro (⟨rfl, hk⟩ | ⟨t, hk, rfl⟩ | ⟨r, hk, rfl⟩)
    · exact .inl (.inl ⟨k, hk, rfl, rfl⟩)
    · exact .inl (.inr ⟨k, t, hk, rfl, rfl⟩)
    · exact .inr ⟨k, r, hk, rfl, rfl⟩

/-- At the start every node waits. -/
theorem eq_waiting_of_mem_start {run : Run σ} {states : Keyed NodeState} {k : String}
    {stage : Stage} (h : (k, stage) ∈ (start g run states).places []) : stage = .waiting := by
  rcases mem_places.mp h with ⟨hw, -⟩ | ⟨t, hm, -⟩ | ⟨r, hm | hm, -⟩
  · exact hw
  · exact absurd hm List.not_mem_nil
  · exact absurd hm List.not_mem_nil
  · exact absurd hm List.not_mem_nil

theorem waiting_mem {k : String} (h : k ∈ w.awaited.keys ∨ k ∈ w.queue) :
    (k, .waiting) ∈ w.places decided := mem_places.mpr (.inl ⟨rfl, h⟩)

theorem busy_mem {k : String} {t : Task} (h : (k, t) ∈ w.busy) : (k, t.stage) ∈ w.places decided :=
  mem_places.mpr (.inr (.inl ⟨t, h, rfl⟩))

theorem ended_mem {k : String} {r : Except Status Unit}
    (h : (k, r) ∈ w.results ∨ (k, r) ∈ decided) : (k, .ended r) ∈ w.places decided :=
  mem_places.mpr (.inr (.inr ⟨r, h, rfl⟩))

/-- A node that joined none of `awaited`, `queue`, `busy` and the results is at a stage only if it
was there before: what every step shows of the nodes that it does not touch. -/
theorem places_mono {decided' : List (String × Except Status Unit)} {k : String} {stage : Stage}
    (hm : (k, stage) ∈ w'.places decided')
    (hw : k ∈ w'.awaited.keys ∨ k ∈ w'.queue → k ∈ w.awaited.keys ∨ k ∈ w.queue)
    (hb : ∀ t, (k, t) ∈ w'.busy → (k, t) ∈ w.busy)
    (hr : ∀ r, (k, r) ∈ w'.results ∨ (k, r) ∈ decided' → (k, r) ∈ w.results ∨ (k, r) ∈ decided) :
    (k, stage) ∈ w.places decided := by
  rcases mem_places.mp hm with ⟨rfl, h⟩ | ⟨t, h, rfl⟩ | ⟨r, h, rfl⟩
  · exact waiting_mem (hw h)
  · exact busy_mem (hb t h)
  · exact ended_mem (hr r h)

/-- `Scheduled` has every node at one place only, so its stage is determined. -/
theorem Scheduled.stage_unique (hg : g.Sound) (h : Scheduled g w decided) {k : String}
    {stage stage' : Stage} (hs : (k, stage) ∈ w.places decided)
    (hs' : (k, stage') ∈ w.places decided) : stage = stage' := by
  have hn := h.nodup hg
  rw [← keys_places] at hn
  exact (Prod.mk.inj (List.inj_on_of_nodup_map hn hs hs' rfl)).2

/-- Every node of the plan is in `places`, at the stage that `stage_unique` determines. -/
theorem Scheduled.exists_stage (h : Scheduled g w decided) {k : String} (hk : k ∈ g.plan.keys) :
    ∃ stage, (k, stage) ∈ w.places decided := by
  have hm := h.placed.mem_iff.mpr hk
  rw [← keys_places] at hm
  obtain ⟨⟨_, stage⟩, hp, rfl⟩ := List.mem_map.mp hm
  exact ⟨stage, hp⟩

/-- Only the results that the scheduler knows leave `active`, so a node short of `Stage.ended` is in
it. -/
theorem mem_active_of_place {k : String} {stage : Stage} (h : (k, stage) ∈ w.places decided)
    (hs : ∀ r, stage ≠ .ended r) : k ∈ w.active := by
  rcases mem_places.mp h with ⟨-, ha | hq⟩ | ⟨t, hb, -⟩ | ⟨r, -, he⟩
  · exact List.mem_append_left _ ha
  · exact mem_active_of_underway (mem_underway_of_queue hq)
  · exact mem_active_of_underway (mem_underway_of_busy hb)
  · exact absurd he (hs r)

/-- Between `Stage.waiting` and `Stage.ended` a worker is on the node, and `Guarded.cleared` has all
its predecessors succeeded. -/
theorem Guarded.cleared_of_place (h : Guarded g w decided) {k : String} {stage : Stage}
    (hk : (k, stage) ∈ w.places decided) (hw : stage ≠ .waiting) (he : ∀ r, stage ≠ .ended r) :
    ∀ p, (p, k) ∈ g.edges → (p, .ok ()) ∈ decided := by
  rcases mem_places.mp hk with ⟨rfl, -⟩ | ⟨t, hb, -⟩ | ⟨r, -, hr⟩
  · exact absurd rfl hw
  · exact h.cleared k (mem_underway_of_busy hb)
  · exact absurd hr (he r)

theorem stateOf_insert {states : Keyed NodeState} {key : String} {state : NodeState} (k : String) :
    ((states.insert key state).get? k).getD .pending =
      if k = key then state else (states.get? k).getD .pending := by
  rw [Keyed.get?_insert]
  by_cases hk : k = key
  · simp [hk]
  · simp [hk, Ne.symm hk]

/-! ## Turns -/

/-- Why a node is not executed. -/
inductive Withheld (g : Graph) (decided : List (String × Except Status Unit)) (cancelled : Bool)
    (k : String) : Status → Prop
  | cancelled (h : cancelled = true) : Withheld g decided cancelled k .notStarted
  | blocked {p : String} {s : Status} (he : (p, k) ∈ g.edges) (hp : (p, .error s) ∈ decided) :
    Withheld g decided cancelled k (.blockedBy p)

theorem Withheld.mono {cancelled cancelled' : Bool} {k : String} {s : Status}
    (h : Withheld g decided cancelled k s) (hc : cancelled = true → cancelled' = true) :
    Withheld g (decided ++ ds) cancelled' k s := by
  cases h with
  | cancelled h => exact .cancelled (hc h)
  | blocked he hp => exact .blocked he (List.mem_append_left _ hp)

/-- What can happen to the node `k` during `run`, at a choice: its stage and state before and after,
and what the history tells about it. -/
inductive Turn (setup : Setup σ) (g : Graph) (decided : List (String × Except Status Unit))
    (run : Run σ) (k : String) :
    Choice → Stage → NodeState → Stage → NodeState → List Entry → Prop
  | skipped {ch : Choice} {state : NodeState} {s : Status} (hch : ∀ j, ch ≠ .begin j)
    (hw : Withheld g decided run.cancelled k s) (hc : run.cancelled = true → s = .notStarted) :
    Turn setup g decided run k ch .waiting state (.ended (.error s)) state
      [.emitted ⟨k, .skipped, some s⟩]
  /-- The node was executed in an earlier walk. -/
  | passed {state : NodeState} (hs : state ≠ .pending) (hc : run.cancelled = false) :
    Turn setup g decided run k (.take k) .waiting state (.ended (.ok ())) state []
  | taken (hc : run.cancelled = false) :
    Turn setup g decided run k (.take k) .waiting .pending .resolving .resolving []
  /-- An execution ends without a call. -/
  | uncalled {state : NodeState} {c : Change} {r : Except Status Unit} {es : List Entry}
    (hf : g.find? k = some c) (he : c.Ended setup run.known (.ofResult r) r es) :
    Turn setup g decided run k (.begin k) .resolving state (.ended r) (.ofResult r) es
  | called {state : NodeState} {c : Change} {call : Call} (hf : g.find? k = some c)
    (hi : c.intent setup run.known = .ok (.call call)) :
    Turn setup g decided run k (.begin k) .resolving state (.calling call) .executing
      (c.opening call)
  | answered {state : NodeState} {c : Change} {call : Call} {r : Except Status Unit}
    {es : List Entry} (hf : g.find? k = some c)
    (he : ∀ known, c.intent setup known = .ok (.call call) →
      c.Ended setup known (.ofResult r) r (c.opening call ++ es)) :
    Turn setup g decided run k (.finish k) (.calling call) state (.ended r) (.ofResult r) es
  | brokeDown {state : NodeState} {c : Change} {call : Call} (hf : g.find? k = some c)
    (ha : setup.Answers call .brokeDown) :
    Turn setup g decided run k (.finish k) (.calling call) state (.ended (.error (.brokeDown k)))
      state [.answered k call .brokeDown, .emitted ⟨k, .failed, some (.brokeDown k)⟩]

/-- The state of a node fits its stage while a worker is on it, and the call that it is making is
one that it intended. -/
structure Attended (setup : Setup σ) (g : Graph) (k : String) (stage : Stage) (state : NodeState) :
    Prop where
  resolving : stage = .resolving → state = .resolving
  calling : ∀ call, stage = .calling call → state = .executing ∧
    ∃ c known, g.find? k = some c ∧ c.intent setup known = .ok (.call call)

namespace Turn

variable {run : Run σ} {k : String} {stage stage' : Stage} {state state' : NodeState}

theorem not_ended (h : Turn setup g decided run k ch stage state stage' state' es)
    (r : Except Status Unit) : stage ≠ .ended r := by
  cases h <;> exact nofun

/-- **Locality.** The entries of a turn are all about its node. `Attended` is needed for
`Turn.answered`, where only the call that was begun ties the entries to the change. -/
theorem key (h : Turn setup g decided run k ch stage state stage' state' es)
    (ha : Attended setup g k stage state) : ∀ e ∈ es, e.key = k := by
  intro e he
  cases h with
  | skipped =>
    rw [List.mem_singleton.mp he]
    rfl
  | passed | taken => cases he
  | uncalled hf hended => exact (hended.key e he).trans (Plan.find?_eq_some hf).2
  | called hf => exact (Change.key_of_mem_opening he).trans (Plan.find?_eq_some hf).2
  | answered hf hended =>
    obtain ⟨-, c, known, hf', hi⟩ := ha.calling _ rfl
    obtain rfl := Option.some.inj (hf'.symm.trans hf)
    exact ((hended known hi).key e (List.mem_append_right _ he)).trans (Plan.find?_eq_some hf).2
  | brokeDown =>
    simp only [List.mem_cons, List.not_mem_nil, or_false] at he
    rcases he with rfl | rfl <;> rfl

end Turn

/-- At a choice that begins nothing, every node stays at its stage. -/
structure Stays (w w' : Walk σ) (ch : Choice) (decided ds : List (String × Except Status Unit)) :
    Prop where
  choice : ∀ k, ch ≠ .begin k
  run_extends : Run.Extends w.run w'.run []
  states : ∀ k, w'.stateOf k = w.stateOf k
  places : ∀ k stage, (k, stage) ∈ w'.places (decided ++ ds) → (k, stage) ∈ w.places decided

/-- The node `key` goes from one stage to another, and all others stay where they are. -/
structure Moves (w w' : Walk σ) (decided ds : List (String × Except Status Unit)) (key : String)
    (stage stage' : Stage) (es : List Entry) : Prop where
  run_extends : Run.Extends w.run w'.run es
  source : (key, stage) ∈ w.places decided
  target : (key, stage') ∈ w'.places (decided ++ ds)
  states : ∀ k ≠ key, w'.stateOf k = w.stateOf k
  places : ∀ k ≠ key, ∀ s, (k, s) ∈ w'.places (decided ++ ds) → (k, s) ∈ w.places decided

/-- A worker leaves `busy` with the result of its node: `Moves` holds whatever it wrote to the run,
if it wrote the state of no other node. -/
theorem Moves.of_done {key : String} {t : Task} {r : Except Status Unit}
    (hbusy : (key, t) ∈ w.busy)
    (hw : w'.awaited = w.awaited ∧ w'.queue = w.queue ∧ w'.busy = w.busy.erase (key, t) ∧
      w'.results = w.results ++ [(key, r)])
    (hx : Run.Extends w.run w'.run es) (hst : ∀ k ≠ key, w'.stateOf k = w.stateOf k) :
    Moves w w' decided [] key t.stage (.ended r) es := by
  obtain ⟨hawaited, hqueue, hbusy', hresults⟩ := hw
  refine ⟨hx, busy_mem hbusy, ended_mem (.inl (by simp [hresults])), hst, fun k hke s hm => ?_⟩
  rw [List.append_nil] at hm
  refine places_mono hm (fun hk => hawaited ▸ hqueue ▸ hk) (fun t hk => ?_) fun r hk => ?_
  · rw [hbusy'] at hk
    exact List.mem_of_mem_erase hk
  · simpa [hresults, hke] using hk

/-- `Moves` for a node that a worker takes and gives back at once, cancelled or executed in an
earlier walk. -/
theorem Moves.of_queued {key : String} {r : Except Status Unit} (hq : key ∈ w.queue)
    (hw : w'.awaited = w.awaited ∧ w'.queue = w.queue.erase key ∧ w'.busy = w.busy ∧
      w'.results = w.results ++ [(key, r)])
    (hx : Run.Extends w.run w'.run es) (hst : ∀ k, w'.stateOf k = w.stateOf k) :
    Moves w w' decided [] key .waiting (.ended r) es := by
  obtain ⟨hawaited, hqueue, hbusy, hresults⟩ := hw
  refine ⟨hx, waiting_mem (.inr hq), ended_mem (.inl (by simp [hresults])), fun k _ => hst k,
    fun k hke s hm => ?_⟩
  rw [List.append_nil] at hm
  refine places_mono hm (fun hk => ?_) (fun t hk => hbusy ▸ hk) fun r hk => ?_
  · rw [hawaited, hqueue] at hk
    exact hk.imp_right List.mem_of_mem_erase
  · simpa [hresults, hke] using hk

/-- `Moves` for a node that is queued no longer, as a worker starts on it. -/
theorem Moves.of_taken {key : String} (hq : key ∈ w.queue)
    (hw : w'.awaited = w.awaited ∧ w'.queue = w.queue.erase key ∧
      w'.busy = w.busy ++ [(key, .resolving)] ∧ w'.results = w.results)
    (hx : Run.Extends w.run w'.run es) (hst : ∀ k ≠ key, w'.stateOf k = w.stateOf k) :
    Moves w w' decided [] key .waiting .resolving es := by
  obtain ⟨hawaited, hqueue, hbusy, hresults⟩ := hw
  have htarget : (key, Task.resolving) ∈ w'.busy := by simp [hbusy]
  refine ⟨hx, waiting_mem (.inr hq), busy_mem htarget, hst, fun k hke s hm => ?_⟩
  rw [List.append_nil] at hm
  refine places_mono hm (fun hk => ?_) (fun t hk => ?_) fun r hk => hresults ▸ hk
  · rw [hawaited, hqueue] at hk
    exact hk.imp_right List.mem_of_mem_erase
  · simpa [hbusy, hke] using hk

/-- `Moves` for a node that goes on from its references to its call. -/
theorem Moves.of_begun {key : String} {call : Call} (hb : (key, .resolving) ∈ w.busy)
    (hw : w'.awaited = w.awaited ∧ w'.queue = w.queue ∧
      w'.busy = w.busy.erase (key, .resolving) ++ [(key, .calling call)] ∧ w'.results = w.results)
    (hx : Run.Extends w.run w'.run es) (hst : ∀ k ≠ key, w'.stateOf k = w.stateOf k) :
    Moves w w' decided [] key .resolving (.calling call) es := by
  obtain ⟨hawaited, hqueue, hbusy, hresults⟩ := hw
  have htarget : (key, Task.calling call) ∈ w'.busy := by simp [hbusy]
  refine ⟨hx, busy_mem hb, busy_mem htarget, hst, fun k hke s hm => ?_⟩
  rw [List.append_nil] at hm
  refine places_mono hm (fun hk => hawaited ▸ hqueue ▸ hk) (fun t hk => ?_)
    fun r hk => hresults ▸ hk
  have hk : (k, t) ∈ w.busy.erase (key, .resolving) := by simpa [hbusy, hke] using hk
  exact List.mem_of_mem_erase hk

/-- `Moves` for a node whose result the scheduler knows at once, past all workers. -/
theorem Moves.of_skipped {key : String} {n : Nat} {r : Except Status Unit}
    (ha : w.awaited.get? key = some n)
    (hw : w'.awaited = w.awaited.erase key ∧ w'.queue = w.queue ∧ w'.busy = w.busy ∧
      w'.results = w.results)
    (hx : Run.Extends w.run w'.run es) (hst : ∀ k, w'.stateOf k = w.stateOf k) :
    Moves w w' decided [(key, r)] key .waiting (.ended r) es := by
  obtain ⟨hawaited, hqueue, hbusy, hresults⟩ := hw
  refine ⟨hx, waiting_mem (.inl (Keyed.mem_keys.mpr ⟨n, ha⟩)), ended_mem (.inr (by simp)),
    fun k _ => hst k, fun k hke s hm => ?_⟩
  refine places_mono hm (fun hk => ?_) (fun t hk => hbusy ▸ hk) fun r hk => ?_
  · simpa [hawaited, hqueue, Keyed.mem_keys, Ne.symm hke] using hk
  · simpa [hresults, hke] using hk

/-- Every node stays at its stage, or one of them moves by a turn. -/
inductive Turned (setup : Setup σ) (g : Graph) (w w' : Walk σ) (ch : Choice)
    (decided ds : List (String × Except Status Unit)) : List Entry → Prop
  | stays (hm : Stays w w' ch decided ds) : Turned setup g w w' ch decided ds []
  | moves {key : String} {stage stage' : Stage} {es : List Entry}
    (hm : Moves w w' decided ds key stage stage' es)
    (ht : Turn setup g decided w.run key ch stage (w.stateOf key) stage' (w'.stateOf key) es) :
    Turned setup g w w' ch decided ds es

namespace Turned

theorem run_extends (h : Turned setup g w w' ch decided ds es) : Run.Extends w.run w'.run es := by
  cases h with
  | stays hm => exact hm.run_extends
  | moves hm => exact hm.run_extends

end Turned

/-- Why the scheduler skips a node that it has told of `d` is why the node is withheld. -/
theorem Skips.withheld (hs : Scheduled g w decided) (hgd : Guarded g w decided) {d : Departure}
    {rest : List Departure} {key : String} {s : Status} (hd : w.departures = d :: rest)
    (hk : key ∈ d.untold)
    (h : Skips w.run.cancelled ((d.block key w.blocked).get? key) s) :
    Withheld g decided w.run.cancelled key s ∧ (w.run.cancelled = true → s = .notStarted) := by
  cases h with
  | cancelled hc => exact ⟨.cancelled hc, fun _ => rfl⟩
  | blocked hc hb =>
    obtain ⟨he, s', hp⟩ := hgd.blocked_told hs hd hk hb
    exact ⟨.blocked he hp, fun hc' => absurd (hc.symm.trans hc') nofun⟩

/-- **Step.** Under `Scheduled` and `Guarded` a step leaves every node at its stage or takes one of
them a turn further; what concerns nodes is proved of `Turn` from here on. -/
theorem Step.turn (hs : Scheduled g w decided) (hgd : Guarded g w decided)
    (hst : Step setup g jobs w ch w' ds) : ∃ es, Turned setup g w w' ch decided ds es := by
  cases hst with
  | idle hd hk ha =>
    -- Does not happen: who is untold is still awaited.
    obtain ⟨n, hn, -⟩ := hs.awaited_of_untold (hd ▸ List.mem_cons_self) hk
    rw [ha] at hn
    cases hn
  -- The scheduler counts, or queues a node: awaited or queued, it is waiting.
  | @countDown d rest key n hd hk ha hn =>
    refine ⟨_, .stays ⟨nofun, .refl _, fun k => rfl, fun k stage hm => ?_⟩⟩
    rw [List.append_nil] at hm
    refine places_mono hm (fun hk => ?_) (fun t hk => hk) fun r hk => hk
    rwa [Keyed.keys_insert (Keyed.mem_keys.mpr ⟨n, ha⟩)] at hk
  | @enqueue d rest key n hd hk ha hn hc hb =>
    have hkey : key ∈ w.awaited.keys := Keyed.mem_keys.mpr ⟨n, ha⟩
    refine ⟨_, .stays ⟨nofun, .refl _, fun k => rfl, fun k stage hm => ?_⟩⟩
    rw [List.append_nil] at hm
    refine places_mono hm (fun hk => ?_) (fun t hk => hk) fun r hk => hk
    rw [(Keyed.keys_perm_erase hkey).mem_iff, List.mem_cons]
    rw [List.mem_append, List.mem_singleton] at hk
    exact hk.elim (fun hk => .inl (.inr hk)) fun hk => hk.elim .inr fun hk => .inl (.inl hk)
  | leave hd hu =>
    refine ⟨_, .stays ⟨nofun, .refl _, fun k => rfl, fun k stage hm => ?_⟩⟩
    rwa [List.append_nil] at hm
  | cancel =>
    refine ⟨_, .stays ⟨nofun, Run.cancel_extends _, fun k => rfl, fun k stage hm => ?_⟩⟩
    rwa [List.append_nil] at hm
  | @receive key c r hd hr hf =>
    refine ⟨_, .stays ⟨nofun, .refl _, fun k => rfl, fun k stage hm => ?_⟩⟩
    -- The received result goes over to the known ones, which is the same stage.
    refine places_mono hm id (fun t hk => hk) fun r' hk => ?_
    simp only [List.mem_append, (results_perm hr).mem_iff, List.mem_cons, List.not_mem_nil,
      or_false] at hk ⊢
    exact hk.elim (fun hk => .inl (.inr hk)) fun hk => hk.elim .inr fun hk => .inl (.inl hk)
  | skip hd hk ha hn hsk =>
    obtain ⟨hwithheld, hcancelled⟩ := hsk.withheld hs hgd hd hk
    exact ⟨_, .moves (.of_skipped ha ⟨rfl, rfl, rfl, rfl⟩ (Run.emit_extends _ _) fun k => rfl)
      (.skipped nofun hwithheld hcancelled)⟩
  -- A worker takes a node, and gives it back at once unless the node is to be executed.
  | takeCancelled hq hc =>
    refine ⟨_, .moves (.of_queued hq ⟨rfl, rfl, rfl, rfl⟩ (Run.emit_extends _ _) fun k => rfl)
      (.skipped ?_ (.cancelled hc) fun _ => rfl)⟩
    exact fun _ => Choice.noConfusion
  | takeAgain hq hc hstate =>
    exact ⟨_, .moves (.of_queued hq ⟨rfl, rfl, rfl, rfl⟩ (.refl _) fun k => rfl)
      (.passed hstate hc)⟩
  | takeUp hq hc hstate =>
    refine ⟨[], .moves (.of_taken hq ⟨rfl, rfl, rfl, rfl⟩ (.refl _) fun k hke =>
      (stateOf_insert k).trans (if_neg hke)) ?_⟩
    unfold stateOf at hstate ⊢
    rw [hstate, stateOf_insert, if_pos rfl]
    exact .taken hc
  -- A worker goes on with its node: what the run did is read off `Run.begin` and `Run.finish`.
  | @beginOver key c r run hb hf hr =>
    obtain ⟨es, hx, he⟩ := Run.begin_over hr
    refine ⟨es, .moves (.of_done hb ⟨rfl, rfl, rfl, rfl⟩ hx fun k hke =>
      (stateOf_insert k).trans (if_neg hke)) ?_⟩
    unfold stateOf
    rw [stateOf_insert, if_pos rfl]
    exact .uncalled hf he
  | @beginCall key c call run hb hf hr =>
    obtain ⟨hi, hx⟩ := Run.begin_calling hr
    refine ⟨_, .moves (.of_begun hb ⟨rfl, rfl, rfl, rfl⟩ hx fun k hke =>
      (stateOf_insert k).trans (if_neg hke)) ?_⟩
    unfold stateOf
    rw [stateOf_insert, if_pos rfl]
    exact .called hf hi
  | @finishOver key c call r run hb hf hr =>
    obtain ⟨es, hx, he⟩ := Run.finish_over hr
    refine ⟨es, .moves (.of_done hb ⟨rfl, rfl, rfl, rfl⟩ hx fun k hke =>
      (stateOf_insert k).trans (if_neg hke)) ?_⟩
    unfold stateOf
    rw [stateOf_insert, if_pos rfl]
    exact .answered hf he
  | @finishBroken key c call run hb hf hr =>
    obtain ⟨hx, hanswer⟩ := Run.finish_brokeDown hr
    -- The failure of a node that broke down is told after `Run.finish`: one more entry.
    have hx := hx.trans (Run.emit_extends run ⟨key, .failed, some (.brokeDown key)⟩)
    rw [(Plan.find?_eq_some hf).2] at hx
    exact ⟨_, .moves (.of_done hb ⟨rfl, rfl, rfl, rfl⟩ hx fun k hke => rfl)
      (.brokeDown hf hanswer)⟩

end Walk

end Provision
