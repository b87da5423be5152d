import Provision.Proofs.Walk.Life
import Provision.Proofs.Walk.Tally

/-!
# The invariant of a walk

* `Walk.Inv`: all that a walk of fresh nodes keeps, with the results that the scheduler knows and
  the entries added to the history. `Inv.start`, `Inv.steps`: every such walk keeps it, and nothing
  more happens to a node with a known result.
* `Inv.induct`: what every turn keeps of the choices, the walk and the history, a walk keeps.
* `Walk.Adds`: all that a step can add to the history.
* `Inv.cleared`, `Inv.blocked`: why a node was started, or why not.
* `Inv.failure?_eq_some_iff`: the summary lists the nodes that did not succeed.
-/

namespace Provision

namespace Walk

variable {σ : Type} {setup : Setup σ} {g : Graph} {jobs : Nat} {w w' : Walk σ} {ch : Choice}
  {decided ds : List (String × Except Status Unit)} {run₀ : Run σ} {entries : List Entry}

/-- The summary is at every step the tally of `decided`: only `Step.skip` and `Step.receive` touch
it, and each with the result that it adds. -/
theorem Step.summary_eq (h : Step setup g jobs w ch w' ds)
    (ht : w.summary = g.tally setup.operation decided) :
    w'.summary = g.tally setup.operation (decided ++ ds) := by
  cases h with
  | skip =>
    rw [Graph.tally_append_singleton, ← ht]
    rfl
  | receive hd hr hf =>
    rw [Graph.tally_append_singleton, ← ht]
    unfold Graph.actionAt
    rw [hf]
    rfl
  | idle | countDown | enqueue | leave | takeCancelled | takeAgain | takeUp | beginOver | beginCall
  | finishOver | finishBroken | cancel =>
    rw [List.append_nil]
    exact ht

namespace Scheduled

variable {k : String}

theorem exists_result_of_isOver (hg : g.Sound) (h : Scheduled g w decided) (ho : w.isOver = true)
    (hk : k ∈ g.plan.keys) : ∃ r, (k, r) ∈ decided := by
  have hm := (h.decided_perm hg ho).mem_iff.mpr hk
  obtain ⟨⟨_, r⟩, hr, rfl⟩ := List.mem_map.mp hm
  exact ⟨r, hr⟩

variable (hg : g.Sound) (h : Scheduled g w decided) {op : Operation}
  (ht : w.summary = g.tally op decided)

include hg h ht

/-- `Summary.failure?` finds the status of every node that did not succeed. The list is searched for
the first entry of `k`; that there is no other is `result_unique`. -/
theorem failure?_eq_some_iff {s : Status} :
    w.summary.failure? k = some s ↔ (k, .error s) ∈ decided := by
  have hmem : ∀ n s, (n, s) ∈ w.summary.failures ↔ (n, .error s) ∈ decided := fun n s => by
    rw [ht]
    exact Graph.mem_failures_tally
  have hkey : ∀ {n : String × Status}, w.summary.failures.find? (·.1 = k) = some n → n.1 = k :=
    fun hf => by
      have := List.find?_some hf
      exact of_decide_eq_true this
  unfold Summary.failure?
  rw [Option.map_eq_some_iff]
  constructor
  · rintro ⟨⟨n, s⟩, hf, rfl⟩
    obtain rfl : n = k := hkey hf
    exact (hmem n s).mp (List.mem_of_find?_eq_some hf)
  · intro hs
    have hf : (w.summary.failures.find? (·.1 = k)).isSome :=
      List.find?_isSome.mpr ⟨(k, s), (hmem k s).mpr hs, by simp⟩
    obtain ⟨⟨n, s'⟩, hf⟩ := Option.isSome_iff_exists.mp hf
    obtain rfl : n = k := hkey hf
    have hs' := (hmem n s').mp (List.mem_of_find?_eq_some hf)
    refine ⟨_, hf, ?_⟩
    cases h.result_unique hg hs hs'
    rfl

/-- It finds nothing for a node that succeeded; `hr` leaves out nodes that have no result yet. -/
theorem failure?_eq_none_iff {r : Except Status Unit} (hr : (k, r) ∈ decided) :
    w.summary.failure? k = none ↔ r = .ok () := by
  rw [Option.eq_none_iff_forall_ne_some]
  constructor
  · intro hn
    cases r with
    | ok u => rfl
    | error s => exact absurd ((h.failure?_eq_some_iff hg ht).mpr hr) (hn s)
  · rintro rfl s hs
    cases h.result_unique hg hr ((h.failure?_eq_some_iff hg ht).mp hs)

/-- A walk that is over has `decided` every node once (`decided_perm`), so `Graph.tally_accounts`
applies. -/
theorem accounts (ho : w.isOver = true) {succeeded : String → Prop} [DecidablePred succeeded]
    (hs : ∀ k r, (k, r) ∈ decided → (succeeded k ↔ r = .ok ())) :
    w.summary.Accounts op g.plan succeeded := by
  rw [ht]
  refine Graph.tally_accounts hg.keys_nodup (h.decided_perm hg ho) (fun k r hr => ?_) op
  rw [hs k r hr, Status.eq_ok_iff_isOk]

end Scheduled

/-- All that a walk of fresh nodes keeps: it went on from `run₀`, the scheduler knows the results
`decided`, and `entries` were added to the history. -/
structure Inv (setup : Setup σ) (g : Graph) (run₀ : Run σ) (w : Walk σ)
    (decided : List (String × Except Status Unit)) (entries : List Entry) : Prop where
  scheduled : Scheduled g w decided
  guarded : Guarded g w decided
  lives : Lives setup g run₀ w decided entries
  tallied : w.summary = g.tally setup.operation decided

namespace Inv

theorem start (hg : g.Sound) (run : Run σ) : Inv setup g run (start g run .empty) [] [] where
  scheduled := .start hg run .empty
  guarded := .start run .empty
  lives := .start run
  tallied := rfl

/-- **Step.** `Scheduled`, `Guarded`, `Lives` and the tally are kept together: the stories need the
schedule of the same walk. -/
theorem step (hg : g.Sound) (h : Inv setup g run₀ w decided entries)
    (hst : Step setup g jobs w ch w' ds) :
    ∃ es, Turned setup g w w' ch decided ds es ∧
      Inv setup g run₀ w' (decided ++ ds) (entries ++ es) ∧ ∀ e ∈ es, e.key ∈ w.active := by
  obtain ⟨es, ht⟩ := hst.turn h.scheduled h.guarded
  obtain ⟨hl, hes⟩ := h.lives.step hg h.scheduled h.guarded hst ht
  exact ⟨es, ht, ⟨h.scheduled.step hg hst, h.guarded.step hg h.scheduled hst, hl,
    hst.summary_eq h.tallied⟩, hes⟩

/-- **Run.** Several steps keep the invariant, and add nothing more about a node with a known
result. -/
theorem steps (hg : g.Sound) (h : Inv setup g run₀ w decided entries) {cs : List Choice}
    (hw : w.steps? setup g jobs cs = some w') :
    ∃ ds es, Inv setup g run₀ w' (decided ++ ds) (entries ++ es) ∧
      ∀ k ∈ decided.map Prod.fst, Entry.about k es = [] := by
  refine steps?_induct (P := fun w known => ∃ es, Inv setup g run₀ w known (entries ++ es) ∧
    (∀ k ∈ decided.map Prod.fst, k ∈ known.map Prod.fst ∧ Entry.about k es = [])) ?_ hw
    ⟨[], by rwa [List.append_nil], fun k hk => ⟨hk, rfl⟩⟩ |>.imp fun ds hds => ?_
  · -- Entries are about active nodes, and a node with a known result is not active.
    rintro w ch w' known ds ⟨es, hi, hold⟩ hst
    obtain ⟨es', -, hi', hes'⟩ := hi.step hg hst
    rw [List.append_assoc] at hi'
    refine ⟨es ++ es', hi', fun k hk => ?_⟩
    obtain ⟨hknown, habout⟩ := hold k hk
    refine ⟨by rw [List.map_append]; exact List.mem_append_left _ hknown, ?_⟩
    rw [Entry.about_append, habout, List.nil_append]
    refine List.filter_eq_nil_iff.mpr fun e he hke => ?_
    rw [decide_eq_true_eq] at hke
    exact hi.scheduled.not_active hg hknown (hke ▸ hes' e he)
  · obtain ⟨es, hi, hold⟩ := hds
    exact ⟨es, hi, fun k hk => (hold k hk).2⟩

/-- `Inv` holds of every walk of fresh nodes through a sound graph, whatever the run and the
choices. -/
theorem of_steps (hg : g.Sound) {run : Run σ} {cs : List Choice}
    (hw : (Walk.start g run .empty).steps? setup g jobs cs = some w) :
    ∃ decided entries, Inv setup g run w decided entries := by
  obtain ⟨decided, entries, h, -⟩ := (Inv.start hg run).steps hg hw
  exact ⟨_, _, h⟩

/-- **Induction.** What every step keeps of the choices made, the walk and the entries added, a walk
keeps. The step gets `Inv` on both of its sides and the `Turned` between them. -/
theorem induct (hg : g.Sound) {P : List Choice → Walk σ → List Entry → Prop}
    (hstep : ∀ {cs w ch w' decided ds entries es}, Inv setup g run₀ w decided entries →
      Step setup g jobs w ch w' ds → Turned setup g w w' ch decided ds es →
      Inv setup g run₀ w' (decided ++ ds) (entries ++ es) → P cs w entries →
      P (cs ++ [ch]) w' (entries ++ es))
    (h : Inv setup g run₀ w decided entries) (before : List Choice) (hP : P before w entries)
    {cs : List Choice} (hw : w.steps? setup g jobs cs = some w') :
    ∃ ds es, Inv setup g run₀ w' (decided ++ ds) (entries ++ es) ∧
      P (before ++ cs) w' (entries ++ es) := by
  induction cs generalizing w decided entries before with
  | nil =>
    cases hw
    refine ⟨[], [], ?_⟩
    rw [List.append_nil, List.append_nil, List.append_nil]
    exact ⟨h, hP⟩
  | cons ch cs ih =>
    obtain ⟨v, hv, hw⟩ := Option.bind_eq_some_iff.mp hw
    obtain ⟨ds, hst⟩ := step_of_step? hv
    obtain ⟨es, ht, h', -⟩ := h.step hg hst
    obtain ⟨ds', es', h'', hP'⟩ := ih h' _ (hstep h hst ht h' hP) hw
    refine ⟨ds ++ ds', es ++ es', ?_⟩
    rw [← List.append_assoc, ← List.append_assoc, List.append_cons]
    exact ⟨h'', hP'⟩

end Inv

/-! ## What is added to the history -/

/-- What a step can add to the history, from a walk that knows the resources `known`. -/
inductive Adds (setup : Setup σ) (g : Graph) (known : Index) : Choice → List Entry → Prop
  | nothing {ch : Choice} (hc : ∀ k, ch ≠ .begin k) : Adds setup g known ch []
  | told {ch : Choice} {e : Event} (hc : ∀ k, ch ≠ .begin k) :
    Adds setup g known ch [.emitted e]
  /-- A node starts and ends without a call. -/
  | ended {key : String} {c : Change} {state : NodeState} {r : Except Status Unit}
    {es : List Entry} (hf : g.find? key = some c) (he : c.Ended setup known state r es) :
    Adds setup g known (.begin key) es
  | called {key : String} {c : Change} {call : Call} (hf : g.find? key = some c)
    (hi : c.intent setup known = .ok (.call call)) :
    Adds setup g known (.begin key) (c.opening call)
  /-- The call of a node ends that started when `known'` was known. -/
  | finished {key : String} {c : Change} {known' : Index} {call : Call} {state : NodeState}
    {r : Except Status Unit} {es : List Entry} (hf : g.find? key = some c)
    (hi : c.intent setup known' = .ok (.call call))
    (he : c.Ended setup known' state r (c.opening call ++ es)) :
    Adds setup g known (.finish key) es

theorem Turn.adds {run : Run σ} {k : String} {stage stage' : Stage} {state state' : NodeState}
    {es : List Entry} (h : Turn setup g decided run k ch stage state stage' state' es)
    (ha : Attended setup g k stage state) : Adds setup g run.known ch es := by
  cases h with
  | skipped hch => exact .told hch
  | passed | taken => exact .nothing nofun
  | uncalled hf he => exact .ended hf he
  | called hf hi => exact .called hf hi
  | answered hf he =>
    obtain ⟨-, c, known, hf', hi⟩ := ha.calling _ rfl
    obtain rfl := Option.some.inj (hf'.symm.trans hf)
    exact .finished hf hi (he known hi)
  | brokeDown hf hanswer =>
    obtain ⟨-, c, known, hf', hi⟩ := ha.calling _ rfl
    obtain rfl := Option.some.inj (hf'.symm.trans hf)
    have he := Change.Ended.brokeDown hi hanswer
    rw [(Plan.find?_eq_some hf).2] at he
    exact .finished hf hi he

theorem Turned.adds {es : List Entry} (h : Turned setup g w w' ch decided ds es)
    (ha : ∀ {k stage}, (k, stage) ∈ w.places decided → Attended setup g k stage (w.stateOf k)) :
    Adds setup g w.run.known ch es := by
  cases h with
  | stays hm => exact .nothing hm.choice
  | moves hm ht => exact ht.adds (ha hm.source)

/-! ## Nodes -/

namespace Inv

theorem story (h : Inv setup g run₀ w decided entries) {k : String} {r : Except Status Unit}
    (hk : (k, r) ∈ decided) :
    Story setup g decided w.run k (.ended r) (w.stateOf k) (Entry.about k entries) :=
  h.lives.story k _ (ended_mem (.inr hk))

theorem exists_result (hg : g.Sound) (h : Inv setup g run₀ w decided entries)
    (ho : w.isOver = true) {k : String} (hk : k ∈ g.plan.keys) : ∃ r, (k, r) ∈ decided :=
  h.scheduled.exists_result_of_isOver hg ho hk

/-- A node that was started waits only for nodes that succeeded, at whatever stage it is now. -/
theorem cleared (h : Inv setup g run₀ w decided entries) {k : String}
    (hk : k ∈ g.plan.keys) (hx : w.stateOf k ≠ .pending) :
    ∀ p, (p, k) ∈ g.edges → (p, .ok ()) ∈ decided := by
  obtain ⟨stage, hm⟩ := h.scheduled.exists_stage hk
  rcases mem_places.mp hm with ⟨rfl, -⟩ | ⟨t, hb, -⟩ | ⟨r, hr | hr, rfl⟩
  · exact absurd (h.lives.story k _ hm).of_waiting.1 hx
  · exact h.guarded.cleared k (mem_underway_of_busy hb)
  · exact h.guarded.cleared k (mem_underway_of_result hr)
  · rcases (h.story hr).of_ended with ⟨c, known, -, -, -, hp⟩ | ⟨s, -, -, hpending, -⟩
    · exact hp
    · exact absurd hpending hx

/-- A node that was never started is blocked by a predecessor that did not succeed, and this is all
that the history tells of it. Cancelled runs are left out: there `Status.notStarted` is the
reason. -/
theorem blocked (h : Inv setup g run₀ w decided entries) (hc : w.run.cancelled = false)
    {k : String} {r : Except Status Unit} (hr : (k, r) ∈ decided) (hx : w.stateOf k = .pending) :
    ∃ p s, (p, k) ∈ g.edges ∧ (p, .error s) ∈ decided ∧ r = .error (.blockedBy p) ∧
      Entry.about k entries = [.emitted ⟨k, .skipped, some (.blockedBy p)⟩] := by
  rcases (h.story hr).of_ended with ⟨c, known, -, -, he, -⟩ | ⟨s, rfl, hw, -, habout⟩
  · exact absurd hx he.state_ne.1
  · cases hw with
    | cancelled h => exact absurd (hc.symm.trans h) nofun
    | blocked hedge hp => exact ⟨_, _, hedge, hp, rfl, habout⟩

/-- `Scheduled.failure?_eq_some_iff` for a walk of fresh nodes. -/
theorem failure?_eq_some_iff (hg : g.Sound) (h : Inv setup g run₀ w decided entries) {k : String}
    {s : Status} : w.summary.failure? k = some s ↔ (k, .error s) ∈ decided :=
  h.scheduled.failure?_eq_some_iff hg h.tallied

end Inv

end Walk

end Provision
