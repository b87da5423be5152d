import Provision.Run.Walk

/-!
# The steps of a walk

* `Walk.Step`: all that one step can do, one constructor for each way it can go.
* `Walk.step_of_step?`: a step that is made is one of these.
* `Walk.steps?_induct`: what every step keeps, several steps keep.
-/

namespace Provision

/-- `Departure.block` writes only at the node that is told, only for a departure that did not
succeed, and never over a predecessor that is remembered already: the first one stays. -/
theorem Departure.get?_block (d : Departure) (key : String) (blocked : Keyed String) (k : String) :
    (d.block key blocked).get? k =
      if k = key ∧ d.succeeded = false then (blocked.get? key).or d.key else blocked.get? k := by
  unfold block
  split
  · next p hs hp hb =>
    by_cases hk : k = key
    · simp [hk, hs, hp, hb]
    · simp [hk, Ne.symm hk]
  · next hne =>
    split
    · next h =>
      obtain ⟨rfl, hs⟩ := h
      cases hb : blocked.get? k with
      | some p => rfl
      | none =>
        cases hp : d.key with
        | none => rfl
        | some p => exact absurd hb (hne p hs hp)
    · rfl

namespace Walk

variable {σ : Type}

/-- Why a node whose predecessors have all ended is skipped. -/
inductive Skips (cancelled : Bool) (blocked : Option String) : Status → Prop
  | cancelled (h : cancelled = true) : Skips cancelled blocked .notStarted
  | blocked {p : String} (h : cancelled = false) (hb : blocked = some p) :
    Skips cancelled blocked (.blockedBy p)

/-- What one step can do, with the nodes that the scheduler learns the results of. -/
inductive Step (setup : Setup σ) (g : Graph) (jobs : Nat) (w : Walk σ) :
    Choice → Walk σ → List (String × Except Status Unit) → Prop
  /-- A node that is settled already is told. -/
  | idle {d : Departure} {rest : List Departure} {key : String} (hd : w.departures = d :: rest)
    (hk : key ∈ d.untold) (ha : w.awaited.get? key = none) :
    Step setup g jobs w (.tell key) { w with
      departures := d.told key :: rest
      blocked := d.block key w.blocked } []
  | countDown {d : Departure} {rest : List Departure} {key : String} {n : Nat}
    (hd : w.departures = d :: rest) (hk : key ∈ d.untold) (ha : w.awaited.get? key = some n)
    (hn : 1 < n) :
    Step setup g jobs w (.tell key) { w with
      departures := d.told key :: rest
      blocked := d.block key w.blocked
      awaited := w.awaited.insert key (n - 1) } []
  | enqueue {d : Departure} {rest : List Departure} {key : String} {n : Nat}
    (hd : w.departures = d :: rest) (hk : key ∈ d.untold) (ha : w.awaited.get? key = some n)
    (hn : n ≤ 1) (hc : w.run.cancelled = false) (hb : (d.block key w.blocked).get? key = none) :
    Step setup g jobs w (.tell key) { w with
      departures := d.told key :: rest
      blocked := d.block key w.blocked
      awaited := w.awaited.erase key
      queue := w.queue ++ [key] } []
  | skip {d : Departure} {rest : List Departure} {key : String} {n : Nat} {s : Status}
    (hd : w.departures = d :: rest) (hk : key ∈ d.untold) (ha : w.awaited.get? key = some n)
    (hn : n ≤ 1) (hs : Skips w.run.cancelled ((d.block key w.blocked).get? key) s) :
    Step setup g jobs w (.tell key) { w with
      run := w.run.emit ⟨key, .skipped, some s⟩
      departures := d.told key :: ⟨some key, false, g.dependents key⟩ :: rest
      blocked := d.block key w.blocked
      awaited := w.awaited.erase key
      summary := w.summary.fail key s } [(key, .error s)]
  | leave {d : Departure} {rest : List Departure} (hd : w.departures = d :: rest)
    (hu : d.untold = []) :
    Step setup g jobs w .leave { w with departures := rest } []
  /-- The run was cancelled before a worker came to the node. -/
  | takeCancelled {key : String} (hq : key ∈ w.queue) (hc : w.run.cancelled = true) :
    Step setup g jobs w (.take key) { w with
      queue := w.queue.erase key
      run := w.run.emit ⟨key, .skipped, some .notStarted⟩
      results := w.results ++ [(key, .error .notStarted)] } []
  /-- The node was executed in an earlier walk. -/
  | takeAgain {key : String} (hq : key ∈ w.queue) (hc : w.run.cancelled = false)
    (hs : w.stateOf key ≠ .pending) :
    Step setup g jobs w (.take key) { w with
      queue := w.queue.erase key
      results := w.results ++ [(key, .ok ())] } []
  | takeUp {key : String} (hq : key ∈ w.queue) (hc : w.run.cancelled = false)
    (hs : w.stateOf key = .pending) :
    Step setup g jobs w (.take key) { w with
      queue := w.queue.erase key
      states := w.states.insert key .resolving
      busy := w.busy ++ [(key, .resolving)] } []
  | beginOver {key : String} {c : Change} {r : Except Status Unit} {run : Run σ}
    (hb : (key, .resolving) ∈ w.busy) (hf : g.find? key = some c)
    (hr : w.run.begin setup c = (.over r, run)) :
    Step setup g jobs w (.begin key) { w with
      run
      busy := w.busy.erase (key, .resolving)
      states := w.states.insert key (.ofResult r)
      results := w.results ++ [(key, r)] } []
  | beginCall {key : String} {c : Change} {call : Call} {run : Run σ}
    (hb : (key, .resolving) ∈ w.busy) (hf : g.find? key = some c)
    (hr : w.run.begin setup c = (.calling call, run)) :
    Step setup g jobs w (.begin key) { w with
      run
      states := w.states.insert key .executing
      busy := w.busy.erase (key, .resolving) ++ [(key, .calling call)] } []
  | finishOver {key : String} {c : Change} {call : Call} {r : Except Status Unit} {run : Run σ}
    (hb : (key, .calling call) ∈ w.busy) (hf : g.find? key = some c)
    (hr : w.run.finish setup c call = (.over r, run)) :
    Step setup g jobs w (.finish key) { w with
      run
      busy := w.busy.erase (key, .calling call)
      states := w.states.insert key (.ofResult r)
      results := w.results ++ [(key, r)] } []
  | finishBroken {key : String} {c : Change} {call : Call} {run : Run σ}
    (hb : (key, .calling call) ∈ w.busy) (hf : g.find? key = some c)
    (hr : w.run.finish setup c call = (.brokeDown, run)) :
    Step setup g jobs w (.finish key) { w with
      run := run.emit ⟨key, .failed, some (.brokeDown key)⟩
      busy := w.busy.erase (key, .calling call)
      results := w.results ++ [(key, .error (.brokeDown key))] } []
  | receive {key : String} {c : Change} {r : Except Status Unit} (hd : w.departures = [])
    (hr : w.results.lookup key = some r) (hf : g.find? key = some c) :
    Step setup g jobs w (.receive key) { w with
      results := w.results.eraseP (·.1 == key)
      summary := w.summary.count setup.operation c.action key r
      departures := [⟨some key, r.isOk, g.dependents key⟩] } [(key, r)]
  | cancel : Step setup g jobs w .cancel { w with run := { w.run with cancelled := true } } []

variable {setup : Setup σ} {g : Graph} {jobs : Nat}

/-- `Choice.receive` takes the first waiting result that `List.lookup` finds for its key; the others
wait on. -/
theorem results_perm {results : List (String × Except Status Unit)} {key : String}
    {r : Except Status Unit} (h : results.lookup key = some r) :
    results.Perm ((key, r) :: results.eraseP (·.1 == key)) := by
  obtain ⟨front, rest, rfl, hfront⟩ := List.lookup_eq_some_iff.mp h
  have hfront : ∀ e ∈ front, ¬ (e.1 == key) = true := fun e he hk => by
    have hne := hfront e he
    rw [beq_iff_eq.mp hk, bne_self_eq_false] at hne
    cases hne
  have hhead : ((key, r) :: rest).eraseP (·.1 == key) = rest :=
    List.eraseP_cons_of_pos (beq_self_eq_true key)
  rw [List.eraseP_append_right _ hfront, hhead]
  exact List.perm_middle

/-- `settle` is reached at the last departure only (`hn`); then the node is queued (`Step.enqueue`)
or skipped (`Step.skip`). -/
theorem step_of_settle {w : Walk σ} {d : Departure} {rest : List Departure} {key : String} {n : Nat}
    (hd : w.departures = d :: rest) (hk : key ∈ d.untold) (ha : w.awaited.get? key = some n)
    (hn : n ≤ 1) :
    ∃ ds, Step setup g jobs w (.tell key) (settle g key { w with
      departures := d.told key :: rest
      blocked := d.block key w.blocked
      awaited := w.awaited.erase key }) ds := by
  unfold settle
  dsimp only
  split
  · next hc => exact ⟨_, .skip hd hk ha hn (.cancelled hc)⟩
  · next hc =>
    have hc := Bool.eq_false_iff.mpr hc
    split
    · next p hb => exact ⟨_, .skip hd hk ha hn (.blocked hc hb)⟩
    · next hb => exact ⟨_, .enqueue hd hk ha hn hc hb⟩

/-- **Inversion.** Whatever `Walk.step?` makes of a choice is listed in `Step`; no other proof opens
`step?` for what a step does. -/
theorem step_of_step? {w w' : Walk σ} {ch : Choice} (h : w.step? setup g jobs ch = some w') :
    ∃ ds, Step setup g jobs w ch w' ds := by
  cases ch with
  | tell key =>
    simp only [step?] at h
    split at h
    · cases h
    · next d rest hd =>
      split at h
      · next hk =>
        cases h
        unfold count
        dsimp only
        split
        · next ha => exact ⟨_, .idle hd hk ha⟩
        · next n ha =>
          split
          · next hn => exact ⟨_, .countDown hd hk ha hn⟩
          · next hn => exact step_of_settle hd hk ha (Nat.le_of_not_lt hn)
      · cases h
  | leave =>
    simp only [step?] at h
    split at h
    · next hd => cases h; exact ⟨_, .leave hd rfl⟩
    · cases h
  | take key =>
    simp only [step?] at h
    split at h
    · next hq =>
      split at h
      · next hc => cases h; exact ⟨_, .takeCancelled hq.1 hc⟩
      · next hc =>
        have hc := Bool.eq_false_iff.mpr hc
        split at h
        · next hs => cases h; exact ⟨_, .takeAgain hq.1 hc hs⟩
        · next hs => cases h; exact ⟨_, .takeUp hq.1 hc (Decidable.not_not.mp hs)⟩
    · cases h
  | begin key =>
    simp only [step?] at h
    split at h
    · next hb =>
      obtain ⟨c, hf, h⟩ := Option.bind_eq_some_iff.mp h
      split at h
      · next hr => cases h; exact ⟨_, .beginOver hb hf hr⟩
      · next hr => cases h; exact ⟨_, .beginCall hb hf hr⟩
    · cases h
  | finish key =>
    simp only [step?] at h
    obtain ⟨c, hf, h⟩ := Option.bind_eq_some_iff.mp h
    obtain ⟨call, hcall, h⟩ := Option.bind_eq_some_iff.mp h
    -- `findSome?` looks for a call of `key`, so the entry that it found is that of `key`.
    have hb : (key, Task.calling call) ∈ w.busy := by
      obtain ⟨⟨k, task⟩, hm, he⟩ := List.exists_of_findSome?_eq_some hcall
      cases task with
      | resolving => cases he
      | calling call' =>
        dsimp only at he
        split at he
        · next hk => cases he; exact hk ▸ hm
        · cases he
    split at h
    · next hr => cases h; exact ⟨_, .finishOver hb hf hr⟩
    · next hr => cases h; exact ⟨_, .finishBroken hb hf hr⟩
  | receive key =>
    simp only [step?] at h
    split at h
    · next hd =>
      obtain ⟨c, hf, h⟩ := Option.bind_eq_some_iff.mp h
      obtain ⟨r, hr, h⟩ := Option.bind_eq_some_iff.mp h
      cases h
      exact ⟨_, .receive hd hr hf⟩
    · cases h
  | cancel =>
    simp only [step?] at h
    cases h
    exact ⟨_, .cancel⟩

/-- **Runs.** A property of the walk and of the results known to the scheduler that every `Step`
keeps, with the results `ds` that it adds, is kept by `Walk.steps?`. -/
theorem steps?_induct {P : Walk σ → List (String × Except Status Unit) → Prop}
    (hstep : ∀ {w ch w' decided ds}, P w decided → Step setup g jobs w ch w' ds →
      P w' (decided ++ ds))
    {cs : List Choice} {w w' : Walk σ} {decided : List (String × Except Status Unit)}
    (h : w.steps? setup g jobs cs = some w') (hw : P w decided) : ∃ ds, P w' (decided ++ ds) := by
  induction cs generalizing w decided with
  | nil => cases h; exact ⟨[], by rwa [List.append_nil]⟩
  | cons ch cs ih =>
    obtain ⟨w₁, h₁, h⟩ := Option.bind_eq_some_iff.mp h
    obtain ⟨ds, hs⟩ := step_of_step? h₁
    obtain ⟨ds', hw'⟩ := ih h (hstep hw hs)
    exact ⟨ds ++ ds', by rwa [← List.append_assoc]⟩

theorem steps?_append {w w' : Walk σ} (cs ds : List Choice)
    (h : w.steps? setup g jobs (cs ++ ds) = some w') :
    ∃ v, w.steps? setup g jobs cs = some v ∧ v.steps? setup g jobs ds = some w' := by
  induction cs generalizing w with
  | nil => exact ⟨w, rfl, h⟩
  | cons ch cs ih =>
    obtain ⟨w₁, h₁, h⟩ := Option.bind_eq_some_iff.mp h
    obtain ⟨v, hv, h⟩ := ih h
    exact ⟨v, Option.bind_eq_some_iff.mpr ⟨w₁, h₁, hv⟩, h⟩

end Walk

end Provision
