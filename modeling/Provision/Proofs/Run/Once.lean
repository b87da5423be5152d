import Mathlib.Logic.Function.Basic
import Provision.Proofs.Run.Persistence
import Provision.Proofs.Walk.Calls
import Provision.Proofs.Walk.Recorded

/-!
# Nodes are executed once

Several nodes share a run and are told to execute in any order, the same one again and again.

* `Change.Executed`: the ways in which an execution in one go ends; `Run.execute_executed`: there
  are no others.
* `Change.AllOrNothing`: what is expected of an execution. `Change.Executed.allOrNothing`: each of
  the ways meets it.
* `Batch`: nodes that share a run. `Batch.log` keeps what each of them added to the history.
* `Batch.length_share_le`: what an execution does at most once, a node does at most once.
  `Batch.executed_once`: so it is all or nothing, and then never again.
-/

namespace Provision

/-- The calls that entries tell of, of whatever node. -/
def Entry.made (es : List Entry) : List Call :=
  es.filterMap fun
    | .called _ call => some call
    | _ => none

theorem Entry.made_eq_calls {k : String} {es : List Entry} (h : ∀ e ∈ es, e.key = k) :
    Entry.made es = Entry.calls k es := by
  unfold made calls
  refine List.filterMap_congr fun e he => ?_
  cases e with
  | called n call => exact (if_pos (h _ he)).symm
  | emitted | answered | stored | notStored => rfl

namespace Change

variable {σ : Type}

/-- Whether a node has its backend bring about what it plans. -/
def applies (setup : Setup σ) (c : Change) : Bool := setup.operation ≠ .refresh && c.action.isApply

/-- The resource whose type decides which backend a node calls. -/
def subject (setup : Setup σ) (c : Change) : Resource :=
  if c.applies setup then c.resource else setup.recordedOr c.resource

/-- How an execution in one go ends that resolves its references against `known`. -/
inductive Executed (setup : Setup σ) (known : Index) (c : Change) :
    Finished → NodeState → List Entry → Prop
  | ended {r : Except Status Unit} {es : List Entry} (h : c.Ended setup known (.ofResult r) r es) :
    Executed setup known c (.over r) (.ofResult r) es
  /-- Its call never ends, and nobody reports it. -/
  | brokeDown {call : Call} (hi : c.intent setup known = .ok (.call call)) :
    Executed setup known c .brokeDown .executing
      (c.opening call ++ [.answered c.key call .brokeDown])

/-- An execution is all or nothing: `finished` says how it ends, `state` is the state of its node
then, and `es` is what it adds to the history. -/
structure AllOrNothing (setup : Setup σ) (c : Change) (run run' : Run σ) (finished : Finished)
    (state : NodeState) (es : List Entry) : Prop where
  history : run'.history = run.history ++ es
  /-- Without success nothing is changed. -/
  unchanged : finished ≠ .over (.ok ()) → run'.recorded = run.recorded ∧ run'.known = run.known ∧
    run'.state = run.state ∧
    (Entry.snapshots run'.history).getLast? = (Entry.snapshots run.history).getLast?
  /-- A node whose references do not resolve calls nothing and stores nothing, if it needs them. -/
  unresolved : c.applies setup = true → ∀ s, c.resource.attributes.resolve run.known = .error s →
    finished = .over (.error s) ∧ Entry.made es = [] ∧ Entry.attempts es = []
  /-- Nor does a node that needs a backend where there is none. -/
  unserved : c.isNoop setup = false → ∀ s, setup.backends.get (c.subject setup).type = .error s →
    (∃ s, finished = .over (.error s)) ∧ Entry.made es = [] ∧ Entry.attempts es = []
  made : (Entry.made es).length ≤ 1
  attempted : (Entry.attempts es).length ≤ 1
  /-- Nothing is handed to the store before the call has returned, if the node is to make one. -/
  earned : Entry.attempts es ≠ [] → (c.isNoop setup = true ∧ Entry.made es = []) ∨
    ∃ before call m after, es = before ++ .answered c.key call (.returned m) :: after ∧
      Entry.attempts before = []
  succeeded : state = .succeeded ↔ finished = .over (.ok ())
  failed : state = .failed ↔ ∃ s, finished = .over (.error s)
  executing : state = .executing ↔ finished = .brokeDown
  brokeDown : finished = .brokeDown ↔ ∃ call, .answered c.key call .brokeDown ∈ es

variable {setup : Setup σ} {known : Index} {c : Change} {es : List Entry}

/-! ## What a node cannot do -/

theorem applies_iff : c.applies setup = true ↔
    setup.operation ≠ .refresh ∧ c.action.isApply = true := by
  simp [applies]

theorem isNoop_iff : c.isNoop setup = true ↔
    c.action = .unchanged ∧ setup.operation ≠ .refresh := by
  simp [isNoop]

theorem intent_of_unresolved (ha : c.applies setup = true) {s : Status}
    (hs : c.resource.attributes.resolve known = .error s) : c.intent setup known = .error s := by
  obtain ⟨hop, hact⟩ := applies_iff.mp ha
  rw [intent_of_isApply hop hact]
  unfold planned
  rw [hs]
  rfl

/-- A node that needs a backend cannot start where there is none. If its references do not resolve
either, that is what stops it, hence some status `s` and not the given one. -/
theorem intent_of_unserved (hn : c.isNoop setup = false) {s : Status}
    (hs : setup.backends.get (c.subject setup).type = .error s) :
    ∃ s, c.intent setup known = .error s := by
  unfold subject at hs
  rcases intent_cases setup c with ⟨hop, hi⟩ | ⟨hop, ha, hi⟩ | ⟨-, ha, hi⟩ | ⟨hop, ha, -⟩
  · rw [if_neg fun h => (applies_iff.mp h).1 hop] at hs
    exact ⟨s, (hi known).trans (ifServed_eq_error.mpr hs)⟩
  · rw [if_pos (applies_iff.mpr ⟨hop, ha⟩)] at hs
    rw [hi]
    cases hp : c.planned setup known with
    | error s => exact ⟨s, rfl⟩
    | ok planned =>
      rw [← (planned_keeps hp).2.1] at hs
      exact ⟨s, ifServed_eq_error.mpr hs⟩
  · have happlies : ¬ c.applies setup = true := fun h => by
      rw [applies_iff, ha] at h
      cases h.2
    rw [if_neg happlies] at hs
    exact ⟨s, (hi known).trans (ifServed_eq_error.mpr hs)⟩
  · rw [isNoop_iff.mpr ⟨ha, hop⟩] at hn
    cases hn

/-! ## How an execution ends -/

/-- Only a node that has nothing to do keeps what is recorded. -/
theorem isNoop_of_kept {recorded : Option Resource}
    (h : c.intent setup known = .ok (.keep recorded)) : c.isNoop setup = true := by
  cases intends_of_intent h with
  | keep hop ha => exact isNoop_iff.mpr ⟨ha, hop⟩

theorem Earned.attempts_eq {m : Mutation} (h : c.Earned setup known es m) :
    Entry.attempts es = [] := by
  cases h <;> rfl

/-- Without success nothing is stored; a state may have been handed to the store. -/
theorem Ended.snapshots_eq_nil {state : NodeState} {r : Except Status Unit}
    (h : c.Ended setup known state r es) (hr : r ≠ .ok ()) : Entry.snapshots es = [] := by
  cases h with
  | absent | committed => exact absurd rfl hr
  | unfit | refused | brokeDown => rfl
  | uncommitted he =>
    rw [Entry.snapshots_append, he.snapshots_eq]
    rfl

/-- An execution hands nothing to the store, or one state, and what comes before has `Earned` it. -/
theorem Ended.attempts_cases {state : NodeState} {r : Except Status Unit}
    (h : c.Ended setup known state r es) : Entry.attempts es = [] ∨
      ∃ before m after a, es = before ++ after ∧ c.Earned setup known before m ∧
        Entry.attempts after = [a] := by
  cases h with
  | unfit | absent | refused | brokeDown => exact .inl rfl
  | committed he | uncommitted he => exact .inr ⟨_, _, _, _, rfl, he, rfl⟩

theorem Earned.not_brokeDown {m : Mutation} (h : c.Earned setup known es m) (k : String)
    (call : Call) : .answered k call .brokeDown ∉ es := by
  cases h <;> simp [opening]

theorem Ended.of_intent_error {state : NodeState} {r : Except Status Unit}
    (h : c.Ended setup known state r es) {s : Status} (hi : c.intent setup known = .error s) :
    r = .error s ∧ es = [.emitted (c.ending setup (.error s))] := by
  cases h with
  | unfit hi' =>
    cases hi.symm.trans hi'
    exact ⟨rfl, rfl⟩
  | absent hi' | refused hi' | brokeDown hi' => cases hi.symm.trans hi'
  | committed he | uncommitted he =>
    cases he with
    | kept hi' | answered hi' => cases hi.symm.trans hi'

/-- Only a call that broke down leaves its node `.executing`. -/
theorem Ended.not_brokeDown {state : NodeState} {r : Except Status Unit}
    (h : c.Ended setup known state r es) (hs : state ≠ .executing) (k : String) (call : Call) :
    .answered k call .brokeDown ∉ es := by
  cases h with
  | unfit | absent | refused => simp [opening]
  | committed he | uncommitted he => simp [he.not_brokeDown]
  | brokeDown => exact absurd rfl hs

namespace Executed

variable {finished : Finished} {state : NodeState}

theorem key (h : c.Executed setup known finished state es) : ∀ e ∈ es, e.key = c.key := by
  cases h with
  | ended h => exact h.key
  | brokeDown =>
    intro e he
    rcases List.mem_append.mp he with he | he
    · exact key_of_mem_opening he
    · rw [List.mem_singleton.mp he]
      rfl

/-- The calls made are those of `Change.calls`, that is of the intent. -/
theorem made_eq (h : c.Executed setup known finished state es) :
    Entry.made es = c.calls setup known := by
  rw [Entry.made_eq_calls h.key]
  cases h with
  | ended h => exact h.calls_eq
  | brokeDown hi =>
    rw [Entry.calls_append, calls_opening, calls_of_intent hi]
    rfl

theorem state_ne (h : c.Executed setup known finished state es) : state ≠ .pending := by
  cases h with
  | ended h => exact h.state_ne.1
  | brokeDown => exact nofun

/-- The state of a node says how its execution ended, so either can stand for the other. -/
theorem state_iff (h : c.Executed setup known finished state es) :
    (state = .succeeded ↔ finished = .over (.ok ())) ∧
    (state = .failed ↔ ∃ s, finished = .over (.error s)) ∧
    (state = .executing ↔ finished = .brokeDown) := by
  cases h with
  | @ended r =>
    cases r with
    | ok => simp [NodeState.ofResult]
    | error s => simp [NodeState.ofResult]
  | brokeDown => simp

theorem attempts_cases (h : c.Executed setup known finished state es) : Entry.attempts es = [] ∨
    ∃ before m after a, es = before ++ after ∧ c.Earned setup known before m ∧
      Entry.attempts after = [a] := by
  cases h with
  | ended h => exact h.attempts_cases
  | brokeDown => exact .inl rfl

theorem snapshots_eq_nil (h : c.Executed setup known finished state es)
    (hf : finished ≠ .over (.ok ())) : Entry.snapshots es = [] := by
  cases h with
  | ended h => exact h.snapshots_eq_nil fun hr => hf (by rw [hr])
  | brokeDown => rfl

/-- What cannot start does nothing but report it. -/
theorem of_intent_error (h : c.Executed setup known finished state es) {s : Status}
    (hi : c.intent setup known = .error s) :
    finished = .over (.error s) ∧ Entry.made es = [] ∧ Entry.attempts es = [] := by
  cases h with
  | ended h =>
    obtain ⟨rfl, rfl⟩ := h.of_intent_error hi
    exact ⟨rfl, rfl, rfl⟩
  | brokeDown hi' => cases hi.symm.trans hi'

theorem length_attempts_le (h : c.Executed setup known finished state es) :
    (Entry.attempts es).length ≤ 1 := by
  rcases h.attempts_cases with hn | ⟨before, m, after, a, rfl, he, ha⟩
  · simp [hn]
  · simp [Entry.attempts_append, he.attempts_eq, ha]

/-- Each of the ways of `Executed` is all or nothing. -/
theorem allOrNothing {run run' : Run σ} (hx : Run.Extends run run' es)
    (h : c.Executed setup run.known finished state es) :
    c.AllOrNothing setup run run' finished state es where
  history := hx.history
  unchanged hf := by
    have hnil := h.snapshots_eq_nil hf
    refine ⟨?_, ?_, ?_, ?_⟩
    · rw [hx.recorded, Entry.replay_of_snapshots_nil hnil]
    · rw [hx.known, Entry.replay_of_snapshots_nil hnil]
    · rw [hx.state, hnil]
      rfl
    · rw [hx.history, Entry.snapshots_append, hnil, List.append_nil]
  unresolved ha s hs := h.of_intent_error (intent_of_unresolved ha hs)
  unserved hn s hs := by
    obtain ⟨s', hi⟩ := intent_of_unserved hn hs
    obtain ⟨hf, hcalls⟩ := h.of_intent_error hi
    exact ⟨⟨s', hf⟩, hcalls⟩
  made := by
    rw [h.made_eq]
    unfold calls
    split
    · exact Nat.le_refl 1
    · exact Nat.zero_le 1
  attempted := h.length_attempts_le
  earned hne := by
    rcases h.attempts_cases with hn | ⟨before, m, after, a, rfl, he, ha⟩
    · exact absurd hn hne
    · cases he with
      | kept hi =>
        refine .inl ⟨isNoop_of_kept hi, ?_⟩
        rw [h.made_eq, calls, hi]
      | @answered call m hi =>
        refine .inr ⟨c.opening call, call, m, after, ?_, rfl⟩
        rw [List.append_assoc, List.singleton_append]
  succeeded := h.state_iff.1
  failed := h.state_iff.2.1
  executing := h.state_iff.2.2
  brokeDown := by
    cases h with
    | @ended r es h =>
      have hs : NodeState.ofResult r ≠ .executing := by
        cases r with
        | ok => exact nofun
        | error s => exact nofun
      simp [h.not_brokeDown hs]
    | brokeDown => simp

end Executed

end Change

namespace Run

variable {σ : Type}

/-- A pending node is `Executed`: `execute` is `begin` and, if that starts a call, `finish`. -/
theorem execute_executed (setup : Setup σ) (c : Change) (run : Run σ) :
    ∃ es, Extends run (run.execute setup c .pending).2.2 es ∧
      c.Executed setup run.known (run.execute setup c .pending).1
        (run.execute setup c .pending).2.1 es := by
  rcases hb : run.begin setup c with ⟨call | r, run₁⟩
  · obtain ⟨hi, hx⟩ := begin_calling hb
    rcases hf : run₁.finish setup c call with ⟨r | _, run₂⟩
    · have hexec : run.execute setup c .pending = (.over r, .ofResult r, run₂) := by
        simp [execute, hb, hf]
      obtain ⟨es, hx', he⟩ := finish_over hf
      rw [hexec]
      exact ⟨_, hx.trans hx', .ended (he _ hi)⟩
    · have hexec : run.execute setup c .pending = (.brokeDown, .executing, run₂) := by
        simp [execute, hb, hf]
      rw [hexec]
      exact ⟨_, hx.trans (finish_brokeDown hf).1, .brokeDown hi⟩
  · have hexec : run.execute setup c .pending = (.over r, .ofResult r, run₁) := by
      simp [execute, hb]
    obtain ⟨es, hx, he⟩ := begin_over hb
    rw [hexec]
    exact ⟨es, hx, .ended he⟩

end Run

/-! ## Several nodes -/

/-- Nodes that share a run, each in a state of its own. -/
structure Batch (ι σ : Type) where
  states : ι → NodeState
  run : Run σ

namespace Batch

variable {ι σ : Type} [DecidableEq ι]

/-- Executes a node. -/
def execute (setup : Setup σ) (nodes : ι → Change) (b : Batch ι σ) (i : ι) :
    Finished × Batch ι σ :=
  let (finished, state, run) := b.run.execute setup (nodes i) (b.states i)
  (finished, ⟨Function.update b.states i state, run⟩)

/-- Executes several nodes in turn. -/
def executes (setup : Setup σ) (nodes : ι → Change) (b : Batch ι σ) (is : List ι) : Batch ι σ :=
  is.foldl (fun b i => (b.execute setup nodes i).2) b

/-- What the execution of a node adds to the history. -/
def added (setup : Setup σ) (nodes : ι → Change) (b : Batch ι σ) (i : ι) : List Entry :=
  (b.execute setup nodes i).2.run.history.drop b.run.history.length

/-- What several executions add to the history, each entry with the node that was executed. -/
def log (setup : Setup σ) (nodes : ι → Change) : Batch ι σ → List ι → List (ι × Entry)
  | _, [] => []
  | b, i :: is =>
    (b.added setup nodes i).map (i, ·) ++ log setup nodes (b.execute setup nodes i).2 is

/-- What one node added. -/
def share (i : ι) (entries : List (ι × Entry)) : List Entry :=
  (entries.filter (·.1 = i)).map (·.2)

variable {setup : Setup σ} {nodes : ι → Change} {b : Batch ι σ} {i j : ι}

theorem share_append (i : ι) (entries more : List (ι × Entry)) :
    share i (entries ++ more) = share i entries ++ share i more := by
  simp [share]

theorem share_map (i j : ι) (es : List Entry) :
    share i (es.map (j, ·)) = if j = i then es else [] := by
  by_cases h : j = i <;> simp [share, List.filter_map, Function.comp_def, h]

/-- A node that is not pending is left alone, and so is everything else. The result is `.ok` all the
same, also for a node that failed. -/
theorem execute_of_ne_pending (h : b.states i ≠ .pending) :
    b.execute setup nodes i = (.over (.ok ()), b) := by
  unfold execute Run.execute
  rw [if_pos h]
  simp

theorem added_of_ne_pending (h : b.states i ≠ .pending) : b.added setup nodes i = [] := by
  unfold added
  rw [execute_of_ne_pending h, List.drop_length]

/-- Other nodes stay as they are. -/
theorem states_execute_of_ne (setup : Setup σ) (nodes : ι → Change) (b : Batch ι σ) (h : j ≠ i) :
    (b.execute setup nodes i).2.states j = b.states j := Function.update_of_ne h _ _

/-- `Run.execute_executed` for a node of a batch, with `added` for the entries. -/
theorem executed (setup : Setup σ) (nodes : ι → Change) (h : b.states i = .pending) :
    Run.Extends b.run (b.execute setup nodes i).2.run (b.added setup nodes i) ∧
    (nodes i).Executed setup b.run.known (b.execute setup nodes i).1
      ((b.execute setup nodes i).2.states i) (b.added setup nodes i) := by
  obtain ⟨es, hx, he⟩ := Run.execute_executed setup (nodes i) b.run
  have hstate : (b.execute setup nodes i).2.states i =
      (b.run.execute setup (nodes i) (b.states i)).2.1 := Function.update_self ..
  have hrun : (b.execute setup nodes i).2.run =
      (b.run.execute setup (nodes i) (b.states i)).2.2 := rfl
  have hadded : b.added setup nodes i = es := by
    unfold added
    rw [hrun, h, hx.history, List.drop_left]
  rw [hadded, hstate, hrun, h]
  refine ⟨hx, ?_⟩
  have hfinished : (b.execute setup nodes i).1 =
      (b.run.execute setup (nodes i) (b.states i)).1 := rfl
  rw [hfinished, h]
  exact he

/-- After its execution a node is not pending, however it ended; so it is never executed again. -/
theorem states_execute_ne_pending (setup : Setup σ) (nodes : ι → Change) (b : Batch ι σ) (i : ι) :
    (b.execute setup nodes i).2.states i ≠ .pending := by
  by_cases h : b.states i = .pending
  · exact (executed setup nodes h).2.state_ne
  · rw [execute_of_ne_pending h]
    exact h

/-- The history grows by what `log` keeps, with the names of the nodes taken off. -/
theorem history_executes (setup : Setup σ) (nodes : ι → Change) (b : Batch ι σ) (is : List ι) :
    (b.executes setup nodes is).run.history =
      b.run.history ++ (b.log setup nodes is).map (·.2) := by
  induction is generalizing b with
  | nil => simp [executes, log]
  | cons i is ih =>
    have hadded : (b.execute setup nodes i).2.run.history =
        b.run.history ++ b.added setup nodes i := by
      by_cases h : b.states i = .pending
      · exact (executed setup nodes h).1.history
      · rw [added_of_ne_pending h, execute_of_ne_pending h, List.append_nil]
    have hrest := ih (b.execute setup nodes i).2
    rw [hadded] at hrest
    simpa [executes, log, Function.comp_def] using hrest

/-- **Once.** What one execution does at most once (`hone`), a node does at most once in any number
of them, and only if it was pending at first. The bound is on the batch that a list of executions
starts from, so that it can be carried along the list. -/
theorem length_share_le {α : Type} {f : Entry → Option α}
    (hone : ∀ (b : Batch ι σ) (i : ι), b.states i = .pending →
      ((b.added setup nodes i).filterMap f).length ≤ 1) (b : Batch ι σ) (is : List ι) (i : ι) :
    ((share i (b.log setup nodes is)).filterMap f).length ≤
      if b.states i = .pending then 1 else 0 := by
  -- the bound is what the node may still do, so it falls to zero once the node was executed
  induction is generalizing b with
  | nil => exact Nat.zero_le _
  | cons j is ih =>
    have hrest := ih (b.execute setup nodes j).2
    rw [log, share_append, share_map, List.filterMap_append, List.length_append]
    by_cases hj : j = i
    · subst hj
      rw [if_neg (states_execute_ne_pending setup nodes b j)] at hrest
      rw [if_pos rfl]
      by_cases hp : b.states j = .pending
      · have hfirst := hone b j hp
        rw [if_pos hp]
        omega
      · rw [added_of_ne_pending hp, List.filterMap_nil, List.length_nil]
        omega
    · rw [states_execute_of_ne setup nodes b (Ne.symm hj)] at hrest
      rw [if_neg hj, List.filterMap_nil, List.length_nil, Nat.zero_add]
      exact hrest

/-- **All or nothing, once.** To execute a node that is not pending returns well and does nothing.
One that is pending is executed as `AllOrNothing` says. However often and in whatever order nodes
are told to execute, each makes at most one call of a backend and hands at most one state to the
store. -/
theorem executed_once (setup : Setup σ) (nodes : ι → Change) :
    (∀ (b : Batch ι σ) (i : ι), b.states i ≠ .pending →
      b.execute setup nodes i = (.over (.ok ()), b)) ∧
    (∀ (b : Batch ι σ) (i : ι), b.states i = .pending →
      (nodes i).AllOrNothing setup b.run (b.execute setup nodes i).2.run
        (b.execute setup nodes i).1 ((b.execute setup nodes i).2.states i)
        (b.added setup nodes i)) ∧
    ∀ (b : Batch ι σ) (is : List ι),
      (b.executes setup nodes is).run.history =
        b.run.history ++ (b.log setup nodes is).map (·.2) ∧
      ∀ i, (Entry.made (share i (b.log setup nodes is))).length ≤ 1 ∧
        (Entry.attempts (share i (b.log setup nodes is))).length ≤ 1 := by
  have hexec : ∀ (b : Batch ι σ) (i : ι), b.states i = .pending →
      (nodes i).AllOrNothing setup b.run (b.execute setup nodes i).2.run
        (b.execute setup nodes i).1 ((b.execute setup nodes i).2.states i)
        (b.added setup nodes i) := fun b i h => by
    obtain ⟨hx, he⟩ := executed setup nodes h
    exact he.allOrNothing hx
  have hroom : ∀ b : Batch ι σ, ∀ i, (if b.states i = .pending then 1 else 0) ≤ 1 := by
    intro b i
    split <;> omega
  refine ⟨fun b i h => execute_of_ne_pending h, hexec, fun b is => ⟨history_executes .., ?_⟩⟩
  intro i
  have hmade := length_share_le (fun b i h => (hexec b i h).made) b is i
  have hattempted := length_share_le (fun b i h => (hexec b i h).attempted) b is i
  exact ⟨Nat.le_trans hmade (hroom b i), Nat.le_trans hattempted (hroom b i)⟩

/-! ## Where no backend is needed -/

/-- A recorded resource, of a type that nothing serves, is to stay as it is. -/
def bucket : Change := ⟨⟨"bucket", "Remote", [], []⟩, .unchanged⟩

/-- Only resources of another type are served. -/
def bucketSetup : Setup Unit :=
  .replying (fun _ r => .returned r) .apply (.ofResources [bucket.resource]) []

/-- It is not so that nothing is stored for a resource whose type has no backend: one that is
`.unchanged` is recorded again without a call. -/
theorem unserved_stored :
    ¬ ∀ (setup : Setup Unit) (nodes : Unit → Change) (b : Batch Unit Unit) (i : Unit),
      b.states i = .pending →
      (∃ s, (nodes i).resource.attributes.resolve b.run.known = .error s) ∨
        (∃ s, setup.backends.get (nodes i).resource.type = .error s) →
      Entry.made (b.added setup nodes i) = [] ∧ Entry.attempts (b.added setup nodes i) = [] := by
  intro h
  have hnone := h bucketSetup (fun _ => bucket) ⟨fun _ => .pending, .ofState default⟩ () rfl
    (.inr ⟨_, rfl⟩)
  have hone : (Entry.attempts (Batch.added bucketSetup (fun _ => bucket)
      ⟨fun _ => .pending, .ofState default⟩ ())).length = 1 := by
    decide +kernel
  rw [hnone.2] at hone
  cases hone

end Batch

end Provision
