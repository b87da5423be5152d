import Provision.Proofs.Run.History
import Provision.Run.Node

/-!
# How an execution ends

* `Change.Ended`: the six ways in which the execution of a node ends, each with the state of the
  node, its result and all that the history tells about it. What a node is about to do is decided
  once, against the resources known when it begins.
* `Run.begin_over`, `Run.begin_calling`, `Run.finish_over`, `Run.finish_brokeDown`: the two parts
  of an execution end in one of these ways, and nothing else happens.
-/

namespace Provision

namespace Setup

variable {σ : Type}

/-- The call can be answered so. -/
def Answers (setup : Setup σ) (call : Call) (reply : Reply Mutation) : Prop :=
  ∃ cancelled world, (setup.perform call cancelled world).reply = reply

end Setup

/-- The call that an entry tells of. -/
def Entry.call? : Entry → Option Call
  | .called _ call | .answered _ call _ => some call
  | .emitted _ | .stored _ _ _ | .notStored _ _ _ _ => none

namespace Change

variable {σ : Type}

/-- What the history tells of a node whose call is under way. -/
def opening (c : Change) (call : Call) : List Entry :=
  [.emitted ⟨c.key, .started, none⟩, .called c.key call]

/-- What the history tells of a node before it commits a mutation: nothing, if it keeps what is
recorded, or else that its call returned the mutation. -/
inductive Earned (setup : Setup σ) (known : Index) (c : Change) : List Entry → Mutation → Prop
  | kept {r : Resource} (hi : c.intent setup known = .ok (.keep (some r))) :
    Earned setup known c [] (.upsert r)
  | answered {call : Call} {m : Mutation} (hi : c.intent setup known = .ok (.call call))
    (ha : setup.Answers call (.returned m)) :
    Earned setup known c (c.opening call ++ [.answered c.key call (.returned m)]) m

/-- How an execution ends that resolved its references against `known`. -/
inductive Ended (setup : Setup σ) (known : Index) (c : Change) :
    NodeState → Except Status Unit → List Entry → Prop
  /-- There was nothing that it could do. -/
  | unfit {s : Status} (hi : c.intent setup known = .error s) :
    Ended setup known c .failed (.error s) [.emitted (c.ending setup (.error s))]
  /-- There was nothing to record. -/
  | absent (hi : c.intent setup known = .ok (.keep none)) :
    Ended setup known c .succeeded (.ok ()) [.emitted (c.ending setup (.ok ()))]
  | committed {es : List Entry} {m : Mutation} {s : State} (he : c.Earned setup known es m)
    (hs : ∃ world, (setup.store s world).1 = .ok ()) :
    Ended setup known c .succeeded (.ok ())
      (es ++ [.stored c.key m s, .emitted (c.ending setup (.ok ()))])
  | uncommitted {es : List Entry} {m : Mutation} {s : State} {cause : String}
    (he : c.Earned setup known es m) (hs : ∃ world, (setup.store s world).1 = .error cause) :
    Ended setup known c .failed (.error (.unstored c.key cause))
      (es ++ [.notStored c.key m s cause,
        .emitted (c.ending setup (.error (.unstored c.key cause)))])
  | refused {call : Call} {s : Status} (hi : c.intent setup known = .ok (.call call))
    (ha : setup.Answers call (.refused s)) :
    Ended setup known c .failed (.error s)
      (c.opening call ++ [.answered c.key call (.refused s),
        .emitted (c.ending setup (.error s))])
  | brokeDown {call : Call} (hi : c.intent setup known = .ok (.call call))
    (ha : setup.Answers call .brokeDown) :
    Ended setup known c .executing (.error (.brokeDown c.key))
      (c.opening call ++ [.answered c.key call .brokeDown,
        .emitted ⟨c.key, .failed, some (.brokeDown c.key)⟩])

variable {setup : Setup σ} {known : Index} {c : Change} {es : List Entry}

theorem key_ending (setup : Setup σ) (c : Change) (r : Except Status Unit) :
    (c.ending setup r).key = c.key := by
  cases r <;> rfl

theorem key_of_mem_opening {call : Call} {e : Entry} (he : e ∈ c.opening call) : e.key = c.key := by
  simp only [opening, List.mem_cons, List.not_mem_nil, or_false] at he
  rcases he with rfl | rfl <;> rfl

theorem call?_of_mem_opening {call : Call} {e : Entry} (he : e ∈ c.opening call) {call' : Call}
    (hc : e.call? = some call') : call' = call := by
  simp only [opening, List.mem_cons, List.not_mem_nil, or_false] at he
  rcases he with rfl | rfl
  · cases hc
  · exact (Option.some.inj hc).symm

theorem Earned.key {m : Mutation} (h : c.Earned setup known es m) : ∀ e ∈ es, e.key = c.key := by
  intro e he
  cases h with
  | kept => cases he
  | answered =>
    rcases List.mem_append.mp he with he | he
    · exact key_of_mem_opening he
    · rw [List.mem_singleton.mp he]; rfl

/-- All that an execution adds to the history is about its node. So what another node added stays
apart from it under `Entry.about`. -/
theorem Ended.key {state : NodeState} {r : Except Status Unit}
    (h : c.Ended setup known state r es) : ∀ e ∈ es, e.key = c.key := by
  intro e he
  cases h with
  | unfit | absent => rw [List.mem_singleton.mp he]; exact key_ending ..
  | committed ha | uncommitted ha =>
    rcases List.mem_append.mp he with he | he
    · exact ha.key e he
    · simp only [List.mem_cons, List.not_mem_nil, or_false] at he
      rcases he with rfl | rfl
      · rfl
      · exact key_ending ..
  | refused =>
    rcases List.mem_append.mp he with he | he
    · exact key_of_mem_opening he
    · simp only [List.mem_cons, List.not_mem_nil, or_false] at he
      rcases he with rfl | rfl
      · rfl
      · exact key_ending ..
  | brokeDown =>
    rcases List.mem_append.mp he with he | he
    · exact key_of_mem_opening he
    · simp only [List.mem_cons, List.not_mem_nil, or_false] at he
      rcases he with rfl | rfl <;> rfl

theorem Earned.call? {m : Mutation} (h : c.Earned setup known es m) {e : Entry} (he : e ∈ es)
    {call : Call} (hc : e.call? = some call) : c.intent setup known = .ok (.call call) := by
  cases h with
  | kept => cases he
  | answered hi =>
    rcases List.mem_append.mp he with he | he
    · rw [call?_of_mem_opening he hc]
      exact hi
    · rw [List.mem_singleton.mp he] at hc
      cases hc
      exact hi

/-- An execution makes no other call than the one that it intended. -/
theorem Ended.call? {state : NodeState} {r : Except Status Unit}
    (h : c.Ended setup known state r es) {e : Entry} (he : e ∈ es) {call : Call}
    (hc : e.call? = some call) : c.intent setup known = .ok (.call call) := by
  cases h with
  | unfit | absent =>
    rw [List.mem_singleton.mp he] at hc
    cases hc
  | committed ha | uncommitted ha =>
    rcases List.mem_append.mp he with he | he
    · exact ha.call? he hc
    · simp only [List.mem_cons, List.not_mem_nil, or_false] at he
      rcases he with rfl | rfl <;> cases hc
  | refused hi | brokeDown hi =>
    rcases List.mem_append.mp he with he | he
    · rw [call?_of_mem_opening he hc]
      exact hi
    · simp only [List.mem_cons, List.not_mem_nil, or_false] at he
      rcases he with rfl | rfl <;> cases hc
      exact hi

theorem Ended.state_ne {state : NodeState} {r : Except Status Unit}
    (h : c.Ended setup known state r es) : state ≠ .pending ∧ state ≠ .resolving := by
  cases h <;> exact ⟨nofun, nofun⟩

/-- State and result of `Ended` agree; a node that is `.executing` at the end has an error as its
result. -/
theorem Ended.succeeded_iff {state : NodeState} {r : Except Status Unit}
    (h : c.Ended setup known state r es) : state = .succeeded ↔ r = .ok () := by
  cases h with
  | absent | committed => exact ⟨fun _ => rfl, fun _ => rfl⟩
  | unfit | uncommitted | refused | brokeDown => exact ⟨nofun, nofun⟩

/-- What comes before a commit stores nothing. -/
theorem Earned.snapshots_eq {m : Mutation} (h : c.Earned setup known es m) :
    Entry.snapshots es = [] := by
  cases h <;> rfl

theorem Earned.outcome_eq {m : Mutation} (h : c.Earned setup known es m) (x : Option Resource) :
    Entry.outcome es x = x := by
  cases h <;> rfl

/-- An execution stores the state at most once, by its one commit. -/
theorem Ended.length_snapshots_le {state : NodeState} {r : Except Status Unit}
    (h : c.Ended setup known state r es) : (Entry.snapshots es).length ≤ 1 := by
  cases h with
  | unfit | absent | refused | brokeDown => exact Nat.zero_le _
  | committed he =>
    rw [Entry.snapshots_append, he.snapshots_eq]
    exact Nat.le_refl _
  | uncommitted he =>
    rw [Entry.snapshots_append, he.snapshots_eq]
    exact Nat.zero_le _

/-- An execution that does not succeed leaves the resource as it was: either nothing was committed,
or the commit was taken back. -/
theorem Ended.outcome_of_failed {state : NodeState} {r : Except Status Unit}
    (h : c.Ended setup known state r es) (hs : state ≠ .succeeded) (x : Option Resource) :
    Entry.outcome es x = x := by
  cases h with
  | absent | committed => exact absurd rfl hs
  | unfit | refused | brokeDown => rfl
  | uncommitted he =>
    rw [Entry.outcome_append, he.outcome_eq]
    rfl

end Change

namespace Run

variable {σ : Type} {setup : Setup σ} {c : Change} {run run' : Run σ}

theorem conclude_extends (run : Run σ) (r : Except Status Unit) :
    Extends run (run.conclude setup c r) [.emitted (c.ending setup r)] := emit_extends _ _

/-- Three of the ways of `Ended` come without a call: the references do not resolve or there is no
backend, there is nothing to record, or what is recorded is committed again. -/
theorem begin_over {r : Except Status Unit} (h : run.begin setup c = (.over r, run')) :
    ∃ es, Extends run run' es ∧ c.Ended setup run.known (.ofResult r) r es := by
  unfold begin at h
  split at h
  · next s hi =>
    cases h
    exact ⟨_, conclude_extends _ _, .unfit hi⟩
  · cases h
  · next hi =>
    cases h
    exact ⟨_, conclude_extends _ _, .absent hi⟩
  · next recorded hi =>
    rcases hc : run.commit setup c.key (.upsert recorded) with ⟨result, run₁⟩
    rw [hc] at h
    cases h
    rcases commit_extends hc with ⟨s, rfl, hs, he⟩ | ⟨s, cause, rfl, hs, he⟩
    · exact ⟨_, he.trans (conclude_extends _ _), .committed (.kept hi) ⟨_, hs⟩⟩
    · exact ⟨_, he.trans (conclude_extends _ _), .uncommitted (.kept hi) ⟨_, hs⟩⟩

/-- An execution that starts a call has it from `intent`, and has reported its start. -/
theorem begin_calling {call : Call} (h : run.begin setup c = (.calling call, run')) :
    c.intent setup run.known = .ok (.call call) ∧ Extends run run' (c.opening call) := by
  unfold begin at h
  split at h
  · cases h
  · next hi =>
    cases h
    exact ⟨hi, (emit_extends run _).trans (extends_note rfl (fun _ => rfl) rfl rfl rfl rfl id)⟩
  · cases h
  · cases h

/-- The end of a call changes nothing but the world, and `cancelled` if the backend set the
token. -/
theorem answered_extends (run : Run σ) (key : String) (call : Call) (o : Outcome σ Mutation) :
    Extends run (run.answered key call o) [.answered key call o.reply] :=
  extends_note rfl (fun _ => rfl) rfl rfl rfl rfl fun h => by
    show (run.cancelled || o.cancels) = true
    rw [h]; rfl

/-- A call that gives an answer ends an execution. `known` may be any index for which the call is
the one intended: it is the one from the start of the call, and other nodes may have committed
since. -/
theorem finish_over {call : Call} {r : Except Status Unit}
    (h : run.finish setup c call = (.over r, run')) :
    ∃ es, Extends run run' es ∧ ∀ known, c.intent setup known = .ok (.call call) →
      c.Ended setup known (.ofResult r) r (c.opening call ++ es) := by
  unfold finish at h
  dsimp only at h
  have hf := run.answered_extends c.key call (setup.perform call run.cancelled run.world)
  split at h
  · next m hm =>
    have ha : setup.Answers call (.returned m) := ⟨_, _, hm⟩
    rw [hm] at hf
    rcases hc : (run.answered c.key call (setup.perform call run.cancelled run.world)).commit
      setup c.key m with ⟨result, run₁⟩
    rw [hc] at h
    cases h
    -- the state was stored, or it was not and the commit was taken back
    rcases commit_extends hc with ⟨s, rfl, hs, he⟩ | ⟨s, cause, rfl, hs, he⟩
    · refine ⟨_, (hf.trans he).trans (conclude_extends _ _), fun known hi => ?_⟩
      have := Change.Ended.committed (.answered hi ha) ⟨_, hs⟩
      simpa [NodeState.ofResult] using this
    · refine ⟨_, (hf.trans he).trans (conclude_extends _ _), fun known hi => ?_⟩
      have := Change.Ended.uncommitted (.answered hi ha) ⟨_, hs⟩
      simpa [NodeState.ofResult] using this
  · next s hm =>
    rw [hm] at hf
    cases h
    exact ⟨_, hf.trans (conclude_extends _ _), fun known hi => .refused hi ⟨_, _, hm⟩⟩
  · cases h

/-- A backend that breaks down leaves an execution without an end: no event, no commit. The walk
reports it in its place. -/
theorem finish_brokeDown {call : Call} (h : run.finish setup c call = (.brokeDown, run')) :
    Extends run run' [.answered c.key call .brokeDown] ∧ setup.Answers call .brokeDown := by
  unfold finish at h
  dsimp only at h
  have hf := run.answered_extends c.key call (setup.perform call run.cancelled run.world)
  split at h
  · cases h
  · cases h
  · next hm =>
    rw [hm] at hf
    cases h
    exact ⟨hf, _, _, hm⟩

end Run

end Provision
