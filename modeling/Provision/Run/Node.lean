import Provision.Plan
import Provision.Run

/-!
# Executing a node

A node of a run is a change to carry out. Its execution has two parts, and other nodes may run in
between: first its references are resolved and the call of its backend starts, then the call ends
and what it changed is committed.

* `Change.intent` says what a node is about to do.
* `Run.begin` and `Run.finish` are the two parts; `Run.execute` does both in one go.
-/

namespace Provision

/-- How far the execution of a node has come. -/
inductive NodeState where
  /-- Not started. -/
  | pending
  /-- Started; its references are being resolved. -/
  | resolving
  /-- Its backend is being called. -/
  | executing
  /-- Ended well. -/
  | succeeded
  /-- Ended with a status. -/
  | failed
deriving DecidableEq, Inhabited

namespace NodeState

/-- The name shown to users. -/
def name : NodeState → String
  | .pending => "Pending"
  | .resolving => "Resolving"
  | .executing => "Executing"
  | .succeeded => "Succeeded"
  | .failed => "Failed"

/-- The state after an execution that ended with `result`. -/
def ofResult : Except Status Unit → NodeState
  | .ok _ => .succeeded
  | .error _ => .failed

end NodeState

/-- What a node is about to do. -/
inductive Intent where
  | call (call : Call)
  /-- Record the resource as it is, without a call. -/
  | keep (recorded : Option Resource)
deriving DecidableEq

namespace Call

/-- The type whose backend is called. -/
def type : Call → String
  | .apply _ planned => planned.type
  | .delete prior | .read prior => prior.type

end Call

namespace Change

variable {σ : Type}

/-- The call that a node makes, for a backend that exists. -/
def ifServed (setup : Setup σ) (call : Call) : Except Status Intent := do
  let _ ← setup.backends.get call.type
  return .call call

/-- The resource as a backend sees it: references resolved, ignored fields dropped. -/
def planned (setup : Setup σ) (known : Index) (c : Change) : Except Status Resource := do
  let attributes ← c.resource.attributes.resolve known
  return { c.resource with attributes := attributes.prune setup.ignored }

/-- What a node is about to do, with references resolved against `known`. -/
def intent (setup : Setup σ) (known : Index) (c : Change) : Except Status Intent :=
  match setup.operation, c.action with
  | .refresh, _ => ifServed setup (.read (setup.recordedOr c.resource))
  | _, .create | _, .update => do
    let planned ← c.planned setup known
    ifServed setup (.apply (setup.prior.get? c.key) planned)
  | _, .delete => ifServed setup (.delete (setup.recordedOr c.resource))
  | _, .unchanged => .ok (.keep (setup.prior.get? c.key))

/-- Whether success means that there was nothing to do. -/
def isNoop (setup : Setup σ) (c : Change) : Bool :=
  c.action = .unchanged && setup.operation ≠ .refresh

/-- The event at the end of an execution. -/
def ending (setup : Setup σ) (c : Change) : Except Status Unit → Event
  | .ok _ => ⟨c.key, if c.isNoop setup then .skipped else .succeeded, none⟩
  | .error s => ⟨c.key, .failed, some s⟩

end Change

namespace Setup

variable {σ : Type}

/-- Makes a call. -/
def perform (setup : Setup σ) (call : Call) (cancelled : Bool) (world : σ) : Outcome σ Mutation :=
  match setup.backends.get call.type with
  | .ok backend => call.perform backend cancelled world
  | .error s => ⟨.refused s, false, world⟩

end Setup

/-- How the first part of an execution ends. -/
inductive Begun where
  | calling (call : Call)
  | over (result : Except Status Unit)

/-- How an execution ends. -/
inductive Finished where
  | over (result : Except Status Unit)
  /-- The backend broke down; nothing was reported. -/
  | brokeDown

namespace Run

variable {σ : Type}

/-- Reports the end of an execution. -/
def conclude (setup : Setup σ) (c : Change) (result : Except Status Unit) (run : Run σ) : Run σ :=
  run.emit (c.ending setup result)

/-- Starts an execution, up to the start of the call if there is one. -/
def begin (setup : Setup σ) (c : Change) (run : Run σ) : Begun × Run σ :=
  match c.intent setup run.known with
  | .error s => (.over (.error s), run.conclude setup c (.error s))
  | .ok (.call call) => (.calling call, (run.emit ⟨c.key, .started, none⟩).note (.called c.key call))
  | .ok (.keep none) => (.over (.ok ()), run.conclude setup c (.ok ()))
  | .ok (.keep (some recorded)) =>
    let (result, run) := run.commit setup c.key (.upsert recorded)
    (.over result, run.conclude setup c result)

/-- The run after a call has ended, before anything is committed. -/
def answered (key : String) (call : Call) (o : Outcome σ Mutation) (run : Run σ) : Run σ :=
  ({ run with world := o.world, cancelled := run.cancelled || o.cancels } : Run σ).note
    (.answered key call o.reply)

/-- Ends the call, commits what it changed and reports the end. -/
def finish (setup : Setup σ) (c : Change) (call : Call) (run : Run σ) : Finished × Run σ :=
  let o := setup.perform call run.cancelled run.world
  let run := run.answered c.key call o
  match o.reply with
  | .returned m =>
    let (result, run) := run.commit setup c.key m
    (.over result, run.conclude setup c result)
  | .refused s => (.over (.error s), run.conclude setup c (.error s))
  | .brokeDown => (.brokeDown, run)

/-- Executes a node that is pending, in one go; a node in another state is left alone. -/
def execute (setup : Setup σ) (c : Change) (state : NodeState) (run : Run σ) :
    Finished × NodeState × Run σ :=
  if state ≠ .pending then (.over (.ok ()), state, run)
  else match run.begin setup c with
    | (.over result, run) => (.over result, .ofResult result, run)
    | (.calling call, run) => match run.finish setup c call with
      | (.over result, run) => (.over result, .ofResult result, run)
      | (.brokeDown, run) => (.brokeDown, .executing, run)

end Run

end Provision
