import Provision.Backend
import Provision.Reference
import Provision.Run.Event
import Provision.State

/-!
# Runs

A `Setup` is what stays the same during a run; a `Run` is what changes. Every successful change of
a resource is committed: it enters both indices and the state, and the state is stored.

* `Run.commit` makes a change, stores the new state, and takes the change back if it cannot be
  stored.
* `Run.emit` reports an event.
* `Run.history` keeps calls, answers, stores and events in the order in which they happened.
-/

namespace Provision

/-- What stays the same during a run, over worlds of type `σ`. -/
structure Setup (σ : Type) where
  operation : Operation
  /-- The resources recorded before the run. -/
  prior : Index
  /-- The fields that no backend sees and no comparison looks at. -/
  ignored : List FieldPath
  backends : Registry (Backend σ)
  /-- Stores a state; an error says why it could not. -/
  store : State → σ → Except String Unit × σ
  /-- The time of day. -/
  clock : σ → Timestamp

namespace Setup

variable {σ : Type}

/-- The recorded state of a resource, or the resource as planned if none is recorded. -/
def recordedOr (setup : Setup σ) (r : Resource) : Resource := (setup.prior.get? r.key).getD r

end Setup

/-- What happens during a run. -/
inductive Entry where
  | emitted (event : Event)
  | called (key : String) (call : Call)
  | answered (key : String) (call : Call) (reply : Reply Mutation)
  | stored (key : String) (change : Mutation) (state : State)
  | notStored (key : String) (change : Mutation) (state : State) (cause : String)
deriving DecidableEq

/-- The key of the node that an entry is about. -/
def Entry.key : Entry → String
  | .emitted event => event.key
  | .called key _ | .answered key _ _ | .stored key _ _ | .notStored key _ _ _ => key

/-- What changes during a run. -/
structure Run (σ : Type) where
  /-- The resources that references resolve against. -/
  known : Index
  /-- The resources that the state records. -/
  recorded : Index
  state : State
  cancelled : Bool
  /-- Where events go, if anywhere. -/
  progress : Option Channel
  world : σ
  history : List Entry

namespace Mutation

/-- The index after a mutation at `key`. -/
def applyTo (m : Mutation) (key : String) (index : Index) : Index :=
  match m with
  | .upsert r => index.insert key r
  | .remove => index.erase key

theorem get?_applyTo (m : Mutation) (key k : String) (index : Index) :
    (m.applyTo key index).get? k =
      if key = k then (match m with | .upsert r => some r | .remove => none) else index.get? k := by
  cases m <;> simp [applyTo]

end Mutation

/-- The index with the resource at `key` put back that was there before. -/
def Index.restore (index : Index) (key : String) : Option Resource → Index
  | some r => index.insert key r
  | none => index.erase key

namespace Run

variable {σ : Type}

/-- Notes what happened. -/
def note (run : Run σ) (e : Entry) : Run σ := { run with history := run.history ++ [e] }

/-- Reports an event. -/
def emit (run : Run σ) (e : Event) : Run σ :=
  ({ run with progress := run.progress.map fun c => c.send e } : Run σ).note (.emitted e)

/-- Makes the change of `key` and stores the state that follows. If it cannot be stored, both
indices get back what they had at `key`, and the old state is taken up again. -/
def commit (setup : Setup σ) (key : String) (m : Mutation) (run : Run σ) :
    Except Status Unit × Run σ :=
  let recorded := m.applyTo key run.recorded
  let changed : Run σ := { run with
    known := m.applyTo key run.known
    recorded
    state := run.state.record recorded (setup.clock run.world) }
  match setup.store changed.state changed.world with
  | (.ok (), world) => (.ok (), { changed with world }.note (.stored key m changed.state))
  | (.error cause, world) =>
    let restored : Run σ := { changed with
      known := changed.known.restore key (run.known.get? key)
      recorded := changed.recorded.restore key (run.recorded.get? key)
      state := run.state
      world }
    (.error (.unstored key cause), restored.note (.notStored key m changed.state cause))

end Run

end Provision
