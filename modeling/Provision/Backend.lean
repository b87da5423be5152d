import Provision.Resource
import Provision.Status

/-!
# Backends

A backend serves the resources of one type: it applies, deletes and reads them in the world. The
world is a value of a type `σ` that each call takes and gives back, so every pattern of answers is
some backend.

* `Registry` holds one backend for each type.
* `Call` is a call under way; `Call.perform` makes it and says what it changes.
-/

namespace Provision

/-- How a call ends. -/
inductive Reply (α : Type) where
  | returned (result : α)
  | refused (status : Status)
  /-- The backend broke down and gives no answer. -/
  | brokeDown
deriving DecidableEq

/-- The end of a call, and what came about meanwhile. -/
structure Outcome (σ α : Type) where
  reply : Reply α
  /-- Whether the run was cancelled during the call. -/
  cancels : Bool
  world : σ

namespace Outcome

/-- The same end with another result. -/
def map {σ α β : Type} (f : α → β) (o : Outcome σ α) : Outcome σ β where
  reply := match o.reply with
    | .returned a => .returned (f a)
    | .refused s => .refused s
    | .brokeDown => .brokeDown
  cancels := o.cancels
  world := o.world

end Outcome

/-- What serves the resources of one type. Each call is told whether the run is cancelled. -/
structure Backend (σ : Type) where
  /-- Brings about `planned`, given the recorded state if there is one; returns what it became. -/
  apply : (prior : Option Resource) → (planned : Resource) → (cancelled : Bool) → σ →
    Outcome σ Resource
  /-- Deletes `prior`. -/
  delete : (prior : Resource) → (cancelled : Bool) → σ → Outcome σ Unit
  /-- Observes `prior`; returns nothing when it no longer exists. -/
  read : (prior : Resource) → (cancelled : Bool) → σ → Outcome σ (Option Resource)

/-- Backends by type. -/
structure Registry (β : Type) where
  backends : Keyed β

namespace Registry

variable {β : Type}

/-- No backends. -/
def empty : Registry β := ⟨.empty⟩

/-- Serves `type` by `backend` from now on. -/
def register (r : Registry β) (type : String) (backend : β) : Registry β :=
  ⟨r.backends.insert type backend⟩

/-- The backend that serves `type`. -/
def get (r : Registry β) (type : String) : Except Status β :=
  match r.backends.get? type with
  | some b => .ok b
  | none => .error (.unserved type)

/-- Whether `type` is served. -/
def contains (r : Registry β) (type : String) : Bool := r.backends.contains type

/-- The types served, in order. -/
def types (r : Registry β) : List String := r.backends.keys

end Registry

/-- What a run records for a key: the resource there, or its absence. -/
inductive Mutation where
  | upsert (resource : Resource)
  | remove
deriving DecidableEq

/-- A call of a backend. -/
inductive Call where
  | apply (prior : Option Resource) (planned : Resource)
  | delete (prior : Resource)
  | read (prior : Resource)
deriving DecidableEq

namespace Call

/-- Makes the call. What it changes keeps the dependencies that were planned or, when reading,
recorded. -/
def perform {σ : Type} (backend : Backend σ) (cancelled : Bool) (world : σ) :
    Call → Outcome σ Mutation
  | .apply prior planned => (backend.apply prior planned cancelled world).map fun applied =>
      .upsert { applied with dependsOn := planned.dependsOn }
  | .delete prior => (backend.delete prior cancelled world).map fun _ => .remove
  | .read prior => (backend.read prior cancelled world).map fun
      | some observed => .upsert { observed with dependsOn := prior.dependsOn }
      | none => .remove

end Call

end Provision
