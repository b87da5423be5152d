import Provision.Status

/-!
# Progress events

A node reports when it starts and how it ends. The reports go into a bounded channel that drops
what it has no room for, so reporting never waits.

* `Channel.send` puts an event in, `Channel.drain` takes all of them out.
-/

namespace Provision

/-- The points in the life of a node that are reported. -/
inductive Phase where
  | started
  /-- It ended well, and its change is stored. -/
  | succeeded
  | failed
  /-- It was never executed, or there was nothing to do. -/
  | skipped
deriving DecidableEq, Inhabited

namespace Phase

/-- The name shown to users. -/
def name : Phase → String
  | .started => "Started"
  | .succeeded => "Succeeded"
  | .failed => "Failed"
  | .skipped => "Skipped"

/-- Every phase. -/
def all : List Phase := [.started, .succeeded, .failed, .skipped]

end Phase

/-- One report. -/
structure Event where
  key : String
  phase : Phase
  status : Option Status
deriving DecidableEq, Inhabited

/-- A channel of bounded capacity with the events that wait in it. -/
structure Channel where
  capacity : Nat
  /-- Whether somebody may still take events out. -/
  isOpen : Bool
  waiting : List Event
deriving DecidableEq, Inhabited

namespace Channel

/-- An empty channel. -/
def ofCapacity (capacity : Nat) : Channel := ⟨capacity, true, []⟩

/-- Puts an event in; a full or closed channel drops it. -/
def send (c : Channel) (e : Event) : Channel :=
  if c.isOpen ∧ c.waiting.length < c.capacity then { c with waiting := c.waiting ++ [e] } else c

/-- Takes all events out. -/
def drain (c : Channel) : List Event × Channel := (c.waiting, { c with waiting := [] })

end Channel

end Provision
