import Provision.Resource
import Provision.Timestamp

/-!
# State

What is known to exist after the changes so far: the resources, sorted by id, and a serial that
counts the changes.

* `State.record` takes over the resources of an index and counts one change.
* `State.index` is the way back: each resource under its own key.
-/

namespace Provision

namespace Index

/-- The resources, sorted by id. The order of resources with one id is not fixed by the program:
here they stand in the order of their keys, and no result rests on that. -/
def byId (m : Index) : List Resource := m.values.mergeSort fun a b => a.id ≤ b.id

end Index

/-- The resources that exist, and how often they changed. -/
structure State where
  /-- The number of changes, modulo 2 ^ 64. -/
  serial : UInt64
  /-- The time of the last change. -/
  lastModified : Timestamp
  resources : List Resource
deriving DecidableEq, Inhabited

namespace State

/-- Nothing exists yet. -/
def empty (now : Timestamp) : State := ⟨0, now, []⟩

/-- The state after a change that left the resources of `m`. They are listed
by `Index.byId`, up to the order of resources with one id. -/
def record (s : State) (m : Index) (now : Timestamp) : State := ⟨s.serial + 1, now, m.byId⟩

/-- The resources under their own keys. -/
def index (s : State) : Index := .ofResources s.resources

end State

end Provision
