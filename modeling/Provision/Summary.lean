import Provision.Resource
import Provision.Status

/-!
# Summaries

A `Summary` counts how the nodes of a walk ended and lists those that did not succeed.

* `Summary.succeed`/`Summary.fail` count one more node.
* `Summary.total_succeed`, `Summary.total_fail`: each of them counts exactly one.
-/

namespace Provision

/-- How the nodes of a walk ended. -/
structure Summary where
  created : Nat
  updated : Nat
  deleted : Nat
  unchanged : Nat
  refreshed : Nat
  failed : Nat
  skipped : Nat
  /-- The keys of the nodes that failed or never ran, with their statuses. -/
  failures : List (String × Status)
deriving DecidableEq, Inhabited

namespace Summary

/-- No node has ended. -/
def empty : Summary := ⟨0, 0, 0, 0, 0, 0, 0, []⟩

/-- The number of changes made. -/
def changes (s : Summary) : Nat := s.created + s.updated + s.deleted

/-- Whether every node succeeded. -/
def isSuccess (s : Summary) : Bool := s.failures.isEmpty

/-- The number of nodes that ended. -/
def total (s : Summary) : Nat :=
  s.created + s.updated + s.deleted + s.unchanged + s.refreshed + s.failed + s.skipped

/-- Counts a node that succeeded, in a refresh whatever its action was. -/
def succeed (s : Summary) (operation : Operation) (action : Action) : Summary :=
  if operation = .refresh then { s with refreshed := s.refreshed + 1 }
  else match action with
    | .create => { s with created := s.created + 1 }
    | .update => { s with updated := s.updated + 1 }
    | .delete => { s with deleted := s.deleted + 1 }
    | .unchanged => { s with unchanged := s.unchanged + 1 }

/-- Counts a node that failed or never ran, and lists it. -/
def fail (s : Summary) (key : String) (status : Status) : Summary :=
  let s := { s with failures := s.failures ++ [(key, status)] }
  if status.kind.isSkip then { s with skipped := s.skipped + 1 }
  else { s with failed := s.failed + 1 }

/-- Counts a node by the result that it ended with. -/
def count (s : Summary) (operation : Operation) (action : Action) (key : String) :
    Except Status Unit → Summary
  | .ok _ => s.succeed operation action
  | .error status => s.fail key status

/-- The first status listed for `key`. -/
def failure? (s : Summary) (key : String) : Option Status :=
  (s.failures.find? (·.1 = key)).map (·.2)

theorem total_succeed (s : Summary) (o : Operation) (a : Action) :
    (s.succeed o a).total = s.total + 1 := by
  cases o <;> cases a <;> simp [succeed, total] <;> omega

theorem total_fail (s : Summary) (key : String) (status : Status) :
    (s.fail key status).total = s.total + 1 := by
  simp only [fail]
  split <;> simp [total] <;> omega

end Summary

end Provision
