import Provision.Run.Event

/-!
# Tallies

What a reader of progress events makes of them: a count of the ends, and a line for each failure.
-/

namespace Provision

namespace Event

/-- The line that reports a failure. -/
def line? (e : Event) : Option String :=
  let detail := e.status.elim "" Status.text
  if e.phase = .failed then some s!"  ✗ {e.key} ({detail})" else none

end Event

/-- How many nodes ended in which way. -/
structure Tally where
  succeeded : Nat
  failed : Nat
  skipped : Nat
deriving DecidableEq, Inhabited

namespace Tally

/-- Counts an event. -/
def count (t : Tally) (e : Event) : Tally :=
  match e.phase with
  | .started => t
  | .succeeded => { t with succeeded := t.succeeded + 1 }
  | .failed => { t with failed := t.failed + 1 }
  | .skipped => { t with skipped := t.skipped + 1 }

/-- The tally of some events. -/
def ofEvents (events : List Event) : Tally := events.foldl count ⟨0, 0, 0⟩

end Tally

end Provision
