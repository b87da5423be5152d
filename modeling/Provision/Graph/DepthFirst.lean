/-!
# Depth-first search

A search from given starts lists what it reaches by the time it is left, the last first. Without a
cycle every node then stands before the nodes it leads to; `firstBackward?` finds out whether that
is so.
-/

namespace Provision

namespace DepthFirst

/-- How far a search has come. -/
structure Search (α : Type) where
  /-- The nodes entered. -/
  seen : List α
  /-- The nodes left again, the last one first. -/
  order : List α

variable {α : Type} [DecidableEq α]

/-- Enters `key` unless it was seen, visits what it leads to, at most `fuel` deep, and leaves it. -/
def visit (next : α → List α) : Nat → Search α → α → Search α
  | 0, s, _ => s
  | fuel + 1, s, key =>
    if key ∈ s.seen then s
    else
      let s := (next key).foldl (visit next fuel) { s with seen := key :: s.seen }
      { s with order := key :: s.order }

/-- The nodes reached from the starts, the last one left first. There are at most `size` of them. -/
def order (next : α → List α) (size : Nat) (starts : List α) : List α :=
  (starts.foldl (visit next size) ⟨[], []⟩).order

/-- The first node of the list that has a predecessor neither among `before` nor earlier in the
list; the answer is that predecessor. -/
def firstBackward? (previous : α → List α) (before : List α) : List α → Option α
  | [] => none
  | k :: ks => match (previous k).find? (· ∉ k :: before) with
    | some p => some p
    | none => firstBackward? previous (k :: before) ks

end DepthFirst

end Provision
