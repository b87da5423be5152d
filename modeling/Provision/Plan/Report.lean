import Provision.Plan
import Provision.Text

/-!
# Plan reports

The lines that show a plan before it is carried out.
-/

namespace Provision

namespace Plan

/-- The sign of a change; none for an unchanged resource that is not shown. -/
def sign? (operation : Operation) (verbose : Bool) : Action → Option String
  | action => match operation, action with
    | .refresh, _ => some "↻"
    | _, .create => some "+"
    | _, .update => some "~"
    | _, .delete => some "-"
    | _, .unchanged => if verbose then some "=" else none

/-- The line of a change, if it is shown. -/
def line? (operation : Operation) (verbose : Bool) (c : Change) : Option String := do
  let sign ← sign? operation verbose c.action
  let r := c.resource
  let after := if r.dependsOn.isEmpty then ""
    else " (after " ++ String.intercalate ", " r.dependsOn ++ ")"
  return "│   " ++ sign ++ " " ++ Text.padRight 30 r.id ++ " " ++ r.type ++ after

/-- The line that counts the changes. -/
def countLine (operation : Operation) (p : Plan) : String :=
  match operation with
  | .refresh => s!"│ Summary: {p.length} resources to read back"
  | _ => s!"│ Summary: {p.count .create} to create, {p.count .update} to update, " ++
      s!"{p.count .delete} to delete, {p.count .unchanged} unchanged"

/-- The lines that show a plan. -/
def report (operation : Operation) (p : Plan) (verbose : Bool) : List String :=
  if p.isEmpty then ["", "  ✓ Nothing to " ++ operation.text]
  else
    ["", s!"┌─ Plan: {operation.text} ─────────────────────────────────────────┐", "│"]
      ++ p.filterMap (line? operation verbose)
      ++ ["│", "├─────────────────────────────────────────────────────┤", countLine operation p,
        "└─────────────────────────────────────────────────────┘"]

end Plan

end Provision
