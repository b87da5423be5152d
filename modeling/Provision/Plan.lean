import Provision.Reference
import Provision.State

/-!
# Plans

A plan lists resources with the action for each. Plans are made from the recorded resources and,
to apply, from the desired ones.

* `Plan.apply` keeps the order of the desired resources; what is recorded but not desired follows,
  to be deleted, sorted by id.
* `Plan.destroy` deletes and `Plan.refresh` keeps everything recorded, sorted by id.
-/

namespace Provision

/-- A resource with the action planned for it. -/
structure Change where
  resource : Resource
  action : Action
deriving DecidableEq, Inhabited

namespace Change

/-- The key of the resource. -/
def key (c : Change) : String := c.resource.key

end Change

/-- The changes of one run. -/
abbrev Plan := List Change

namespace Plan

/-- Whether a desired resource is out of line with its recorded state. Both attribute trees are
compared without the ignored fields, the desired one with its references resolved; a reference
that does not resolve yet is a difference. -/
def differs (prior : Index) (ignored : List FieldPath) (recorded desired : Resource) : Bool :=
  if recorded.type ≠ desired.type ∨ recorded.dependsOn ≠ desired.dependsOn then true
  else match desired.attributes.resolve prior with
    | .error _ => true
    | .ok wanted => !(recorded.attributes.prune ignored).same (wanted.prune ignored)

/-- The action for a desired resource. -/
def actionFor (prior : Index) (ignored : List FieldPath) (desired : Resource) : Action :=
  match prior.get? desired.key with
  | none => .create
  | some recorded => if differs prior ignored recorded desired then .update else .unchanged

/-- The changes that bring the recorded resources in line with the desired ones. -/
def apply (desired : List Resource) (prior : Index) (ignored : List FieldPath) : Plan :=
  desired.map (fun r => ⟨r, actionFor prior ignored r⟩) ++
  (prior.byId.filter fun r => !desired.any (·.id = r.id)).map (⟨·, .delete⟩)

/-- Deletes everything recorded. -/
def destroy (prior : Index) : Plan := prior.byId.map (⟨·, .delete⟩)

/-- Reads everything recorded. -/
def refresh (prior : Index) : Plan := prior.byId.map (⟨·, .unchanged⟩)

/-- Whether some change is not `unchanged`. -/
def hasChanges (p : Plan) : Bool := p.any (·.action ≠ .unchanged)

/-- How many changes have the given action. -/
def count (p : Plan) (a : Action) : Nat := p.countP (·.action = a)

end Plan

end Provision
