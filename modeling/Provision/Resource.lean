import Provision.Value

/-!
# Resources

A resource is one declared object: an id, the type that picks its backend, its attributes and the
keys of the resources that come before it. Its key within a run is its id.
-/

namespace Provision

/-- One declared or observed object. -/
structure Resource where
  id : String
  /-- The type of the backend that serves it. -/
  type : String
  attributes : Attributes
  /-- The keys of the resources that come before it. -/
  dependsOn : List String
deriving DecidableEq, Inhabited

namespace Resource

/-- The key within a run. -/
def key (r : Resource) : String := r.id

end Resource

/-- Resources by key. -/
abbrev Index := Keyed Resource

namespace Index

/-- Resources under their own keys; of equal keys the later one stays. -/
def ofResources (rs : List Resource) : Index := Keyed.ofList (rs.map fun r => (r.key, r))

end Index

/-- What is planned for a resource. -/
inductive Action where
  | create
  | update
  | delete
  | unchanged
deriving DecidableEq, Inhabited

namespace Action

/-- Whether the backend is asked to bring the resource about. -/
def isApply : Action → Bool
  | .create | .update => true
  | .delete | .unchanged => false

/-- The word shown to users. -/
def text : Action → String
  | .create => "create"
  | .update => "update"
  | .delete => "delete"
  | .unchanged => "unchanged"

/-- Every action. -/
def all : List Action := [.create, .update, .delete, .unchanged]

end Action

/-- The kinds of run. -/
inductive Operation where
  /-- Bring live objects in line with the plan. -/
  | apply
  /-- Delete everything in the plan, dependents first. -/
  | destroy
  /-- Read every resource back. -/
  | refresh
deriving DecidableEq, Inhabited

namespace Operation

/-- The word shown to users. -/
def text : Operation → String
  | .apply => "apply"
  | .destroy => "destroy"
  | .refresh => "refresh"

/-- Every operation. -/
def all : List Operation := [.apply, .destroy, .refresh]

end Operation

end Provision
