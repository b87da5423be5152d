import Provision.Failure

/-!
# Manifests

A manifest lists the desired resources of one stack. Their ids have to be usable as keys: not
empty, without a dot, and each of them once.
-/

namespace Provision

/-- The desired resources of one stack. -/
structure Manifest where
  resources : List Resource
deriving DecidableEq, Inhabited

namespace Manifest

/-- The first fault among the ids, given those that stand before. -/
def fault? (before : List String) : List Resource → Option Failure
  | [] => none
  | r :: rs =>
    if r.id = "" then some (.emptyId r.type)
    else if '.' ∈ r.id.toList then some (.dottedId r.id)
    else if r.id ∈ before then some (.duplicateId r.id)
    else fault? (r.id :: before) rs

/-- Checks that every resource has a usable id of its own. -/
def validate (m : Manifest) : Except Failure Unit :=
  match fault? [] m.resources with
  | some f => .error f
  | none => .ok ()

end Manifest

end Provision
