import Provision.FieldPath
import Provision.Resource
import Provision.Status
import Provision.Text

/-!
# References

A string that starts with the marker stands for a scalar of another resource: its body is the key
of that resource and a dotted path into its attributes.

* `Reference.lookUp` finds the scalar a body names. Maps are entered by key, lists by position.
* `Attributes.resolve` replaces every reference of a tree; the first that leads nowhere is the
  error.
* `Attributes.referencedKeys` lists the resources that a tree refers to.
-/

namespace Provision

namespace Reference

/-- The text that starts a reference. -/
def marker : String := "$converge_path."

/-- The body of a reference; nothing if the text is none. -/
def body? (s : String) : Option String :=
  (marker.toList.isPrefixOf? s.toList).map String.ofList

/-- The reference to the attribute at `path` of resource `key`. -/
def literal (key path : String) : String := marker ++ key ++ "." ++ path

/-- The key that a body names: its first segment. -/
def key (body : String) : String := (dotted body).headD ""

/-- One step into a tree: into a map by key, into a list by position. -/
def descend (v : Value) (segment : String) : Option Value :=
  match v with
  | .map fields => Fields.get? segment fields
  | .list items => (Text.natural? segment).bind (items[·]?)
  | _ => none

/-- The scalar that a body names, if it names one. -/
def find? (index : Index) (body : String) : Option Value :=
  match dotted body with
  | key :: first :: rest => do
    let resource ← index.get? key
    let top ← Fields.get? first resource.attributes
    let v ← rest.foldlM descend top
    if v.isScalar then some v else none
  | _ => none

/-- The scalar that a body names. -/
def lookUp (index : Index) (body : String) : Except Status Value :=
  match find? index body with
  | some v => .ok v
  | none => .error (.unresolved (key body) body)

end Reference

namespace Value

mutual

/-- Replaces every reference of a tree by the scalar it names. -/
def resolve (index : Index) : Value → Except Status Value
  | .string s => match Reference.body? s with
    | some body => Reference.lookUp index body
    | none => .ok (.string s)
  | .list vs => do return .list (← resolveItems index vs)
  | .map fs => do return .map (← resolveFields index fs)
  | v => .ok v

/-- `resolve`, item by item. -/
def resolveItems (index : Index) : List Value → Except Status (List Value)
  | [] => .ok []
  | v :: vs => do
    let w ← v.resolve index
    let ws ← resolveItems index vs
    return w :: ws

/-- `resolve`, field by field. -/
def resolveFields (index : Index) : List (String × Value) → Except Status (List (String × Value))
  | [] => .ok []
  | (k, v) :: fs => do
    let w ← v.resolve index
    let gs ← resolveFields index fs
    return (k, w) :: gs

end

mutual

/-- The bodies of the references of a tree, in the order of its leaves. -/
def references : Value → List String
  | .string s => (Reference.body? s).toList
  | .list vs => referencesOfItems vs
  | .map fs => referencesOfFields fs
  | _ => []

/-- `references`, of the items in turn. -/
def referencesOfItems : List Value → List String
  | [] => []
  | v :: vs => v.references ++ referencesOfItems vs

/-- `references`, of the fields in turn. -/
def referencesOfFields : List (String × Value) → List String
  | [] => []
  | (_, v) :: fs => v.references ++ referencesOfFields fs

end

end Value

namespace Attributes

/-- Replaces every reference by the scalar it names; the first that names none is the error. -/
def resolve (index : Index) (a : Attributes) : Except Status Attributes :=
  Value.resolveFields index a

/-- The bodies of the references, in the order of the leaves. -/
def references (a : Attributes) : List String := Value.referencesOfFields a

/-- The keys of the resources referred to, each once, in order of first appearance. -/
def referencedKeys (a : Attributes) : List String :=
  (a.references.map Reference.key).eraseDups

end Attributes

end Provision
