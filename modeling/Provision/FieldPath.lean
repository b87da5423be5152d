import Provision.Json

/-!
# Field paths

A field path names fields of an attribute tree by the map keys on the way to them. Lists use up no
segment: a path continues in every item, so one path reaches a field in each entry of a list.

* `FieldPath.parse`/`FieldPath.text` read and write the dotted form; reading drops empty pieces.
  `FieldPath.toJson`/`FieldPath.ofJson?`: as JSON a path is the string of its dotted form.
* `Value.remove` drops the fields at a path, `Attributes.prune` those at any of several paths.
  Neither can fail: where the tree has another shape there is nothing to drop.
-/

namespace Provision

/-- The map keys on the way to a field. -/
structure FieldPath where
  segments : List String
deriving DecidableEq, Inhabited

/-- The pieces of a text between its dots. -/
def dotted (s : String) : List String := (s.toList.splitOn '.').map String.ofList

namespace FieldPath

/-- Reads a dotted path, without its empty pieces. -/
def parse (s : String) : FieldPath := ⟨(dotted s).filter (· ≠ "")⟩

/-- The dotted form. -/
def text (p : FieldPath) : String := String.intercalate "." p.segments

/-- No segments: the path names no field. -/
def isEmpty (p : FieldPath) : Bool := p.segments.isEmpty

/-- The document of a path. -/
def toJson (p : FieldPath) : Json := .string p.text

/-- The path of a document, which is a string. -/
def ofJson? (j : Json) : Option FieldPath := j.string?.map parse

end FieldPath

namespace Value

mutual

/-- Drops the fields at `path`. -/
def remove (path : List String) : Value → Value
  | .map fields => .map (removeFields path fields)
  | .list items => .list (if path.isEmpty then items else removeItems path items)
  | v => v

/-- Drops the fields at `path` in every item. -/
def removeItems (path : List String) : List Value → List Value
  | [] => []
  | v :: vs => v.remove path :: removeItems path vs

/-- Drops the fields at `path`: the last segment from its map, an earlier one by going on below. -/
def removeFields : List String → List (String × Value) → List (String × Value)
  | _, [] => []
  | [], fields => fields
  | k :: rest, (n, v) :: fields =>
    if n = k then
      if rest.isEmpty then removeFields (k :: rest) fields
      else (n, v.remove rest) :: removeFields (k :: rest) fields
    else (n, v) :: removeFields (k :: rest) fields

end

end Value

namespace Attributes

/-- Drops the fields at each of the paths in turn. -/
def prune (paths : List FieldPath) (attributes : Attributes) : Attributes :=
  paths.foldl (fun a p => Value.removeFields p.segments a) attributes

end Attributes

end Provision
