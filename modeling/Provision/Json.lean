import Provision.Value

/-!
# JSON documents

A `Json` is a document as it is written: the fields of an object stand in their order, and a name
may stand there twice.

* `Json.record?` reads the fields of a record from its object form or from its array form.
* `Value.toJson`/`Value.ofJson?` write an attribute tree as a document and read one back; of equal
  names in an object the last one counts.
-/

namespace Provision

/-- A JSON document. -/
inductive Json where
  | null
  | bool (b : Bool)
  | number (n : Number)
  | string (s : String)
  | array (items : List Json)
  | object (fields : List (String × Json))
  /-- Well-formed text that denotes no value: a string or name with an unpaired surrogate, or a
  number beyond the range of doubles. -/
  | unrepresentable

namespace Json

instance : Inhabited Json := ⟨.null⟩

mutual

/-- How many containers enclose each other at the deepest place. -/
def depth : Json → Nat
  | .array items => 1 + depthOfItems items
  | .object fields => 1 + depthOfFields fields
  | _ => 0

/-- The greatest `depth` of the items. -/
def depthOfItems : List Json → Nat
  | [] => 0
  | j :: js => max j.depth (depthOfItems js)

/-- The greatest `depth` of the fields. -/
def depthOfFields : List (String × Json) → Nat
  | [] => 0
  | (_, j) :: fs => max j.depth (depthOfFields fs)

end

/-- The deepest nesting that is read. -/
def depthLimit : Nat := 127

/-- The fields of a record with the given names, in the order of the names. An object gives each
name at most once, and other names do not matter; an array gives the fields by position and may
leave out a tail. -/
def record? (names : List String) : Json → Option (List (Option Json))
  | .object fields => names.mapM fun name =>
    match fields.filter (·.1 = name) with
    | [] => some none
    | [field] => some (some field.2)
    | _ => none
  | .array items =>
    if items.length ≤ names.length then
      some (items.map some ++ List.replicate (names.length - items.length) none)
    else none
  | _ => none

/-- The text of a string. -/
def string? : Json → Option String
  | .string s => some s
  | _ => none

/-- The items of an array, each read by `f`. -/
def items? {α : Type} (f : Json → Option α) : Json → Option (List α)
  | .array items => items.mapM f
  | _ => none

end Json

namespace Value

mutual

/-- The document of a tree. -/
def toJson : Value → Json
  | .null => .null
  | .bool b => .bool b
  | .number n => .number n
  | .string s => .string s
  | .list items => .array (itemsToJson items)
  | .map fields => .object (fieldsToJson fields)

/-- The documents of the items. -/
def itemsToJson : List Value → List Json
  | [] => []
  | v :: vs => v.toJson :: itemsToJson vs

/-- The documents of the fields. -/
def fieldsToJson : List (String × Value) → List (String × Json)
  | [] => []
  | (k, v) :: fs => (k, v.toJson) :: fieldsToJson fs

end

mutual

/-- The tree of a document. -/
def ofJson? : Json → Option Value
  | .null => some .null
  | .bool b => some (.bool b)
  | .number n => some (.number n)
  | .string s => some (.string s)
  | .array items => (itemsOfJson? items).map .list
  | .object fields => (fieldsOfJson? fields).map fun fs => .map (Fields.ofList fs)
  | .unrepresentable => none

/-- The trees of the items. -/
def itemsOfJson? : List Json → Option (List Value)
  | [] => some []
  | j :: js => do
    let v ← ofJson? j
    let vs ← itemsOfJson? js
    return v :: vs

/-- The trees of the fields, in the order of the document. -/
def fieldsOfJson? : List (String × Json) → Option (List (String × Value))
  | [] => some []
  | (k, j) :: fs => do
    let v ← ofJson? j
    let vs ← fieldsOfJson? fs
    return (k, v) :: vs

end

end Value

namespace Attributes

/-- The document of an attribute tree. -/
def toJson (a : Attributes) : Json := .object (Value.fieldsToJson a)

/-- The attribute tree of a document, which is an object. -/
def ofJson? : Json → Option Attributes
  | .object fields => (Value.fieldsOfJson? fields).map Fields.ofList
  | _ => none

end Attributes

end Provision
