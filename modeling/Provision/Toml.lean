import Provision.Json

/-!
# TOML documents

A TOML document is a list of statements that build up a table. `Toml.Draft` is the table built so
far; it remembers how each table in it came about, since that decides what may still be added. In
the end the draft is read as the JSON document of the same shape.

* `Toml.Draft.apply` carries out one statement, or refuses it because it defines something twice.
* `Toml.document?` carries out all statements of a document.
-/

namespace Provision

namespace Toml

/-- A statement. Keys lead from the topmost table, those of an assignment from the table under the
latest header. -/
inductive Statement where
  /-- The header of a table. -/
  | table (above : List String) (key : String)
  /-- The header of one more table in an array. -/
  | element (above : List String) (key : String)
  | assign (above : List String) (key : String) (value : Json)

/-- How a table came about. -/
inductive Origin where
  /-- By its own header, which may stand once only. -/
  | declared
  /-- By the header of a table below it. -/
  | implied
  /-- By keys with dots, which may add to it. -/
  | dotted
deriving DecidableEq

/-- What a key of a draft stands for. -/
inductive Node where
  /-- A value, to which nothing can be added. -/
  | value (j : Json)
  | table (origin : Origin) (fields : List (String × Node))
  /-- An array of tables, the last of which can be added to. -/
  | tables (front : List (List (String × Node))) (last : List (String × Node))

/-- Changes the table that some keys lead to. Tables on the way that do not exist are made. Keys
with dots do not lead through arrays or declared tables. -/
def alter (dotted : Bool) (change : Origin → Fields Node → Option (Fields Node)) :
    List String → Origin → Fields Node → Option (Fields Node)
  | [], origin, fields => change origin fields
  | k :: ks, _, fields => match Fields.get? k fields with
    | none => do
      let origin := if dotted then .dotted else .implied
      return Fields.insert k (.table origin (← alter dotted change ks origin [])) fields
    | some (.table origin below) => do
      guard (!(dotted && origin = .declared))
      return Fields.insert k (.table origin (← alter dotted change ks origin below)) fields
    | some (.tables front last) => do
      guard (!dotted)
      return Fields.insert k (.tables front (← alter dotted change ks .declared last)) fields
    | some (.value _) => none

/-- Puts a value at keys of a table. Keys with dots add to tables of their own making only. -/
def assign (above : List String) (key : String) (value : Json) :
    Origin → Fields Node → Option (Fields Node) :=
  alter true (fun origin fields => do
    guard ((origin = .dotted) ≠ above.isEmpty)
    guard (Fields.get? key fields).isNone
    return Fields.insert key (.value value) fields) above

/-- Declares a table. It may be implied already, but not declared. -/
def declare (above : List String) (key : String) : Fields Node → Option (Fields Node) :=
  alter false (fun _ fields => match Fields.get? key fields with
    | none => some (Fields.insert key (.table .declared []) fields)
    | some (.table .implied below) => some (Fields.insert key (.table .declared below) fields)
    | some _ => none) above .declared

/-- Adds a table to an array. -/
def addElement (above : List String) (key : String) : Fields Node → Option (Fields Node) :=
  alter false (fun _ fields => match Fields.get? key fields with
    | none => some (Fields.insert key (.tables [] []) fields)
    | some (.tables front last) => some (Fields.insert key (.tables (front ++ [last]) []) fields)
    | some _ => none) above .declared

/-- A document under way. -/
structure Draft where
  fields : Fields Node
  /-- The keys of the latest header. -/
  current : List String

namespace Draft

/-- Nothing is said yet. -/
def empty : Draft := ⟨[], []⟩

/-- Carries out a statement. -/
def apply (d : Draft) : Statement → Option Draft
  | .table above key => do return ⟨← declare above key d.fields, above ++ [key]⟩
  | .element above key => do return ⟨← addElement above key d.fields, above ++ [key]⟩
  | .assign above key value => do
    return { d with
      fields := ← alter false (Toml.assign above key value) d.current .declared d.fields }

end Draft

mutual

/-- The document of a node. -/
def Node.toJson : Node → Json
  | .value j => j
  | .table _ fields => .object (fieldsToJson fields)
  | .tables front last => .array (tablesToJson front ++ [.object (fieldsToJson last)])

/-- The documents of the fields. -/
def fieldsToJson : List (String × Node) → List (String × Json)
  | [] => []
  | (k, n) :: fields => (k, n.toJson) :: fieldsToJson fields

/-- The documents of the tables. -/
def tablesToJson : List (List (String × Node)) → List Json
  | [] => []
  | fields :: tables => .object (fieldsToJson fields) :: tablesToJson tables

end

/-- The document that some statements build. -/
def document? (statements : List Statement) : Option Json := do
  let d ← statements.foldlM Draft.apply .empty
  return .object (fieldsToJson d.fields)

end Toml

end Provision
