/-!
# Paths

A path is a text: names between slashes, absolute if it starts with one. Empty names and, after
the first name, single dots do not count, and the functions here leave them as they are written.

* `Path.join` places a name below a directory.
* `Path.parent?` leads one name up, and `Path.ancestors` all the way.
* `Path.extension?` and `Path.withExtension` look at what follows the last dot of the last name.
-/

namespace Provision

namespace Path

/-- Whether a path starts at the root. -/
def isAbsolute (p : String) : Bool := p.toList.head? = some '/'

/-- The path of `name` below `directory`; an absolute name stays as it is. -/
def join (directory name : String) : String :=
  if isAbsolute name || directory = "" then name
  else if directory.toList.getLast? = some '/' then directory ++ name
  else directory ++ "/" ++ name

/-- The texts between the slashes. -/
def parts (p : String) : List String := (p.toList.splitOn '/').map String.ofList

/-- The path with the given texts between its slashes. -/
def ofParts (ps : List String) : String := if ps = [""] then "/" else String.intercalate "/" ps

/-- Whether a part after the first names nothing. -/
def isIdle (part : String) : Bool := part = "" || part = "."

/-- The parts up to the last one that counts; the first one always does. -/
def upToName : List String → List String
  | [] => []
  | first :: rest => first :: (rest.reverse.dropWhile isIdle).reverse

/-- The path without its last name; nothing for the root and the empty path. -/
def parent? (p : String) : Option String :=
  match upToName (parts p) with
  | [""] => none
  | ps => some (ofParts (upToName ps.dropLast))

/-- The last name; nothing where the path ends at the root or with dots. -/
def fileName? (p : String) : Option String := do
  let name ← (upToName (parts p)).getLast?
  if isIdle name || name = ".." then none else some name

/-- A name before and after its last dot. A dot at the start does not count. -/
def splitName (name : String) : String × Option String :=
  let cs := name.toList.reverse
  match cs.dropWhile (· ≠ '.') with
  | [] | [_] => (name, none)
  | _ :: stem => (String.ofList stem.reverse, some (String.ofList (cs.takeWhile (· ≠ '.')).reverse))

/-- What follows the last dot of the last name. -/
def extension? (p : String) : Option String := (fileName? p).bind fun name => (splitName name).2

/-- The path with another extension of its last name, if it has such a name. -/
def withExtension (p extension : String) : String :=
  match fileName? p with
  | none => p
  | some name =>
    ofParts ((upToName (parts p)).dropLast ++ [(splitName name).1 ++ "." ++ extension])

/-- The path and the paths above it, without the root and the empty path. -/
def ancestors (p : String) : List String := go (parts p).length p
where
  /-- Goes at most `fuel` names up. -/
  go : Nat → String → List String
    | 0, _ => []
    | fuel + 1, p => match parent? p with
      | none => []
      | some up => p :: go fuel up

end Path

end Provision
