import Provision.Path

/-!
# File systems

A tree of directories and files as a value: an entry for each location, and a current directory
where relative paths start. Operations take paths, walk them name by name and say why they fail.

* `FileSystem.read`, `write`, `remove`, `replace` and `makeDirectory` are the single operations;
  a failed one changes nothing. `FileSystem.makeDirectories` may leave some of them made.
* `FileSystem.entryAt?_put`, `FileSystem.entryAt?_drop`: a change concerns one location.
-/

namespace Provision

/-- The names on the way to a location from the root, the last one first. -/
abbrev Location := List String

/-- What a file holds. -/
inductive Content where
  | text (s : String)
  /-- Bytes that are no UTF-8 text. -/
  | binary (bytes : List UInt8)
deriving DecidableEq, Inhabited

/-- What stands at a location. -/
inductive FileEntry where
  | directory
  | file (content : Content)
deriving DecidableEq, Inhabited

/-- Why an operation on files fails. -/
inductive FileError where
  | notFound
  | busy
  | alreadyExists
  | notADirectory
  | isADirectory
  | nameTooLong
  | containsNul
  | notUtf8
deriving DecidableEq, Inhabited

namespace FileError

/-- The text shown to users. -/
def text : FileError → String
  | .notFound => "No such file or directory (os error 2)"
  | .busy => "Device or resource busy (os error 16)"
  | .alreadyExists => "File exists (os error 17)"
  | .notADirectory => "Not a directory (os error 20)"
  | .isADirectory => "Is a directory (os error 21)"
  | .nameTooLong => "File name too long (os error 36)"
  | .containsNul => "file name contained an unexpected NUL byte"
  | .notUtf8 => "stream did not contain valid UTF-8"

end FileError

/-- Directories and files. The root is a directory and has no entry. -/
structure FileSystem where
  /-- The current directory. -/
  here : Location
  entries : List (Location × FileEntry)
deriving DecidableEq, Inhabited

namespace FileSystem

/-! ## Entries -/

/-- What stands at a location. -/
def entryAt? (fs : FileSystem) : Location → Option FileEntry
  | [] => some .directory
  | name :: up => (fs.entries.find? (·.1 = name :: up)).map (·.2)

/-- Puts an entry at a location, over any entry already there. -/
def put (fs : FileSystem) (l : Location) (e : FileEntry) : FileSystem :=
  { fs with entries := (l, e) :: fs.entries.filter (·.1 ≠ l) }

/-- Drops the entry at a location. -/
def drop (fs : FileSystem) (l : Location) : FileSystem :=
  { fs with entries := fs.entries.filter (·.1 ≠ l) }

private theorem find?_filter (entries : List (Location × FileEntry)) (l m : Location) :
    (entries.filter (·.1 ≠ l)).find? (·.1 = m) =
      if l = m then none else entries.find? (·.1 = m) := by
  induction entries with
  | nil => simp
  | cons e es ih => by_cases h : e.1 = l <;> by_cases h' : e.1 = m <;> grind

theorem entryAt?_put (fs : FileSystem) {l : Location} (hl : l ≠ []) (e : FileEntry) (m : Location) :
    (fs.put l e).entryAt? m = if l = m then some e else fs.entryAt? m := by
  cases m with
  | nil => simp [entryAt?, hl]
  | cons n m =>
    rw [entryAt?, entryAt?, put, List.find?_cons, find?_filter]
    by_cases h : l = n :: m <;> simp [h]

theorem entryAt?_drop (fs : FileSystem) {l : Location} (hl : l ≠ []) (m : Location) :
    (fs.drop l).entryAt? m = if l = m then none else fs.entryAt? m := by
  cases m with
  | nil => simp [entryAt?, hl]
  | cons n m =>
    rw [entryAt?, entryAt?, drop, find?_filter]
    by_cases h : l = n :: m <;> simp [h]

/-! ## Paths -/

/-- The most bytes of a name. -/
def nameLimit : Nat := 255

/-- The first number of bytes that is too many for a path. -/
def pathLimit : Nat := 4096

/-- The location reached by the given names, which lead through directories only. -/
def walk (fs : FileSystem) (start : Location) : List String → Except FileError Location
  | [] => .ok start
  | name :: names =>
    if Path.isIdle name then fs.walk start names
    else if name = ".." then fs.walk start.tail names
    else if nameLimit < name.utf8ByteSize then .error .nameTooLong
    else match fs.entryAt? (name :: start) with
      | none => .error .notFound
      | some (.file _) => .error .notADirectory
      | some .directory => fs.walk (name :: start) names

/-- Where a path leads. -/
inductive Target where
  /-- It ends at the root or with dots, which is at a directory. -/
  | directory (location : Location)
  /-- It ends with the name of an entry, which need not exist. -/
  | named (parent : Location) (name : String) (slash : Bool)
deriving DecidableEq

/-- Walks a path up to its last name. -/
def target (fs : FileSystem) (p : String) : Except FileError Target :=
  if p.toList.contains '\x00' then .error .containsNul
  else if p = "" then .error .notFound
  else if pathLimit ≤ p.utf8ByteSize then .error .nameTooLong
  else
    let parts := Path.parts p
    match (parts.filter (· ≠ "")).reverse with
    | [] => .ok (.directory [])
    | last :: before => do
      let l ← fs.walk (if Path.isAbsolute p then [] else fs.here) before.reverse
      if last = "." then return .directory l
      else if last = ".." then return .directory l.tail
      else if nameLimit < last.utf8ByteSize then throw .nameTooLong
      else return .named l last (parts.getLast? = some "")

/-- The entry that a path leads to. A path that ends with a slash leads to directories only. -/
def look (fs : FileSystem) (p : String) : Except FileError FileEntry := do
  match ← fs.target p with
  | .directory _ => return .directory
  | .named l name slash => match fs.entryAt? (name :: l), slash with
    | none, _ => throw .notFound
    | some (.file _), true => throw .notADirectory
    | some e, _ => return e

/-- Whether a path leads to something. -/
def contains (fs : FileSystem) (p : String) : Bool := (fs.look p).isOk

/-- Whether a path leads to a directory. -/
def isDirectory (fs : FileSystem) (p : String) : Bool :=
  match fs.look p with
  | .ok .directory => true
  | _ => false

/-! ## Operations -/

/-- The text of a file. -/
def read (fs : FileSystem) (p : String) : Except FileError String := do
  match ← fs.look p with
  | .directory => throw .isADirectory
  | .file (.text s) => return s
  | .file (.binary _) => throw .notUtf8

/-- Writes a file, over any file already there. -/
def write (fs : FileSystem) (p : String) (content : Content) : Except FileError FileSystem := do
  match ← fs.target p with
  | .directory _ | .named _ _ true => throw .isADirectory
  | .named l name false => match fs.entryAt? (name :: l) with
    | some .directory => throw .isADirectory
    | _ => return fs.put (name :: l) (.file content)

/-- Removes a file. -/
def remove (fs : FileSystem) (p : String) : Except FileError FileSystem := do
  match ← fs.target p with
  | .directory _ => throw .isADirectory
  | .named l name slash => match fs.entryAt? (name :: l), slash with
    | none, _ => throw .notFound
    | some .directory, _ => throw .isADirectory
    | some (.file _), true => throw .notADirectory
    | some (.file _), false => return fs.drop (name :: l)

/-- Moves the file at `old` to `new`, over any file already there. -/
def replace (fs : FileSystem) (old new : String) : Except FileError FileSystem := do
  match ← fs.target old, ← fs.target new with
  | .named l name slash, .named m newName newSlash =>
    match fs.entryAt? (name :: l), fs.entryAt? (newName :: m) with
    | none, _ => throw .notFound
    | some .directory, _ => throw .isADirectory
    | some (.file content), e =>
      if slash || newSlash then throw .notADirectory
      else if e = some .directory then throw .isADirectory
      else return (fs.drop (name :: l)).put (newName :: m) (.file content)
  | _, _ => throw .busy

/-- Makes one directory. -/
def makeDirectory (fs : FileSystem) (p : String) : Except FileError FileSystem := do
  match ← fs.target p with
  | .directory _ => throw .alreadyExists
  | .named l name _ => match fs.entryAt? (name :: l) with
    | some _ => throw .alreadyExists
    | none => return fs.put (name :: l) .directory

/-- Makes one directory, or finds it made. -/
def ensureDirectory (fs : FileSystem) (p : String) : Except FileError FileSystem :=
  match fs.makeDirectory p with
  | .ok fs => .ok fs
  | .error e => if e = .alreadyExists ∧ fs.isDirectory p then .ok fs else .error e

/-- Makes the first of some directories, each of which lies in the next one, after those that it
needs. -/
def makeNested (fs : FileSystem) : List String → Except FileError Unit × FileSystem
  | [] => (.ok (), fs)
  | p :: up => match fs.ensureDirectory p with
    | .ok fs => (.ok (), fs)
    | .error .notFound => match fs.makeNested up with
      | (.error e, fs) => (.error e, fs)
      | (.ok (), fs) => match fs.ensureDirectory p with
        | .ok fs => (.ok (), fs)
        | .error e => (.error e, fs)
    | .error e => (.error e, fs)

/-- Makes the directory at a path with those above it; the empty path needs none. -/
def makeDirectories (fs : FileSystem) (p : String) : Except FileError Unit × FileSystem :=
  fs.makeNested (Path.ancestors p)

end FileSystem

end Provision
