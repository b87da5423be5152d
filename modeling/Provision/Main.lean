import Provision.Program
import Std.Time.DateTime.Timestamp

/-!
# The executable

The thin layer around `Program.run`: it takes the arguments, the environment, the time of day and
the files that matter from the operating system, and afterwards prints lines and writes the files
that have changed.
-/

namespace Provision

namespace Main

/-- The content of some bytes. -/
def content (bytes : ByteArray) : Content :=
  match String.fromUTF8? bytes with
  | some s => .text s
  | none => .binary bytes.toList

/-- The bytes of a content. -/
def bytes : Content → ByteArray
  | .text s => s.toUTF8
  | .binary bytes => ⟨bytes.toArray⟩

/-- The first field after `label`, on the line that starts with it. -/
def fieldAfter? (label : String) (lines : List String) : Option String :=
  lines.findSome? fun line =>
    match (line.toList.splitBy fun a b => a.isWhitespace = b.isWhitespace).map String.ofList with
    | l :: _ :: field :: _ => if l = label then some field else none
    | _ => none

/-- The home directory on record for the account with the given number. -/
def homeOf? (account : String) (records : List String) : Option String :=
  records.findSome? fun record =>
    match (record.toList.splitOn ':').map String.ofList with
    | [_, _, number, _, _, home, _] => if number = account then some home else none
    | _ => none

/-- The home directory on record for the account of the process, where the system tells. -/
def accountHome : IO (Option String) := do
  try
    let status ← IO.FS.lines "/proc/self/status"
    let records ← IO.FS.lines "/etc/passwd"
    return (fieldAfter? "Uid:" status.toList).bind (homeOf? · records.toList)
  catch _ => return none

/-- The environment of the process. Variables that are no text do not count. -/
def environment : IO Environment := do
  let raw ← IO.FS.readBinFile "/proc/self/environ"
  let bindings := (raw.toList.splitOn 0).filterMap fun binding => do
    let s ← String.fromUTF8? ⟨binding.toArray⟩
    let name := s.toList.takeWhile (· ≠ '=')
    guard (name.length < s.length)
    return (String.ofList name, String.ofList (s.toList.drop (name.length + 1)))
  return ⟨Fields.ofList bindings, ← accountHome⟩

/-- The time of day. -/
def now : IO Timestamp := do
  let n := (← Std.Time.Timestamp.now).toNanosecondsSinceUnixEpoch.val.toNat
  return (Timestamp.ofUnix (n / 1000000000) (n % 1000000000)).getD default

/-- The code of the system for a directory where a file is needed. -/
def isDirectoryCode : UInt32 := 21

/-- What stands at a path on the disk. -/
def probe (p : String) : IO (Option FileEntry) := do
  try
    return some (.file (content (← IO.FS.readBinFile p)))
  catch
    | .noFileOrDirectory _ _ _ => return none
    | .inappropriateType _ code _ =>
      return if code = isDirectoryCode then some .directory else none
    | e => throw e

/-- Takes over what stands on the disk at some paths and above them. -/
def observe (fs : FileSystem) (ps : List String) : IO FileSystem :=
  (ps.flatMap fun p => (Path.ancestors p).reverse).foldlM (fun fs p => do
    match fs.target p with
    | .ok (.named l name _) => match ← probe p with
      | some e => return fs.put (name :: l) e
      | none => return fs
    | _ => return fs) fs

/-- A location and the locations above it, without the root. -/
def withAncestors : Location → List Location
  | [] => []
  | name :: up => (name :: up) :: withAncestors up

/-- The current directory with the directories above it. -/
def startingFiles : IO FileSystem := do
  let here := ((Path.parts (toString (← IO.currentDir))).filter (· ≠ "")).reverse
  return ⟨here, (withAncestors here).map (·, .directory)⟩

/-- The absolute path of a location. -/
def absolute (l : Location) : String := "/" ++ String.intercalate "/" l.reverse

/-- Brings the disk from one state of the files to another. A file is written beside its place and
then moved there. -/
def update (before after : FileSystem) : IO Unit := do
  for (l, _) in before.entries do
    if (after.entryAt? l).isNone then IO.FS.removeFile (absolute l)
  for (l, e) in after.entries.reverse do
    if before.entryAt? l ≠ some e then
      match e with
      | .directory => IO.FS.createDirAll (absolute l)
      | .file c =>
        let draft := absolute l ++ ".new"
        IO.FS.writeBinFile draft (bytes c)
        IO.FS.rename draft (absolute l)

/-- Asks the user, if there is one. -/
def ask (command : Command) : IO (Option Bool) := do
  let stdin ← IO.getStdin
  unless ← stdin.isTty do return none
  let (question, byDefault) := command.question
  IO.eprint (question ++ if byDefault then " [Y/n] " else " [y/N] ")
  match (← stdin.getLine).toList.head? with
  | some 'y' | some 'Y' => return some true
  | some 'n' | some 'N' => return some false
  | some '\n' => return some byDefault
  | _ => return none

/-- The files that a command line works on, with its command. -/
def prepare (env : Environment) (args : List String) (time : Timestamp) :
    IO (FileSystem × Option Command) := do
  let fs ← startingFiles
  match CommandLine.parse env args with
  | .ok { request := .run command, flags, .. } =>
    let fs ← observe fs (env.configDirectory.toOption.map Preferences.path).toList
    match Program.settings env flags fs with
    | .error _ => return (fs, some command)
    | .ok settings =>
      let fs ← observe fs (Program.paths settings command)
      let fs ← observe fs (Program.resourcePaths settings command time fs)
      return (fs, some command)
  | _ => return (fs, none)

/-- Tells of a failure and its causes. -/
def complain (f : Failure) : IO Unit := do
  IO.eprintln ("Error: " ++ f.message)
  let causes := f.chain.drop 1
  unless causes.isEmpty do
    IO.eprintln "\nCaused by:"
    for cause in causes do IO.eprintln ("    " ++ cause)

end Main

end Provision

open Provision in
/-- Runs the program. -/
def main (args : List String) : IO UInt32 := do
  let env ← Main.environment
  let time ← Main.now
  let (fs, command) ← Main.prepare env args time
  let first := Program.run env args none time fs
  first.lines.forM IO.println
  let answer ← match first.failure, command with
    | some .unconfirmed, some command => Main.ask command
    | _, _ => pure none
  let final ← match answer with
    | none => pure first
    | some _ => do
      let second := Program.run env args answer time fs
      (second.lines.drop first.lines.length).forM IO.println
      pure second
  Main.update fs final.files
  match final.failure with
  | some f => Main.complain f
  | none => pure ()
  if final.code = 2 then Program.usage.forM IO.eprintln
  return UInt32.ofNat final.code
