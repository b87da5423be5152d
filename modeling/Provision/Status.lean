/-!
# Statuses

What went wrong with one node of a run. Success is the absence of a status.
-/

namespace Provision

/-- The kinds of failure of a node. -/
inductive StatusKind where
  /-- A reference that does not resolve, or otherwise invalid desired content. -/
  | illegalManifest
  /-- The backend refused. -/
  | backendFailure
  /-- No backend serves the type of the resource. -/
  | backendNotFound
  /-- The state could not be stored. -/
  | storageFailure
  /-- Not executed, since a node it waits for did not succeed. -/
  | dependencyFailed
  /-- Not executed, since the run was cancelled. -/
  | cancelled
deriving DecidableEq, Inhabited

namespace StatusKind

/-- Whether the node was never executed. -/
def isSkip : StatusKind → Bool
  | .dependencyFailed | .cancelled => true
  | _ => false

/-- The name shown to users. -/
def name : StatusKind → String
  | .illegalManifest => "IllegalManifest"
  | .backendFailure => "BackendFailure"
  | .backendNotFound => "BackendNotFound"
  | .storageFailure => "StorageFailure"
  | .dependencyFailed => "DependencyFailed"
  | .cancelled => "Cancelled"

/-- Every kind. -/
def all : List StatusKind :=
  [.illegalManifest, .backendFailure, .backendNotFound, .storageFailure, .dependencyFailed,
    .cancelled]

/-- The kind of the given name. -/
def ofName? (name : String) : Option StatusKind := all.find? (·.name = name)

theorem ofName?_name (k : StatusKind) : ofName? k.name = some k := by cases k <;> decide

end StatusKind

/-- A kind of failure with its detail. -/
structure Status where
  kind : StatusKind
  message : String
deriving DecidableEq, Inhabited

namespace Status

/-- The kind and the detail in one line. -/
def text (s : Status) : String := s.kind.name ++ ": " ++ s.message

/-- A reference `body` whose first segment is `key` leads nowhere. -/
def unresolved (key body : String) : Status :=
  ⟨.illegalManifest, s!"can't find specified value in resource:{key} by ref:{body}"⟩

/-- No backend serves `type`. -/
def unserved (type : String) : Status :=
  ⟨.backendNotFound, s!"no backend registered for resource type {type}"⟩

/-- The state could not be stored after the change of `key`. -/
def unstored (key cause : String) : Status :=
  ⟨.storageFailure, s!"failed to persist state after {key}: {cause}"⟩

/-- The node waits for `key`, which did not succeed. -/
def blockedBy (key : String) : Status :=
  ⟨.dependencyFailed, s!"blocked by failed dependency: {key}"⟩

/-- The run was cancelled before the node started. -/
def notStarted : Status := ⟨.cancelled, "run cancelled before node started"⟩

/-- The backend broke down while it served `key`. -/
def brokeDown (key : String) : Status := ⟨.backendFailure, s!"panicked while executing {key}"⟩

end Status

end Provision
