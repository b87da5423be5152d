import Provision.Graph
import Provision.Summary
import Provision.Text.Quoted

/-!
# Failures

Why a command did not do its work. `Failure.message` is what users see first, and
`Failure.chain` goes on with the causes.
-/

namespace Provision

/-- The documents that are read from files. -/
inductive Document where
  | manifest
  | stateFile
  | settingsFile
deriving DecidableEq, Inhabited

namespace Document

/-- The word for the document. -/
def name : Document → String
  | .manifest => "manifest"
  | .stateFile => "state file"
  | .settingsFile => "settings file"

end Document

/-- Why a command did not do its work. -/
inductive Failure where
  | unreadable (document : Document) (path cause : String)
  | unparsable (document : Document) (path : String)
  | unsupportedFormat (extension path : String)
  | emptyId (type : String)
  | dottedId (id : String)
  | duplicateId (id : String)
  | noStateDirectory (directory cause : String)
  | stateNotWritten (path cause : String)
  | stateNotReplaced (path cause : String)
  | invalidGraph (error : GraphError)
  | unconfirmed
  | noHomeDirectory
  | incomplete (failed skipped : Nat)
deriving DecidableEq, Inhabited

namespace Failure

/-- What users see. -/
def message : Failure → String
  | .unreadable document path _ => s!"Failed to read {document.name}: {path}"
  | .unparsable document path => s!"Failed to parse {document.name}: {path}"
  | .unsupportedFormat extension path =>
    s!"Unsupported manifest format {Text.quoted extension} (expected .json or .toml): {path}"
  | .emptyId type => s!"Resource of type {type} has an empty id"
  | .dottedId id =>
    s!"Resource id '{id}' must not contain '.', it is the first segment of references"
  | .duplicateId id => s!"Duplicate resource id '{id}'"
  | .noStateDirectory directory _ => s!"Failed to create state directory: {directory}"
  | .stateNotWritten path _ => s!"Failed to write state file: {path}"
  | .stateNotReplaced path _ => s!"Failed to replace state file: {path}"
  | .invalidGraph _ => "Invalid resource graph"
  | .unconfirmed => "Failed to read confirmation"
  | .noHomeDirectory => "Could not determine home directory"
  | .incomplete failed skipped => s!"{failed} resources failed, {skipped} skipped"

/-- The message and the causes behind it. -/
def chain (f : Failure) : List String :=
  f.message :: match f with
    | .unreadable _ _ cause | .noStateDirectory _ cause | .stateNotWritten _ cause
    | .stateNotReplaced _ cause => [cause]
    | .invalidGraph error => [error.message]
    | _ => []

/-- The message and its causes in one line. -/
def text (f : Failure) : String := String.intercalate ": " f.chain

end Failure

namespace Summary

/-- A walk in which some node did not succeed is a failure. -/
def check (s : Summary) : Except Failure Unit :=
  if s.isSuccess then .ok () else .error (.incomplete s.failed s.skipped)

end Summary

end Provision
