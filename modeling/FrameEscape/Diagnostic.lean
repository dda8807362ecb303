import FrameEscape.Level
import FrameEscape.Span

/-!
# Diagnostics

A diagnostic is a message about a source text: how bad it is, which parts of the text it is
about, and what else there is to say. Findings and malformed bodies become diagnostics, which
are shown on a terminal or written as JSON.
-/

namespace FrameEscape

/-- How bad something is. -/
inductive Severity where
  | error
  | warning
  | note
  deriving DecidableEq

/-- The word for a severity. -/
def Severity.word : Severity → String
  | error => "error"
  | warning => "warning"
  | note => "note"

/-- A part of the source, and what it has to do with the matter. -/
structure Label where
  span : Span
  /-- Whether this is where the matter is, rather than something related to it. -/
  isPrimary : Bool
  message : String
  deriving DecidableEq

/-- The level that was needed, and the one that there was. -/
structure LevelPair where
  required : Level
  actual : Level
  deriving DecidableEq

/-- A message about a source text. -/
structure Diagnostic where
  severity : Severity
  code : Option String
  message : String
  labels : List Label
  /-- The path of the node that the matter is about, as it is shown. -/
  path : Option String
  levels : Option LevelPair
  notes : List String
  help : Option String
  deriving DecidableEq

namespace Diagnostic

/-- A message and nothing else. -/
def new (severity : Severity) (message : String) : Diagnostic :=
  ⟨severity, none, message, [], none, none, [], none⟩

/-- Give the diagnostic a code. -/
def withCode (d : Diagnostic) (code : String) : Diagnostic := { d with code := some code }

/-- Add a label at the place of the matter. -/
def withPrimary (d : Diagnostic) (span : Span) (message : String) : Diagnostic :=
  { d with labels := d.labels ++ [⟨span, true, message⟩] }

/-- Add a label at a related place. -/
def withSecondary (d : Diagnostic) (span : Span) (message : String) : Diagnostic :=
  { d with labels := d.labels ++ [⟨span, false, message⟩] }

/-- Name the node that the matter is about. -/
def withPath (d : Diagnostic) (path : String) : Diagnostic := { d with path := some path }

/-- Name the levels that were compared, if both are known. -/
def withLevels (d : Diagnostic) (required actual : Option Level) : Diagnostic :=
  match required, actual with
  | some required, some actual => { d with levels := some ⟨required, actual⟩ }
  | _, _ => d

/-- Add a note. -/
def withNote (d : Diagnostic) (note : String) : Diagnostic := { d with notes := d.notes ++ [note] }

/-- Say what may help. -/
def withHelp (d : Diagnostic) (help : String) : Diagnostic := { d with help := some help }

/-- The label that tells where the matter is: the first primary one, or else the first. -/
def mainLabel? (d : Diagnostic) : Option Label :=
  (d.labels.find? (·.isPrimary)).or d.labels.head?

/-- Where the matter is. -/
def span? (d : Diagnostic) : Option Span := d.mainLabel?.map (·.span)

end Diagnostic

end FrameEscape
