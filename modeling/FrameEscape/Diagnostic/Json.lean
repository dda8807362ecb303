import FrameEscape.Diagnostic
import FrameEscape.Diagnostic.Code
import FrameEscape.Json.Printer
import FrameEscape.Text.Lines

/-!
# Diagnostics as JSON

The diagnostics of one body are written as one object for other tools to read. What a
diagnostic does not have is left out of its object.
-/

namespace FrameEscape

/-- The diagnostics of a body, and the source that they are about. -/
structure Batch where
  /-- The name of the body. -/
  body : String
  /-- The source, empty if there is none. -/
  source : String
  diagnostics : List Diagnostic

/-- A member of an object, left out if there is no value. -/
def optionalMember {α : Type} (key : String) (toJson : α → Json) : Option α → List (String × Json)
  | some a => [(key, toJson a)]
  | none => []

/-- A label, by its role and its span. -/
def Label.toJson (label : Label) : Json :=
  .obj [("role", .str (if label.isPrimary then "primary" else "secondary")),
    ("message", .str label.message),
    ("start", .nat label.span.start.toNat),
    ("end", .nat label.span.stop.toNat)]

/-- A place in a source: its line and column, and the text of the line. -/
def LineIndex.locationJson (index : LineIndex) (source : String) (offset : Nat) : Json :=
  .obj [("line", .nat (index.lineOf offset)),
    ("column", .nat (index.columnOf offset)),
    ("byte_offset", .nat offset),
    ("source_line", .str ((index.line? source (index.lineOf offset)).getD ""))]

namespace Diagnostic

/-- The category of the code, if it is a known one. -/
def category? (d : Diagnostic) : Option Category :=
  (d.code.bind ErrorCode.ofText?).map ErrorCode.category

/-- The offset that the location of a diagnostic is about, if there is a source. -/
def offsetIn? (d : Diagnostic) (source : String) : Option Nat :=
  if source.isEmpty then none else d.span?.map (·.start.toNat)

/-- A diagnostic about a source. -/
def toJson (d : Diagnostic) (index : LineIndex) (source : String) : Json :=
  .obj <|
    [("severity", .str d.severity.word)] ++
    optionalMember "code" Json.str d.code ++
    optionalMember "category" (fun category => .str category.name) d.category? ++
    [("message", .str d.message)] ++
    optionalMember "path" Json.str d.path ++
    optionalMember "required_level" (fun levels => .str levels.required.name) d.levels ++
    optionalMember "actual_level" (fun levels => .str levels.actual.name) d.levels ++
    optionalMember "location" (index.locationJson source) (d.offsetIn? source) ++
    [("labels", .arr (d.labels.map Label.toJson))] ++
    (if d.notes.isEmpty then [] else [("notes", .arr (d.notes.map Json.str))]) ++
    optionalMember "help" Json.str d.help

end Diagnostic

namespace Batch

/-- The number of diagnostics of a severity. -/
def count (batch : Batch) (severity : Severity) : Nat :=
  batch.diagnostics.countP (·.severity == severity)

/-- Whether there is no error. -/
def success (batch : Batch) : Bool := batch.count .error == 0

/-- The version of the form in which batches are written. -/
def formVersion : Nat := 1

/-- The batch as a value. -/
def toJson (batch : Batch) : Json :=
  let index := LineIndex.ofText batch.source
  .obj [("version", .nat formVersion),
    ("body", .str batch.body),
    ("success", .bool batch.success),
    ("diagnostics", .arr (batch.diagnostics.map (·.toJson index batch.source))),
    ("error_count", .nat (batch.count .error)),
    ("warning_count", .nat (batch.count .warning))]

/-- The batch as a text. -/
def toText (batch : Batch) : String := batch.toJson.pretty

end Batch

end FrameEscape
