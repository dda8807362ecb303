import FrameEscape.Body.Malformed
import FrameEscape.Check
import FrameEscape.Diagnostic
import FrameEscape.Diagnostic.Code
import FrameEscape.Text.Suggestion

/-!
# Diagnostics of a check

What a check found, in words for the person who wrote the program: a diagnostic for each
finding of a report, and one for a body that was rejected.
-/

namespace FrameEscape

/-- The word for a position of a call. -/
def positionWord (position : Nat) : String :=
  if position = 0 then "the receiver" else s!"argument {position}"

/-- Words for how a value is returned. -/
def Access.returnWord : Access → String
  | value => "by value"
  | ref => "by reference"

/-- What to do about a value that may not be returned. -/
def returnHelp (mode : Access) (actual : Level) : String :=
  match mode, actual with
  | _, .stackOnly => "build the value from heap data or from the parameters"
  | .value, .refScoped => "return it by reference, or copy the data out"
  | _, _ => "copy the data out before returning"

namespace Diagnostic

/-- Add a note if there is one. -/
def withNote? (d : Diagnostic) (note : Option String) : Diagnostic :=
  match note with
  | some note => d.withNote note
  | none => d

/-- Say what may help, if anything. -/
def withHelp? (d : Diagnostic) (help : Option String) : Diagnostic :=
  match help with
  | some help => d.withHelp help
  | none => d

end Diagnostic

namespace Finding

/-- How many names a note lists. -/
def namesShown : Nat := 8

/-- An error with the code of the problem, labelled at the node. -/
def error (finding : Finding) (message label : String) : Diagnostic :=
  ((Diagnostic.new .error message).withCode
    (ErrorCode.problem finding.problem.kind).text).withPrimary finding.span label

/-- The problem by itself, in words. -/
def describe (finding : Finding) : Diagnostic :=
  match finding.problem with
  | .unknownBinding name inScope =>
    ((finding.error s!"unknown binding `{name}`" "not a parameter or local").withNote?
      (available? "names" inScope namesShown)).withHelp? (didYouMean? name inScope)
  | .unknownMember shape member candidates =>
    ((finding.error s!"`{shape}` has no member `{member}`" "unknown member").withNote?
      (available? "members" candidates namesShown)).withHelp? (didYouMean? member candidates)
  | .unknownShape name candidates =>
    (finding.error s!"unknown shape `{name}`"
      "no shape with this name was registered").withHelp? (didYouMean? name candidates)
  | .notReturnable mode required actual =>
    let what := match mode with
      | .value => "returned value"
      | .ref => "returned reference"
    ((finding.error s!"{what} may refer to the current stack frame"
      s!"this is {actual.name}").withNote
      s!"returning {mode.returnWord} requires {required.name} or better").withHelp
      (returnHelp mode actual)
  | .receiverReturned member =>
    ((finding.error s!"cannot return the result of `{member}` by reference"
      "refers to a field of the receiver").withNote
      "the receiver is a temporary copy that dies with this frame").withHelp
      "return the value by copy instead"
  | .mixedArguments reference stackData =>
    (((finding.error "call mixes a caller-owned reference with stack-only data"
      "in this call").withNote
      s!"{positionWord reference} is passed by reference from the caller").withNote
      s!"{positionWord stackData} may refer to this frame").withHelp
      "the callee could store the stack data through the reference"
  | .escapingAssignment mode required actual =>
    ((finding.error s!"cannot store a {actual.name} value here"
      "stored value outlives its storage").withNote
      s!"the target needs {required.name} or better").withHelp?
      (match mode with
      | .ref => some "ref stores also need the value to be at least ref-scoped"
      | .value => none)

/-- The problem in words, with the node that has it and the levels that were compared. -/
def toDiagnostic (finding : Finding) : Diagnostic :=
  (finding.describe.withPath finding.path.text).withLevels finding.problem.requiredLevel?
    finding.problem.actualLevel?

end Finding

/-- The diagnostics of the findings, in evaluation order. -/
def Report.diagnostics (report : Report) : List Diagnostic :=
  report.findings.map Finding.toDiagnostic

namespace Malformed

/-- A rejected body in words. -/
def toDiagnostic (mistake : Malformed) : Diagnostic :=
  (((Diagnostic.new .error s!"malformed expression tree: {mistake.message}").withCode
    ErrorCode.malformed.text).withNote s!"found at node {mistake.node.text}").withHelp
    "this is a bug in the front end that built the tree"

/-- A rejected body in words, labelled at the node if the body has it. -/
def toDiagnosticIn (mistake : Malformed) (body : Body) : Diagnostic :=
  match body.node? mistake.node with
  | some node => mistake.toDiagnostic.withPrimary node.span s!"in {node.expr.describe}"
  | none => mistake.toDiagnostic

end Malformed

end FrameEscape
