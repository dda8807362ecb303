import FrameEscape.Body
import FrameEscape.Path

/-!
# Problems

What the checker reports about a program: names that mean nothing, and values that leave the
frame they may point into. A problem at a node, with the path to it, is a finding.
-/

namespace FrameEscape

/-- Something in a program that makes it unsafe or meaningless. -/
inductive Problem where
  /-- A name that is neither bound nor declared. `inScope` are those that are. -/
  | unknownBinding (name : String) (inScope : List String)
  /-- A member that the receiver's shape does not have. -/
  | unknownMember (shape member : String) (candidates : List String)
  /-- A shape that nobody registered. -/
  | unknownShape (name : String) (candidates : List String)
  /-- A returned value that may outlive the storage it points at. -/
  | notReturnable (mode : Access) (required actual : Level)
  /-- A reference into the receiver itself, returned by reference. -/
  | receiverReturned (member : String)
  /-- A call that passes a reference which the caller owns, at `reference`, together with
  stack-only data, at `stackData`. The receiver is at position 0. -/
  | mixedArguments (reference stackData : Nat)
  /-- A stored value that does not live as long as the target's storage. -/
  | escapingAssignment (mode : Access) (required actual : Level)
  deriving DecidableEq

namespace Problem

/-- The kinds of problems. -/
inductive Kind where
  | unknownBinding
  | unknownMember
  | unknownShape
  | notReturnable
  | receiverReturned
  | mixedArguments
  | escapingAssignment
  deriving DecidableEq

/-- The kind of a problem. -/
def kind : Problem → Kind
  | unknownBinding .. => .unknownBinding
  | unknownMember .. => .unknownMember
  | unknownShape .. => .unknownShape
  | notReturnable .. => .notReturnable
  | receiverReturned .. => .receiverReturned
  | mixedArguments .. => .mixedArguments
  | escapingAssignment .. => .escapingAssignment

/-- The level that the context demanded, for problems that compare levels. -/
def requiredLevel? : Problem → Option Level
  | notReturnable _ required _ | escapingAssignment _ required _ => some required
  | receiverReturned _ | mixedArguments .. => some .refScoped
  | _ => none

/-- The level that the value at fault had, for problems that compare levels. -/
def actualLevel? : Problem → Option Level
  | notReturnable _ _ actual | escapingAssignment _ _ actual => some actual
  | receiverReturned _ | mixedArguments .. => some .stackOnly
  | _ => none

/-- The problem in words. -/
def message : Problem → String
  | unknownBinding name _ => s!"unknown binding `{name}`"
  | unknownMember shape member _ => s!"`{shape}` has no member `{member}`"
  | unknownShape name _ => s!"unknown shape `{name}`"
  | notReturnable mode required actual =>
    let way := match mode with
      | .value => "by value"
      | .ref => "by reference"
    s!"{actual.name} value cannot be returned {way}; it must be at least {required.name}"
  | receiverReturned member =>
    s!"`{member}` returns a reference into its receiver, which cannot be returned by reference"
  | mixedArguments reference stackData =>
    s!"argument {stackData} is stack-only but argument {reference} is a reference the caller owns"
  | escapingAssignment mode required actual =>
    let place := match mode with
      | .value => "here"
      | .ref => "by reference here"
    s!"cannot store {actual.name} value {place}; the target needs at least {required.name}"

end Problem

/-- A problem, and the node that has it. -/
structure Finding where
  problem : Problem
  node : NodeId
  path : Path
  span : Span
  deriving DecidableEq

/-- The problem in words, and where it is. -/
def Finding.message (finding : Finding) : String :=
  s!"{finding.problem.message} (at {finding.path.text})"

end FrameEscape
