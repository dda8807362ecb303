import FrameEscape.Check.Problem

/-!
# Error codes

Every kind of problem has a code, and malformed bodies have one in common. A code belongs to
one of three categories.
-/

namespace FrameEscape

/-- What codes are grouped by. -/
inductive Category where
  /-- Names that mean nothing. -/
  | resolution
  /-- Values that leave their frame. -/
  | escape
  /-- Bodies that are not trees. -/
  | frontend
  deriving DecidableEq

/-- The name of a category. -/
def Category.name : Category → String
  | resolution => "Resolution"
  | escape => "Escape"
  | frontend => "Frontend"

/-- What a code stands for. -/
inductive ErrorCode where
  | problem (kind : Problem.Kind)
  | malformed
  deriving DecidableEq

namespace ErrorCode

/-- Every code, in the order of their texts. -/
def all : List ErrorCode :=
  [problem .unknownBinding, problem .unknownMember, problem .unknownShape,
    problem .notReturnable, problem .receiverReturned, problem .mixedArguments,
    problem .escapingAssignment, malformed]

/-- The code itself. -/
def text : ErrorCode → String
  | problem .unknownBinding => "E0900"
  | problem .unknownMember => "E0901"
  | problem .unknownShape => "E0902"
  | problem .notReturnable => "E0903"
  | problem .receiverReturned => "E0904"
  | problem .mixedArguments => "E0905"
  | problem .escapingAssignment => "E0906"
  | malformed => "E0950"

/-- What the code is about, in a few words. -/
def title : ErrorCode → String
  | problem .unknownBinding => "unknown binding"
  | problem .unknownMember => "unknown member"
  | problem .unknownShape => "unknown shape"
  | problem .notReturnable => "value not returnable"
  | problem .receiverReturned => "reference to receiver field returned"
  | problem .mixedArguments => "caller reference mixed with stack data"
  | problem .escapingAssignment => "assignment escapes"
  | malformed => "malformed expression tree"

/-- The category of a code. -/
def category : ErrorCode → Category
  | problem .unknownBinding | problem .unknownMember | problem .unknownShape => .resolution
  | problem .notReturnable | problem .receiverReturned | problem .mixedArguments
  | problem .escapingAssignment => .escape
  | malformed => .frontend

/-- The code with a text. -/
def ofText? (text : String) : Option ErrorCode := all.find? (·.text == text)

/-- The texts are distinct, so each stands for one code. -/
theorem ofText?_text (code : ErrorCode) : ofText? code.text = some code := by
  cases code with
  | problem kind => cases kind <;> decide
  | malformed => decide

end ErrorCode

end FrameEscape
