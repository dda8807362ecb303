import FrameEscape.Binding

/-!
# Values of expressions

Evaluating a node yields its level, its shape and where its storage belongs. A node whose
meaning could not be found out is poisoned: it counts as stack-only, and nothing more is
reported about what is made of it.
-/

namespace FrameEscape

/-- Whose storage a value stands for. -/
inductive Origin where
  /-- A place rooted at a by-reference parameter: the caller owns the storage. -/
  | caller
  /-- A place rooted at a local or by-value parameter: the storage is this frame. -/
  | frame
  /-- A reference into the receiver of the call that produced it, through this member. -/
  | receiver (member : String)
  /-- A value with no storage of its own. -/
  | temporary
  deriving DecidableEq

/-- A field lies in the storage of what it is a field of, but is no longer the reference
that a member returned. -/
def Origin.ofField : Origin → Origin
  | caller => caller
  | frame => frame
  | receiver _ | temporary => temporary

/-- An element lies in the storage that its base points into. That is not a local's own
slot, so only caller-owned storage carries over. -/
def Origin.ofElement : (base element : Origin) → Origin
  | caller, temporary => caller
  | _, element => element

/-- What is known of the value of an expression. -/
structure Value where
  level : Level
  shape : Option String
  origin : Origin
  deriving DecidableEq

namespace Value

/-- A value with no storage of its own. -/
def temporary (level : Level) (shape : Option String) : Value := ⟨level, shape, .temporary⟩

/-- Plain data, which is also the value of a statement. -/
def unit : Value := temporary .heap none

end Value

/-- What evaluating a node yields. -/
inductive Resolved where
  /-- The meaning of the node could not be found out, which has been reported. -/
  | poisoned
  | known (value : Value)
  deriving DecidableEq

namespace Resolved

/-- The level of a poisoned node is the lowest. -/
def level : Resolved → Level
  | poisoned => .stackOnly
  | known value => value.level

/-- Whether the meaning of the node could not be found out. -/
def isPoisoned : Resolved → Bool
  | poisoned => true
  | known _ => false

/-- Whether this is a place in storage that the caller owns. -/
def isCallerPlace : Resolved → Bool
  | known ⟨_, _, .caller⟩ => true
  | _ => false

theorem isCallerPlace_known (value : Value) :
    (known value).isCallerPlace = decide (value.origin = .caller) := by
  obtain ⟨_, _, origin⟩ := value
  cases origin <;> rfl

/-- Whether the value may point into this frame for all that is known of it. -/
def isStackOnly : Resolved → Bool
  | known value => value.level == .stackOnly
  | poisoned => false

/-- The value of a local that was initialised with this one: the storage is now the
local's. -/
def asLocal : Resolved → Resolved
  | poisoned => poisoned
  | known value => known { value with origin := .frame }

/-- The value of a name from outside the body. -/
def ofBinding (binding : Binding) : Resolved :=
  known ⟨binding.level, binding.shape, if binding.isRefParam then .caller else .frame⟩

end Resolved

/-- The names declared in the body and visible at a point of it, the latest first, so that
a declaration hides earlier ones of its name. -/
abbrev Scope := List (String × Resolved)

namespace Scope

/-- The scope after a declaration. -/
def declare (scope : Scope) (name : String) (init : Resolved) : Scope :=
  (name, init.asLocal) :: scope

/-- The value of the innermost declaration of a name. -/
def get? (scope : Scope) (name : String) : Option Resolved := scope.lookup name

/-- The declared names, hidden ones included. -/
def names (scope : Scope) : List String := scope.map (·.1)

end Scope

end FrameEscape
