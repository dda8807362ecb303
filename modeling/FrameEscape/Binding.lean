import FrameEscape.Level
import FrameEscape.NameTable

/-!
# Bindings

The locals and parameters that a body may use, as its front end declares them.
-/

namespace FrameEscape

/-- A local or parameter from outside the body. -/
structure Binding where
  level : Level
  /-- A by-reference parameter: its level is what the caller's argument guarantees, and
  places rooted at it are storage that the caller owns. -/
  isRefParam : Bool
  /-- The shape of the bound value, when it has members. -/
  shape : Option String
  deriving DecidableEq

/-- The names that a body may use before it declares any. -/
abbrev Bindings := NameTable Binding

end FrameEscape
