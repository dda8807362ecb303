/-!
# Paths

A path leads from the root of a tree to one of its nodes by child positions. Positions are
words, as paths are handed to other tools.
-/

namespace FrameEscape

/-- Child positions from the root down to a node. -/
structure Path where
  steps : List UInt32
  deriving DecidableEq

namespace Path

/-- The path to the root. -/
def root : Path := ⟨[]⟩

/-- The path to a child of the node that the path leads to. -/
def child (path : Path) (position : Nat) : Path := ⟨path.steps ++ [UInt32.ofNat position]⟩

/-- The path as messages show it: its steps with dots between them. -/
def text : Path → String
  | ⟨[]⟩ => "<root>"
  | ⟨steps⟩ => ".".intercalate (steps.map (·.toNat.repr))

end Path

end FrameEscape
