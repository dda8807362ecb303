import FrameEscape.Expr
import FrameEscape.Span

/-!
# Bodies

A function body is a list of nodes that refer to each other by their places in it, and the
place of the root. A front end hands bodies over as they are: references may lead nowhere,
meet in one node or run in a circle, and whether they make up a tree is found out later.
-/

namespace FrameEscape

/-- The place of a node in its body. -/
structure NodeId where
  value : UInt32
  deriving DecidableEq

namespace NodeId

/-- The id of a place, which is a word: places from 2³² on start again at zero. -/
def ofNat (index : Nat) : NodeId := ⟨UInt32.ofNat index⟩

/-- The place as a number. -/
def index (id : NodeId) : Nat := id.value.toNat

/-- The id as messages show it. -/
def text (id : NodeId) : String := "#" ++ id.index.repr

end NodeId

/-- An expression in a body, with the part of the source that it was read from. -/
structure Node where
  expr : Expr NodeId
  span : Span
  deriving DecidableEq

/-- One function body: its nodes and the place of the root. -/
structure Body where
  name : String
  nodes : Array Node
  root : NodeId
  deriving DecidableEq

namespace Body

/-- The number of nodes, reachable or not. -/
abbrev size (body : Body) : Nat := body.nodes.size

/-- The node at a place. -/
def node? (body : Body) (id : NodeId) : Option Node := body.nodes[id.index]?

/-- Whether a place holds a node. -/
def contains (body : Body) (id : NodeId) : Bool := decide (id.index < body.size)

theorem contains_eq_isSome (body : Body) (id : NodeId) :
    body.contains id = (body.node? id).isSome := by
  unfold contains node? size
  by_cases h : id.index < body.nodes.size <;> simp [h]

end Body

end FrameEscape
