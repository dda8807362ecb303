import FrameEscape.Body

/-!
# Malformed bodies

The ways in which the nodes of a body fail to make up a tree that can be checked. Each is a
mistake of whoever built the body, not a property of the program in it.
-/

namespace FrameEscape

/-- Why the nodes of a body are not a tree that can be checked. -/
inductive Malformed where
  /-- The root is none of the body's nodes. -/
  | missingRoot (root : NodeId) (size : Nat)
  /-- A node refers to a child that is none of the body's nodes. -/
  | danglingChild (parent child : NodeId)
  /-- A node can be reached in two ways, or from itself. -/
  | sharedNode (node : NodeId)
  /-- An assignment's target, of the kind `found`, denotes no storage. -/
  | notAPlace (node : NodeId) (found : String)
  /-- A node lies further than `limit` steps from the root. -/
  | tooDeep (node : NodeId) (limit : Nat)
  deriving DecidableEq

namespace Malformed

/-- The node at which the mistake was found. -/
def node : Malformed → NodeId
  | missingRoot root _ => root
  | danglingChild parent _ => parent
  | sharedNode node => node
  | notAPlace node _ => node
  | tooDeep node _ => node

/-- The mistake in words. -/
def message : Malformed → String
  | missingRoot root size => s!"root {root.text} is not a node of a {size}-node body"
  | danglingChild parent child => s!"node {parent.text} refers to missing child {child.text}"
  | sharedNode node => s!"node {node.text} is reachable more than once"
  | notAPlace node found => s!"assignment {node.text} targets a {found}, which is not a place"
  | tooDeep node limit => s!"node {node.text} is nested deeper than {limit} levels"

end Malformed

end FrameEscape
