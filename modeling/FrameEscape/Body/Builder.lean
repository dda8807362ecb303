import FrameEscape.Body

/-!
# Building bodies

A builder appends one node at a time and answers with its id, so that children exist before
their parents. A span, once set, is given to all nodes after it.
-/

namespace FrameEscape

/-- The ways to ask a builder for a node: by its expression, or by a name for a usual one. What
such a name leaves unsaid goes by value, and a buffer has a shape. -/
inductive Maker where
  | push (expr : Expr NodeId)
  | literal
  | stackAlloc (shape : String)
  | heapAlloc (shape : String)
  | var (name : String)
  | field (base : NodeId) (name : String)
  | call (receiver : NodeId) (method : String) (args : List NodeId)
  | index (base position : NodeId)
  | indexRef (base position : NodeId)
  | slice (base : NodeId) (args : List NodeId)
  | assign (target value : NodeId)
  | assignRef (target value : NodeId)
  | construct (shape : String) (args : List NodeId)
  | declare (name : String) (init : NodeId)
  | block (stmts : List NodeId)
  | ret (value : NodeId)
  | retRef (value : NodeId)

/-- The expression that is asked for. -/
def Maker.expr : Maker → Expr NodeId
  | push expr => expr
  | literal => .literal
  | stackAlloc shape => .alloc .stack (some shape)
  | heapAlloc shape => .alloc .heap (some shape)
  | var name => .var name
  | field base name => .field base name
  | call receiver method args => .call receiver method args
  | index base position => .index base position .value
  | indexRef base position => .index base position .ref
  | slice base args => .slice base args
  | assign target value => .assign target value .value
  | assignRef target value => .assign target value .ref
  | construct shape args => .construct shape args
  | declare name init => .declare name init
  | block stmts => .block stmts
  | ret value => .ret value .value
  | retRef value => .ret value .ref

/-- A body in the making. -/
structure Builder where
  name : String
  nodes : Array Node
  span : Span

namespace Builder

/-- A builder with no node yet. -/
def new (name : String) : Builder := ⟨name, #[], .zero⟩

/-- Give this span to the nodes appended from now on. -/
def withSpan (builder : Builder) (span : Span) : Builder := { builder with span }

/-- Append a node, with its id. -/
def push (builder : Builder) (expr : Expr NodeId) : NodeId × Builder :=
  (.ofNat builder.nodes.size,
    { builder with nodes := builder.nodes.push ⟨expr, builder.span⟩ })

/-- Append the node that is asked for, with its id. -/
def make (builder : Builder) (maker : Maker) : NodeId × Builder := builder.push maker.expr

/-- The body of the nodes appended so far, entered at `root`. -/
def finish (builder : Builder) (root : NodeId) : Body := ⟨builder.name, builder.nodes, root⟩

theorem node?_finish_push (builder : Builder) (expr : Expr NodeId) (root : NodeId)
    (small : builder.nodes.size < UInt32.size) :
    ((builder.push expr).2.finish root).node? (builder.push expr).1 =
      some ⟨expr, builder.span⟩ := by
  have index : (NodeId.ofNat builder.nodes.size).index = builder.nodes.size := by
    rw [NodeId.ofNat, NodeId.index, UInt32.toNat_ofNat', Nat.mod_eq_of_lt small]
  simp [push, finish, Body.node?, index]

end Builder

end FrameEscape
