import FrameEscape.Level

/-!
# Expressions

`Expr α` is one node of a function body whose children are given as `α`: ids of other nodes
in a body, values once the children have been evaluated. What a node refers to is said once,
by `children`; `mapIdxM` replaces the children from left to right.
-/

namespace FrameEscape

/-- Where an allocation places its memory. -/
inductive Region where
  | stack
  | heap
  deriving DecidableEq

/-- One node of a function body, over its children. -/
inductive Expr (α : Type) where
  /-- Plain data, such as a number. -/
  | literal
  /-- A fresh buffer, of a named shape or of none. -/
  | alloc (region : Region) (shape : Option String)
  /-- A use of a variable or parameter. -/
  | var (name : String)
  /-- `base.name` -/
  | field (base : α) (name : String)
  /-- `receiver.method(args)` -/
  | call (receiver : α) (method : String) (args : List α)
  /-- `base[position]`, by value or by reference. -/
  | index (base position : α) (access : Access)
  /-- A part of `base`, cut out as `args` say. -/
  | slice (base : α) (args : List α)
  /-- `target = value`, by value or by reference. -/
  | assign (target value : α) (mode : Access)
  /-- A new value of a shape, built from `args`. -/
  | construct (shape : String) (args : List α)
  /-- A local declaration, visible to the rest of the enclosing block. -/
  | declare (name : String) (init : α)
  /-- A sequence of statements, with the value of the last one. -/
  | block (stmts : List α)
  /-- `return value`, by value or by reference. -/
  | ret (value : α) (mode : Access)
  deriving DecidableEq

namespace Expr

variable {α β : Type}

/-- The children in evaluation order. A child's place in this list is its step in a path. -/
def children : Expr α → List α
  | literal | alloc .. | var _ => []
  | field base _ => [base]
  | call receiver _ args => receiver :: args
  | index base position _ => [base, position]
  | slice base args => base :: args
  | assign target value _ => [target, value]
  | construct _ args => args
  | declare _ init => [init]
  | block stmts => stmts
  | ret value _ => [value]

/-- Whether the node denotes storage: a variable, a field or an element. -/
def isPlace : Expr α → Bool
  | var _ | field .. | index .. => true
  | _ => false

/-- The short name of a kind of node in messages. -/
def describe : Expr α → String
  | literal => "literal"
  | alloc .stack _ => "stack allocation"
  | alloc .heap _ => "heap allocation"
  | var _ => "variable"
  | field .. => "field access"
  | call .. => "method call"
  | index _ _ .value => "indexer"
  | index _ _ .ref => "ref indexer"
  | slice .. => "slice"
  | assign .. => "assignment"
  | construct .. => "constructor call"
  | declare .. => "local declaration"
  | block _ => "block"
  | ret _ .value => "return"
  | ret _ .ref => "ref return"

/-- Replace the elements of a list from left to right, counting positions from `start`. -/
def mapFromM {m : Type → Type} [Monad m] (f : Nat → α → m β) : Nat → List α → m (List β)
  | _, [] => pure []
  | start, a :: rest => do
    let b ← f start a
    let bs ← mapFromM f (start + 1) rest
    pure (b :: bs)

/-- Replace the children from left to right, each with its position. -/
def mapIdxM {m : Type → Type} [Monad m] (f : Nat → α → m β) : Expr α → m (Expr β)
  | literal => pure .literal
  | alloc region shape => pure (.alloc region shape)
  | var name => pure (.var name)
  | field base name => do
    let base ← f 0 base
    pure (.field base name)
  | call receiver method args => do
    let receiver ← f 0 receiver
    let args ← mapFromM f 1 args
    pure (.call receiver method args)
  | index base position access => do
    let base ← f 0 base
    let position ← f 1 position
    pure (.index base position access)
  | slice base args => do
    let base ← f 0 base
    let args ← mapFromM f 1 args
    pure (.slice base args)
  | assign target value mode => do
    let target ← f 0 target
    let value ← f 1 value
    pure (.assign target value mode)
  | construct shape args => do
    let args ← mapFromM f 0 args
    pure (.construct shape args)
  | declare name init => do
    let init ← f 0 init
    pure (.declare name init)
  | block stmts => do
    let stmts ← mapFromM f 0 stmts
    pure (.block stmts)
  | ret value mode => do
    let value ← f 0 value
    pure (.ret value mode)

end Expr

end FrameEscape
