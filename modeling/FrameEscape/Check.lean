import FrameEscape.Body.Validate
import FrameEscape.Check.Rule

/-!
# Checking a body

A body that is a tree is evaluated once, children before their parent and from left to
right. Evaluation threads the names in scope and leaves one visit for each node, in order;
a visit holds the value of the node and at most one problem. The report is those visits.
-/

namespace FrameEscape

/-- The evaluation of one node. -/
structure Visit where
  node : NodeId
  path : Path
  span : Span
  verdict : Verdict
  deriving DecidableEq

/-- The problem found in a visit, and where it is. -/
def Visit.finding? (visit : Visit) : Option Finding :=
  visit.verdict.problem?.map (⟨·, visit.node, visit.path, visit.span⟩)

/-- What a stretch of evaluation leaves behind: a result, the names in scope after it and
the visits made, in order. -/
structure Stretch (α : Type) where
  result : α
  scope : Scope
  visits : List Visit

/-- A stretch of evaluation, from the names in scope before it. -/
def Evaluation (α : Type) := Scope → Stretch α

namespace Evaluation

instance : Monad Evaluation where
  pure a := fun scope => ⟨a, scope, []⟩
  bind first next := fun scope =>
    let before := first scope
    let after := next before.result before.scope
    ⟨after.result, after.scope, before.visits ++ after.visits⟩

end Evaluation

/-- The names in scope after a node, from those before it and those after its children. A
declaration adds a name, and what a block declares is forgotten at its end. -/
def Expr.scopeAfter (expr : Expr Resolved) (before inside : Scope) : Scope :=
  match expr with
  | .declare name init => inside.declare name init
  | .block _ => before
  | _ => inside

/-- Evaluate the node at a place, reached by `path`, with what is below it, down to `depth`
levels of nodes in all. A body that was accepted has no more than that. -/
def Context.evaluate (ctx : Context) (body : Body) :
    (depth : Nat) → (path : Path) → NodeId → Evaluation Resolved
  | 0, _, _ => pure .poisoned
  | depth + 1, path, id =>
    match body.node? id with
    | none => pure .poisoned
    | some node => fun before =>
      -- The names declared by a child are in scope in the ones after it.
      let children := node.expr.mapIdxM
        (fun position child => ctx.evaluate body depth (path.child position) child) before
      let verdict := ctx.resolve children.scope children.result
      ⟨verdict.value, children.result.scopeAfter before children.scope,
        children.visits ++ [⟨id, path, node.span, verdict⟩]⟩

/-- The result of checking a body. -/
structure Report where
  /-- The name of the body. -/
  body : String
  /-- The nodes evaluated, in order. -/
  visits : List Visit

namespace Report

/-- The findings, in evaluation order. -/
def findings (report : Report) : List Finding := report.visits.filterMap Visit.finding?

/-- Whether nothing was found. -/
def isOk (report : Report) : Bool := report.findings.isEmpty

/-- What a node was evaluated to. -/
def verdict? (report : Report) (id : NodeId) : Option Verdict :=
  (report.visits.find? (·.node == id)).map (·.verdict)

/-- The level of a node, if it is reachable from the root. -/
def level? (report : Report) (id : NodeId) : Option Level :=
  (report.verdict? id).map (·.value.level)

end Report

/-- Check a body: reject what is not a tree, and evaluate the rest. -/
def Body.check (body : Body) (ctx : Context) : Except Malformed Report :=
  match body.validate ctx.config.maxDepth with
  | .error mistake => .error mistake
  | .ok () =>
    let run := ctx.evaluate body (ctx.config.maxDepth + 1) .root body.root []
    .ok ⟨body.name, run.visits⟩

end FrameEscape
