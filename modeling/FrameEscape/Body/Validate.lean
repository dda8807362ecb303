import FrameEscape.Body.Malformed

/-!
# Validation

A body is accepted if the nodes reachable from its root make up a tree that is not too deep
and assigns to places only. The walk keeps a list of nodes to visit, so a body that runs in
a circle is found out when a node comes up again. It ends because every visit marks one more
node as seen.
-/

namespace FrameEscape

namespace Body

/-- The mistake that a node makes by itself: a child that does not exist, the first of them,
or else an assignment to something that is not a place. -/
def mistake? (body : Body) (id : NodeId) (expr : Expr NodeId) : Option Malformed :=
  match expr.children.find? (!body.contains ·) with
  | some child => some (.danglingChild id child)
  | none =>
    match expr with
    | .assign target _ _ =>
      (body.node? target).bind fun node =>
        if node.expr.isPlace then none else some (.notAPlace id node.expr.describe)
    | _ => none

/-- Visit the listed nodes, each with its distance from the root, and what is below them,
before the nodes further down the list. -/
def walk (body : Body) (limit : Nat) (todo : List (NodeId × Nat))
    (seen : Vector Bool body.size) : Except Malformed Unit :=
  match todo with
  | [] => .ok ()
  | (id, depth) :: rest =>
    if limit < depth then .error (.tooDeep id limit)
    else if h : id.index < body.size then
      if hseen : seen[id.index] = true then .error (.sharedNode id)
      else
        let expr := body.nodes[id.index].expr
        match body.mistake? id expr with
        | some mistake => .error mistake
        | none =>
          walk body limit (expr.children.map (·, depth + 1) ++ rest)
            (seen.set id.index true)
    else walk body limit rest seen
termination_by (seen.count false, todo.length)
decreasing_by
  · have unseen : seen[id.index] = false := Bool.eq_false_iff.2 hseen
    have positive : 0 < seen.count false := by
      refine Vector.count_pos_iff.2 ?_
      exact unseen ▸ Vector.getElem_mem h
    apply Prod.Lex.left
    rw [Vector.count_set, unseen, if_pos (by decide), if_neg (by decide)]
    omega
  · exact Prod.Lex.right _ (Nat.lt_succ_self _)

/-- Accept the body, or tell the first mistake that a walk from the root, parents before
children and children from left to right, comes upon. -/
def validate (body : Body) (limit : Nat) : Except Malformed Unit :=
  if body.contains body.root then body.walk limit [(body.root, 0)] (Vector.replicate _ false)
  else .error (.missingRoot body.root body.size)

end Body

end FrameEscape
