import FrameEscape.Body
import Mathlib.Data.List.Basic

/-!
# Paths in a body

`Body.follow?` traces a list of child positions from a node, with no regard to whether the
nodes make up a tree. Sharing is said in terms of it.

* **`Body.Single`**: no two paths from a node meet. Its children are then single, and apart
  from each other and from the node (`Single.child`, `Single.pairwise_children`,
  `Single.not_below`); `single_of_children` is the converse.
* **`Body.Apart`**: no path from one node meets a path from the other.
-/

namespace FrameEscape

namespace Body

variable {body : Body}

/-! ## Paths -/

/-- The node that a list of child positions leads to. The last one may be missing from the
body, those on the way may not. -/
def follow? (body : Body) : NodeId → List Nat → Option NodeId
  | id, [] => some id
  | id, step :: steps =>
    (body.node? id).bind fun node =>
      (node.expr.children[step]?).bind fun child => body.follow? child steps

@[simp] theorem follow?_nil (id : NodeId) : body.follow? id [] = some id := rfl

theorem follow?_cons_iff {id target : NodeId} {step : Nat} {steps : List Nat} :
    body.follow? id (step :: steps) = some target ↔
      ∃ node child, body.node? id = some node ∧ node.expr.children[step]? = some child ∧
        body.follow? child steps = some target := by
  simp [follow?, Option.bind_eq_some_iff]

theorem follow?_append {id : NodeId} {first second : List Nat} :
    body.follow? id (first ++ second) =
      (body.follow? id first).bind (body.follow? · second) := by
  induction first generalizing id with
  | nil => rfl
  | cons step steps ih =>
    simp only [List.cons_append, follow?, Option.bind_assoc]
    simp only [ih]

/-- A path and one from where it leads make up a path. -/
theorem follow?_trans {id mid target : NodeId} {first second : List Nat}
    (hfirst : body.follow? id first = some mid) (hsecond : body.follow? mid second = some target) :
    body.follow? id (first ++ second) = some target := by
  rw [follow?_append, hfirst]
  exact hsecond

/-- A node of a list of children, one step further from the root. -/
theorem follow?_child {id mid : NodeId} {node : Node} {child : NodeId} {steps : List Nat}
    {step : Nat} (hmid : body.follow? id steps = some mid) (hnode : body.node? mid = some node)
    (hchild : node.expr.children[step]? = some child) :
    body.follow? id (steps ++ [step]) = some child :=
  follow?_trans hmid (follow?_cons_iff.2 ⟨node, child, hnode, hchild, rfl⟩)

/-- Some path from the root leads to the node. -/
def Reaches (body : Body) (id : NodeId) : Prop :=
  ∃ steps, body.follow? body.root steps = some id

theorem Reaches.child {id child : NodeId} {node : Node} (h : body.Reaches id)
    (hnode : body.node? id = some node) (hchild : child ∈ node.expr.children) :
    body.Reaches child := by
  obtain ⟨steps, hsteps⟩ := h
  obtain ⟨step, hstep⟩ := List.mem_iff_getElem?.1 hchild
  exact ⟨steps ++ [step], follow?_child hsteps hnode hstep⟩

/-! ## Sharing -/

/-- No two paths from the node lead to the same place. -/
def Single (body : Body) (id : NodeId) : Prop :=
  ∀ steps steps' target, body.follow? id steps = some target →
    body.follow? id steps' = some target → steps = steps'

/-- No path from one node leads to where a path from the other leads. -/
def Apart (body : Body) (id id' : NodeId) : Prop :=
  ∀ steps steps' target, body.follow? id steps = some target →
    body.follow? id' steps' ≠ some target

theorem Single.child {id child : NodeId} {node : Node} (h : body.Single id)
    (hnode : body.node? id = some node) (hchild : child ∈ node.expr.children) :
    body.Single child := by
  obtain ⟨step, hstep⟩ := List.mem_iff_getElem?.1 hchild
  intro steps steps' target hsteps hsteps'
  have heq : step :: steps = step :: steps' :=
    h _ _ target (follow?_cons_iff.2 ⟨node, child, hnode, hstep, hsteps⟩)
      (follow?_cons_iff.2 ⟨node, child, hnode, hstep, hsteps'⟩)
  exact (List.cons.inj heq).2

theorem Single.not_below {id child : NodeId} {node : Node} {steps : List Nat}
    (h : body.Single id) (hnode : body.node? id = some node)
    (hchild : child ∈ node.expr.children) : body.follow? child steps ≠ some id := by
  obtain ⟨step, hstep⟩ := List.mem_iff_getElem?.1 hchild
  intro hsteps
  have heq : step :: steps = [] :=
    h _ _ id (follow?_cons_iff.2 ⟨node, child, hnode, hstep, hsteps⟩) rfl
  exact absurd heq (List.cons_ne_nil _ _)

theorem Single.pairwise_children {id : NodeId} {node : Node} (h : body.Single id)
    (hnode : body.node? id = some node) : node.expr.children.Pairwise body.Apart := by
  rw [List.pairwise_iff_getElem]
  intro i j hi hj hij steps steps' target hsteps hsteps'
  have heq : i :: steps = j :: steps' :=
    h _ _ target
      (follow?_cons_iff.2 ⟨node, _, hnode, List.getElem?_eq_getElem hi, hsteps⟩)
      (follow?_cons_iff.2 ⟨node, _, hnode, List.getElem?_eq_getElem hj, hsteps'⟩)
  have hstep : i = j := (List.cons.inj heq).1
  omega

theorem Apart.child {id id' child : NodeId} {node : Node} (h : body.Apart id id')
    (hnode : body.node? id = some node) (hchild : child ∈ node.expr.children) :
    body.Apart child id' := by
  obtain ⟨step, hstep⟩ := List.mem_iff_getElem?.1 hchild
  intro steps steps' target hsteps
  exact h _ steps' target (follow?_cons_iff.2 ⟨node, child, hnode, hstep, hsteps⟩)

/-- A node below which nothing meets is single if nothing below it leads back to it. -/
theorem single_of_children {id : NodeId} {node : Node} (hnode : body.node? id = some node)
    (hsingle : ∀ child ∈ node.expr.children, body.Single child)
    (hapart : node.expr.children.Pairwise body.Apart)
    (hback : ∀ child ∈ node.expr.children, ∀ steps, body.follow? child steps ≠ some id) :
    body.Single id := by
  -- A path that is not empty goes through one of the children.
  have hcons : ∀ {step steps target}, body.follow? id (step :: steps) = some target →
      ∃ child, node.expr.children[step]? = some child ∧
        body.follow? child steps = some target := by
    intro step steps target h
    obtain ⟨node', child, hnode', hchild, hsteps⟩ := follow?_cons_iff.1 h
    cases hnode.symm.trans hnode'
    exact ⟨child, hchild, hsteps⟩
  intro steps steps' target hsteps hsteps'
  match steps, steps' with
  | [], [] => rfl
  | [], step :: rest =>
    obtain ⟨child, hchild, hrest⟩ := hcons hsteps'
    cases hsteps
    exact absurd hrest (hback child (List.mem_of_getElem? hchild) rest)
  | step :: rest, [] =>
    obtain ⟨child, hchild, hrest⟩ := hcons hsteps
    cases hsteps'
    exact absurd hrest (hback child (List.mem_of_getElem? hchild) rest)
  | step :: rest, step' :: rest' =>
    obtain ⟨child, hchild, hrest⟩ := hcons hsteps
    obtain ⟨child', hchild', hrest'⟩ := hcons hsteps'
    obtain ⟨hlt, heq⟩ := List.getElem?_eq_some_iff.1 hchild
    obtain ⟨hlt', heq'⟩ := List.getElem?_eq_some_iff.1 hchild'
    subst heq heq'
    rw [List.pairwise_iff_getElem] at hapart
    rcases Nat.lt_trichotomy step step' with h | h | h
    · exact absurd hrest' (hapart step step' hlt hlt' h rest rest' target hrest)
    · subst h
      rw [hsingle _ (List.getElem_mem hlt) rest rest' target hrest hrest']
    · exact absurd hrest (hapart step' step hlt' hlt h rest' rest target hrest')

end Body

end FrameEscape
