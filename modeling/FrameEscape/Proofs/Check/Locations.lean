import FrameEscape.Proofs.Check.Report
import Mathlib

/-!
# Where a finding is

A finding carries a path of words, and the checker counts children by numbers. A position that is
not less than 2³² would be cut off, and the path would lead somewhere else. There is no such
position: the children of a node in a tree are distinct, and there are no more than 2³² ids
(`Body.Single.nodup_children`, `NodeId.length_le_of_nodup`). So each path leads to the node of its
finding (`findings_located`).
-/

namespace FrameEscape

/-! ## Words and positions -/

namespace NodeId

/-- There are no more ids than words. -/
theorem length_le_of_nodup {ids : List NodeId} (h : ids.Nodup) : ids.length ≤ UInt32.size := by
  have hnodup : (ids.map index).Nodup := h.map index_injective
  have hsub : ids.map index ⊆ List.range UInt32.size := by
    intro i hi
    obtain ⟨id, -, rfl⟩ := List.mem_map.1 hi
    exact List.mem_range.2 id.value.toNat_lt_size
  have hle := hnodup.length_le_of_subset hsub
  rwa [List.length_map, List.length_range] at hle

end NodeId

namespace Path

/-- The steps of a path as numbers. -/
def positions (path : Path) : List Nat := path.steps.map UInt32.toNat

theorem length_positions (path : Path) : path.positions.length = path.steps.length :=
  List.length_map _

/-- Positions that fit into words are the positions of their path. -/
theorem positions_ofSteps {steps : List Nat} (h : ∀ step ∈ steps, step < UInt32.size) :
    (ofSteps steps).positions = steps := by
  rw [ofSteps, positions, List.map_map]
  refine (List.map_congr_left fun step hstep => ?_).trans (List.map_id steps)
  exact UInt32.toNat_ofNat_of_lt' (h step hstep)

end Path

/-! ## Positions in a tree -/

namespace Body

variable {body : Body} {id child : NodeId} {node : Node}

theorem Single.nodup_children (h : body.Single id) (hnode : body.node? id = some node) :
    node.expr.children.Nodup := by
  refine (h.pairwise_children hnode).imp fun {first second} hapart => ?_
  rintro rfl
  exact hapart [] [] first rfl rfl

theorem Single.position_lt (h : body.Single id) (hnode : body.node? id = some node)
    {position : Nat} (hchild : node.expr.children[position]? = some child) :
    position < UInt32.size := by
  obtain ⟨hlt, -⟩ := List.getElem?_eq_some_iff.1 hchild
  exact Nat.lt_of_lt_of_le hlt (NodeId.length_le_of_nodup (h.nodup_children hnode))

/-- No step on a path is cut off. Induction on the path, as what is below a single node is
single. -/
theorem Single.step_lt {steps : List Nat} {target : NodeId} (h : body.Single id)
    (hsteps : body.follow? id steps = some target) : ∀ step ∈ steps, step < UInt32.size := by
  induction steps generalizing id with
  | nil => simp
  | cons first rest ih =>
    obtain ⟨node, child, hnode, hchild, hrest⟩ := follow?_cons_iff.1 hsteps
    have hbelow : body.Single child := h.child hnode (List.mem_of_getElem? hchild)
    intro step hstep
    rcases List.mem_cons.1 hstep with rfl | hstep
    · exact h.position_lt hnode hchild
    · exact ih hbelow hrest step hstep

theorem IsTree.single_of_reaches {limit : Nat} (h : body.IsTree limit) (hid : body.Reaches id) :
    body.Single id := by
  obtain ⟨front, hfront⟩ := hid
  intro steps steps' target hsteps hsteps'
  have heq : front ++ steps = front ++ steps' :=
    h.unique _ _ target (follow?_trans hfront hsteps) (follow?_trans hfront hsteps')
  exact List.append_cancel_left heq

end Body

/-! ## Reports -/

namespace Report

variable {ctx : Context} {body : Body} {report : Report}

/-- The path of a visit leads to its node, and its span is that of the node. -/
theorem visit_located (hcheck : body.check ctx = .ok report) {w : Visit}
    (hw : w ∈ report.visits) :
    body.follow? body.root w.path.positions = some w.node ∧
      (body.node? w.node).map (·.span) = some w.span := by
  obtain ⟨htree, -⟩ := Context.run_of_check hcheck
  obtain ⟨steps, node, before, inside, inputs, hbehind⟩ := exists_behind hcheck hw
  have hsteps : body.follow? body.root steps = some w.node := hbehind.comes.follow?
  have hlt : ∀ step ∈ steps, step < UInt32.size := Body.Single.step_lt htree.unique hsteps
  rw [hbehind.path_eq, Path.positions_ofSteps hlt, hbehind.node_eq, hbehind.span_eq]
  exact ⟨hsteps, rfl⟩

end Report

/-! ## The headline -/

/-- **A finding is where it says.** From the root, its path leads to its node, and no other list
of child positions does; its span is that of the node; and the path is no longer than the limit on
the depth. No child position of an accepted body is cut off when it becomes a word. -/
theorem findings_located {ctx : Context} {body : Body} {report : Report}
    (hcheck : body.check ctx = .ok report) :
    (∀ finding ∈ report.findings,
      body.follow? body.root finding.path.positions = some finding.node ∧
      (∀ steps, body.follow? body.root steps = some finding.node →
        steps = finding.path.positions) ∧
      (body.node? finding.node).map (·.span) = some finding.span ∧
      finding.path.steps.length ≤ ctx.config.maxDepth) ∧
    ∀ id node position child, body.Reaches id → body.node? id = some node →
      node.expr.children[position]? = some child → (UInt32.ofNat position).toNat = position := by
  obtain ⟨htree, -⟩ := Context.run_of_check hcheck
  refine ⟨fun finding hfinding => ?_, ?_⟩
  · obtain ⟨w, hw, hnode, hpath, hspan, -⟩ := Report.mem_findings_iff.1 hfinding
    obtain ⟨hsteps, hnodespan⟩ := Report.visit_located hcheck hw
    rw [← hnode, ← hpath, ← hspan, ← Path.length_positions]
    refine ⟨hsteps, fun steps hsteps' => ?_, hnodespan, htree.shallow _ _ hsteps⟩
    exact htree.unique _ _ _ hsteps' hsteps
  · intro id node position child hid hnode hchild
    exact UInt32.toNat_ofNat_of_lt' ((htree.single_of_reaches hid).position_lt hnode hchild)

/-- `{ 1; return x }`, each node with a span of its own. -/
def unboundBody : Body where
  name := "unbound"
  nodes := #[⟨.literal, ⟨2, 3⟩⟩, ⟨.var "x", ⟨12, 13⟩⟩, ⟨.ret ⟨1⟩ .value, ⟨5, 13⟩⟩,
    ⟨.block [⟨0⟩, ⟨2⟩], ⟨0, 15⟩⟩]
  root := ⟨3⟩

/-- No names and no shapes, and at most two levels below the root. -/
def unboundContext : Context where
  bindings := .ofList []
  shapes := .ofList []
  config := { maxDepth := 2 }

/-- The variable means nothing, and it is the first child of the second statement. -/
theorem findings_located_at_unbound :
    ∃ report, unboundBody.check unboundContext = .ok report ∧
      ∃ finding ∈ report.findings, finding.node = ⟨1⟩ ∧ finding.path.positions = [1, 0] ∧
        finding.span = ⟨12, 13⟩ := by
  have hvalid : unboundBody.validate unboundContext.config.maxDepth = .ok () := by cbv
  obtain ⟨report, _, _, hcheck, -⟩ := Context.exists_check (Body.isTree_of_validate hvalid)
  have hnodes : (unboundBody.check unboundContext).map (·.findings.map (·.node)) =
      .ok [⟨1⟩] := by cbv
  have hmem : ⟨1⟩ ∈ report.findings.map (·.node) := by
    rw [Report.eq_of_map_check hcheck hnodes]
    exact List.mem_singleton_self _
  obtain ⟨finding, hfinding, hnode⟩ := List.mem_map.1 hmem
  obtain ⟨-, hunique, hspan, -⟩ := (findings_located hcheck).1 finding hfinding
  rw [hnode] at hunique hspan
  exact ⟨report, hcheck, finding, hfinding, hnode, (hunique [1, 0] rfl).symm,
    (Option.some.inj hspan).symm⟩

end FrameEscape
