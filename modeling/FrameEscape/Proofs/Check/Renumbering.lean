import FrameEscape.Proofs.Check.Correspondence
import Mathlib

/-!
# The numbering of nodes

A body numbers its nodes as it likes, and may hold others that its root does not reach. A
`Renumbering` maps what the root of one body reaches to what the root of another reaches, and keeps
kinds, data, spans and the order of children.

* **`Renumbering.follow?_eq`**: the map commutes with a step down, and so with every path.
* **`Body.IsTree.of_same`**: what is the same as a tree is a tree, if nothing in it is shared.
* **`Renumbering.isTree_iff`**: so the bodies are trees, or neither is.
* **`report_renumbered`**: the bodies have the same report, but for the numbers.
-/

namespace FrameEscape

/-- The map takes the nodes that the root of the first body reaches to those of the second one, of
the same kind, with the same data and span, and with children that correspond. No two nodes go to
one. Where the first body lacks a node, so does the second. -/
structure Renumbering (body body' : Body) (f : NodeId → NodeId) : Prop where
  root_eq : f body.root = body'.root
  injective : Set.InjOn f {id | body.Reaches id ∧ body.contains id = true}
  node : ∀ id, body.Reaches id →
    Option.Rel (fun node node' => node.expr.Rel (fun child child' => f child = child') node'.expr ∧
      node.span = node'.span) (body.node? id) (body'.node? (f id))

/-- The finding, under another number. -/
def Finding.renumbered (finding : Finding) (f : NodeId → NodeId) : Finding :=
  { finding with node := f finding.node }

theorem Expr.Rel.children_eq_map {α β : Type} {f : α → β} {expr : Expr α} {expr' : Expr β}
    (h : expr.Rel (fun a b => f a = b) expr') : expr'.children = expr.children.map f := by
  rw [map_eq_of_rel h.children fun hab => hab, List.map_id']

namespace Renumbering

variable {body body' : Body} {f : NodeId → NodeId} {id : NodeId} {limit : Nat}

/-- A path from the image of a node leads to the image of where it leads from the node. Induction
on the path. -/
theorem follow?_eq (h : Renumbering body body' f) (hid : body.Reaches id) (steps : List Nat) :
    body'.follow? (f id) steps = (body.follow? id steps).map f := by
  induction steps generalizing id with
  | nil => rfl
  | cons step steps ih =>
    simp only [Body.follow?]
    cases hnode : body.node? id with
    | none =>
      have hmissing : body'.node? (f id) = none := by
        rw [← Option.not_isSome_iff_eq_none, ← isSome_eq_of_rel (h.node id hid), hnode]
        exact Bool.false_ne_true
      rw [hmissing]
      rfl
    | some node =>
      obtain ⟨node', hnode', hrel, -⟩ := exists_some_of_rel (h.node id hid) hnode
      rw [hnode', Option.bind_some, Option.bind_some, hrel.children_eq_map, List.getElem?_map]
      cases hchild : node.expr.children[step]? with
      | none => rfl
      | some child => exact ih (hid.child hnode (List.mem_of_getElem? hchild))

theorem follow?_root (h : Renumbering body body' f) (steps : List Nat) :
    body'.follow? body'.root steps = (body.follow? body.root steps).map f :=
  h.root_eq ▸ h.follow?_eq ⟨[], rfl⟩ steps

/-- The map takes what a path leads to in one body to what it leads to in the other. -/
theorem image_eq (h : Renumbering body body' f) {steps : List Nat} {id' : NodeId}
    (hid : body.follow? body.root steps = some id)
    (hid' : body'.follow? body'.root steps = some id') : f id = id' := by
  rw [h.follow?_root, hid] at hid'
  exact Option.some.inj hid'

/-- The bodies are one tree. -/
theorem sameBut (h : Renumbering body body' f) :
    body.whole.SameBut (fun _ => False) body'.whole := by
  intro steps id id' _ hid hid'
  cases h.image_eq hid hid'
  exact rel_option_imp (h.node id ⟨steps, hid⟩) fun hnode => hnode.1.alike

theorem sameSpans (h : Renumbering body body' f) :
    body.whole.SameSpans (fun _ => False) body'.whole := by
  intro steps id id' _ hid hid'
  cases h.image_eq hid hid'
  exact optionMap_eq_of_rel (h.node id ⟨steps, hid⟩) fun hnode => hnode.2

end Renumbering

/-! ## Trees -/

theorem Expr.Alike.denotes {α β : Type} {expr : Expr α} {expr' : Expr β} (h : expr.Alike expr')
    (hdenotes : expr.Denotes) : expr'.Denotes := by
  cases hdenotes <;> cases h <;> constructor

/-- A body that is the same as a tree is a tree, if no two paths in it meet. -/
theorem Body.IsTree.of_same {body body' : Body} {limit : Nat} (htree : body.IsTree limit)
    (hsame : body'.whole.SameBut (fun _ => False) body.whole)
    (hunique : ∀ steps steps' id, body'.follow? body'.root steps = some id →
      body'.follow? body'.root steps' = some id → steps = steps') : body'.IsTree limit := by
  -- Each path of the body is one of the tree as well, and leads to a like node there.
  have houtside : ∀ steps, Subtree.Outside (fun _ => False) steps := fun _ _ _ => not_false
  have hpath : ∀ {steps id'}, body'.follow? body'.root steps = some id' →
      ∃ id, body.follow? body.root steps = some id ∧
        Option.Rel Node.Alike (body'.node? id') (body.node? id) := by
    intro steps id' hid'
    obtain ⟨id, hid⟩ := hsame.exists_follow? (houtside steps) hid'
    exact ⟨id, hid, hsame steps id' id (houtside steps) hid' hid⟩
  have hmem : ∀ {steps id'}, body'.follow? body'.root steps = some id' →
      body'.contains id' = true := by
    intro steps id' hid'
    obtain ⟨id, hid, hnode⟩ := hpath hid'
    rw [contains_eq_isSome, isSome_eq_of_rel hnode, ← contains_eq_isSome]
    exact htree.contains_of_follow? hid
  constructor
  case root_mem =>
    have hroot : body'.follow? body'.root [] = some body'.root := rfl
    exact hmem hroot
  case children_mem =>
    rintro id' node' ⟨steps, hid'⟩ hnode' child' hchild'
    obtain ⟨i, hi⟩ := List.mem_iff_getElem?.1 hchild'
    exact hmem (follow?_child hid' hnode' hi)
  case unique => exact hunique
  case shallow =>
    intro steps id' hid'
    obtain ⟨id, hid, -⟩ := hpath hid'
    exact htree.shallow steps id hid
  case places =>
    rintro id' node' target' value' mode ⟨steps, hid'⟩ hnode' hassign
    obtain ⟨id, hid, hnode⟩ := hpath hid'
    obtain ⟨node, hnode, halike⟩ := exists_some_of_rel hnode hnode'
    have halike : (Expr.assign target' value' mode).Alike node.expr := hassign ▸ halike
    generalize hexpr : node.expr = expr at halike
    cases halike with
    | @assign _ target _ value =>
      obtain ⟨place, hplace, hdenotes⟩ := htree.places id node target value mode ⟨steps, hid⟩ hnode
        hexpr
      have hkid : body.follow? body.root (steps ++ [0]) = some target :=
        follow?_child hid hnode (by rw [hexpr]; rfl)
      have hkid' : body'.follow? body'.root (steps ++ [0]) = some target' :=
        follow?_child hid' hnode' (by rw [hassign]; rfl)
      obtain ⟨other, hother, htarget⟩ := hpath hkid'
      cases hkid.symm.trans hother
      obtain ⟨place', hplace', halike⟩ :=
        exists_some_of_rel (rel_option_flip htarget Expr.Alike.symm) hplace
      exact ⟨place', hplace', halike.denotes hdenotes⟩

namespace Renumbering

variable {body body' : Body} {f : NodeId → NodeId} {limit : Nat}

/-- The bodies are trees, or neither is. -/
theorem isTree_iff (h : Renumbering body body' f) : body.IsTree limit ↔ body'.IsTree limit := by
  constructor
  · intro htree
    refine htree.of_same h.sameBut.symm fun steps steps' id' hsteps hsteps' => ?_
    rw [h.follow?_root, Option.map_eq_some_iff] at hsteps hsteps'
    obtain ⟨id, hsteps, rfl⟩ := hsteps
    obtain ⟨other, hsteps', heq⟩ := hsteps'
    -- In a tree every path leads to a node, and the map does not take two nodes to one.
    have hid : other = id :=
      h.injective ⟨⟨_, hsteps'⟩, htree.contains_of_follow? hsteps'⟩
        ⟨⟨_, hsteps⟩, htree.contains_of_follow? hsteps⟩ heq
    exact htree.unique _ _ _ hsteps (hid ▸ hsteps')
  · intro htree
    refine htree.of_same h.sameBut fun steps steps' id hsteps hsteps' => ?_
    refine htree.unique steps steps' (f id) ?_ ?_
    · rw [h.follow?_root, hsteps, Option.map_some]
    · rw [h.follow?_root, hsteps', Option.map_some]

/-- A finding and its twin are one but for the number. -/
theorem renumbered_eq_of_twin (h : Renumbering body body' f) {finding finding' : Finding}
    (htwin : Finding.Twin body body' finding finding') : finding.renumbered f = finding' := by
  have hnode : f finding.node = finding'.node := h.image_eq htwin.node_at htwin.node_at_right
  obtain ⟨problem, node, path, span⟩ := finding'
  cases htwin.problem_eq
  cases htwin.path_eq
  cases htwin.span_eq
  cases hnode
  rfl

end Renumbering

/-! ## The headline -/

/-- A body has a report if and only if it is a tree. -/
theorem Context.exists_report_iff {ctx : Context} {body : Body} :
    (∃ report, body.check ctx = .ok report) ↔ body.IsTree ctx.config.maxDepth := by
  constructor
  · rintro ⟨report, hcheck⟩
    exact (run_of_check hcheck).1
  · intro htree
    obtain ⟨report, _, _, hcheck, -⟩ := exists_check htree
    exact ⟨report, hcheck⟩

/-- **A report depends on the tree, and not on how its nodes are numbered.** If a renumbering leads
from what the root of one body reaches to what the root of another reaches, then one is accepted if
and only if the other is. In that case the findings are the same, one by one in order, but for the
numbers of their nodes, and so are the levels of all nodes. -/
theorem report_renumbered {body body' : Body} {f : NodeId → NodeId} (h : Renumbering body body' f)
    (ctx : Context) :
    ((∃ report, body.check ctx = .ok report) ↔ ∃ report', body'.check ctx = .ok report') ∧
      ∀ report report', body.check ctx = .ok report → body'.check ctx = .ok report' →
        report'.findings = report.findings.map (·.renumbered f) ∧
        ∀ id, body.Reaches id → report'.level? (f id) = report.level? id := by
  refine ⟨?_, fun report report' hcheck hcheck' => ⟨?_, fun id hid => ?_⟩⟩
  · rw [Context.exists_report_iff, Context.exists_report_iff]
    exact h.isTree_iff
  · have htwins := Report.twin_findings (fun _ => true) h.sameBut.matched h.sameSpans
      (fun _ => iff_of_true rfl fun _ _ => not_false) hcheck hcheck'
    rw [List.filter_true, List.filter_true] at htwins
    rw [map_eq_of_rel htwins h.renumbered_eq_of_twin, List.map_id']
  · obtain ⟨steps, hsteps⟩ := hid
    have hsteps' : body'.follow? body'.root steps = some (f id) := by
      rw [h.follow?_root, hsteps, Option.map_some]
    have hverdict := Report.verdict?_eq_of_matched h.sameBut.matched hcheck hcheck'
      (fun _ _ => not_false) hsteps hsteps'
    rw [Report.level?, Report.level?, hverdict]

/-- `return x`, numbered from the leaf up. -/
def upwardBody : Body where
  name := "upward"
  nodes := #[⟨.var "x", ⟨7, 8⟩⟩, ⟨.ret ⟨0⟩ .value, ⟨0, 8⟩⟩]
  root := ⟨1⟩

/-- `return x`, numbered from the root down, beside a block that the root does not reach. The block
has itself and a missing node for statements. -/
def downwardBody : Body where
  name := "downward"
  nodes := #[⟨.ret ⟨2⟩ .value, ⟨0, 8⟩⟩, ⟨.block [⟨1⟩, ⟨9⟩], .zero⟩, ⟨.var "x", ⟨7, 8⟩⟩]
  root := ⟨0⟩

/-- The places in the second body of what the root of the first one reaches. -/
def downward (id : NodeId) : NodeId := if id = upwardBody.root then ⟨0⟩ else ⟨2⟩

/-- A variable that may not leave the frame. -/
def upwardContext : Context where
  bindings := NameTable.empty.insert "x" ⟨.stackOnly, false, none⟩
  shapes := .empty
  config := {}

/-- The return is reported in both bodies, under its number in each. -/
theorem report_renumbered_at_return :
    Renumbering upwardBody downwardBody downward ∧
    ∃ report report', upwardBody.check upwardContext = .ok report ∧
      downwardBody.check upwardContext = .ok report' ∧
      report.findings.map (·.node) = [⟨1⟩] ∧ report'.findings.map (·.node) = [⟨0⟩] ∧
      report'.level? ⟨2⟩ = some .stackOnly := by
  have hvalid : upwardBody.validate upwardContext.config.maxDepth = .ok () := by
    show upwardBody.validate 512 = .ok ()
    cbv
  obtain ⟨report, _, _, hcheck, -⟩ := Context.exists_check (Body.isTree_of_validate hvalid)
  have hvisits : (upwardBody.check upwardContext).map (·.visits.map (·.node)) =
      .ok [⟨0⟩, ⟨1⟩] := by cbv
  have hreaches : ∀ id, upwardBody.Reaches id → id = ⟨0⟩ ∨ id = ⟨1⟩ := by
    intro id hid
    rw [← Report.mem_visits_iff hcheck, Report.eq_of_map_check hcheck hvisits] at hid
    simpa using hid
  have hrenumbering : Renumbering upwardBody downwardBody downward := by
    refine ⟨rfl, ?_, ?_⟩
    · rintro id ⟨hid, -⟩ id' ⟨hid', -⟩ heq
      revert heq
      rcases hreaches id hid with rfl | rfl <;> rcases hreaches id' hid' with rfl | rfl <;> decide
    · intro id hid
      rcases hreaches id hid with rfl | rfl
      · exact .some ⟨.var "x", rfl⟩
      · have hreturn : (Expr.ret (⟨0⟩ : NodeId) .value).Rel
            (fun child child' => downward child = child') (.ret ⟨2⟩ .value) :=
          .ret (by decide) .value
        exact .some ⟨hreturn, rfl⟩
  obtain ⟨haccepted, hreports⟩ := report_renumbered hrenumbering upwardContext
  obtain ⟨report', hcheck'⟩ := haccepted.1 ⟨report, hcheck⟩
  obtain ⟨hfindings, hlevels⟩ := hreports report report' hcheck hcheck'
  have hnodes : (upwardBody.check upwardContext).map (·.findings.map (·.node)) =
      .ok [⟨1⟩] := by cbv
  have hnode : report.findings.map (·.node) = [⟨1⟩] := Report.eq_of_map_check hcheck hnodes
  have hlevel : (upwardBody.check upwardContext).map (·.level? ⟨0⟩) = .ok (some .stackOnly) := by
    cbv
  refine ⟨hrenumbering, report, report', hcheck, hcheck', hnode, ?_, ?_⟩
  · have hmap : report'.findings.map (·.node) = (report.findings.map (·.node)).map downward := by
      rw [hfindings, List.map_map, List.map_map]
      rfl
    rw [hmap, hnode]
    rfl
  · have hvariable : upwardBody.Reaches ⟨0⟩ := ⟨[0], rfl⟩
    exact (hlevels ⟨0⟩ hvariable).trans (Report.eq_of_map_check hcheck hlevel)

end FrameEscape
