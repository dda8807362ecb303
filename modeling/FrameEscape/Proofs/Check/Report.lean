import FrameEscape.Proofs.Check.Run
import Mathlib.Data.List.Nodup

/-!
# What a report says of a node

A report of an accepted body visits each node that the root reaches, once. So it assigns a
verdict to each of them, and the verdicts solve the equations of the checker: the verdict of a
node is `Context.resolve` of the values that the report has for its children
(`Report.exists_behind`). A problem is found at a node if and only if the verdict of the node
has it (`Report.exists_finding_iff`).
-/

namespace FrameEscape

namespace Report

/-- What a node was evaluated to, if it was. -/
def value? (report : Report) (id : NodeId) : Option Resolved :=
  (report.verdict? id).map (·.value)

variable {ctx : Context} {body : Body} {report : Report} {id : NodeId} {verdict : Verdict}
  {w : Visit}

theorem exists_visit_of_verdict? (h : report.verdict? id = some verdict) :
    ∃ w ∈ report.visits, w.node = id ∧ w.verdict = verdict := by
  obtain ⟨w, hfind, hverdict⟩ := Option.map_eq_some_iff.1 h
  exact ⟨w, List.mem_of_find?_eq_some hfind, by simpa using List.find?_some hfind, hverdict⟩

/-- What a computation from the report of a body yields is read off that report. -/
theorem eq_of_map_check (hcheck : body.check ctx = .ok report) {α : Type} {f : Report → α} {a : α}
    (h : (body.check ctx).map f = .ok a) : f report = a := by
  rw [hcheck] at h
  exact Except.ok.inj h

/-- A report is headed by the name of its body. -/
theorem body_eq (hcheck : body.check ctx = .ok report) : report.body = body.name := by
  unfold Body.check at hcheck
  split at hcheck
  · cases hcheck
  · cases hcheck
    rfl

/-- Nothing is visited twice. -/
theorem nodup_visits (hcheck : body.check ctx = .ok report) :
    (report.visits.map (·.node)).Nodup := by
  obtain ⟨htree, value, scope, hrun⟩ := Context.run_of_check hcheck
  have hsingle : ∀ e ∈ [(([] : List Nat), body.root)], body.Single e.2 := by
    intro e he
    cases List.mem_singleton.1 he
    exact htree.unique
  exact List.pairwise_map.2 (hrun.nodup hsingle (List.pairwise_singleton _ _))

/-- A node has the verdict of any visit to it. -/
theorem verdict?_of_mem (hcheck : body.check ctx = .ok report) (hw : w ∈ report.visits) :
    report.verdict? w.node = some w.verdict := by
  unfold verdict?
  cases hfind : report.visits.find? (·.node == w.node) with
  | none => exact absurd (List.find?_eq_none.1 hfind w hw) (by simp)
  | some w' =>
    have heq : w'.node = w.node := by simpa using List.find?_some hfind
    rw [List.inj_on_of_nodup_map (nodup_visits hcheck) (List.mem_of_find?_eq_some hfind) hw heq]
    rfl

/-- The report has a verdict for the nodes that the root reaches, and for no others. -/
theorem exists_verdict?_iff (hcheck : body.check ctx = .ok report) :
    (∃ verdict, report.verdict? id = some verdict) ↔ body.Reaches id := by
  obtain ⟨-, value, scope, hrun⟩ := Context.run_of_check hcheck
  constructor
  · rintro ⟨verdict, hverdict⟩
    obtain ⟨w, hw, hid, -⟩ := exists_visit_of_verdict? hverdict
    obtain ⟨e, he, steps, hsteps, -⟩ := hrun.exists_visit_iff.1 ⟨w, hw, hid, rfl⟩
    cases List.mem_singleton.1 he
    exact ⟨steps, hsteps⟩
  · rintro ⟨steps, hsteps⟩
    obtain ⟨w, hw, hid, -⟩ :=
      hrun.exists_visit_iff.2 ⟨_, List.mem_singleton_self _, steps, hsteps, rfl⟩
    exact ⟨w.verdict, hid ▸ verdict?_of_mem hcheck hw⟩

/-- The nodes visited are those that the root reaches. -/
theorem mem_visits_iff (hcheck : body.check ctx = .ok report) :
    id ∈ report.visits.map (·.node) ↔ body.Reaches id := by
  rw [← exists_verdict?_iff hcheck, List.mem_map]
  constructor
  · rintro ⟨w, hw, rfl⟩
    exact ⟨w.verdict, verdict?_of_mem hcheck hw⟩
  · rintro ⟨verdict, hverdict⟩
    obtain ⟨w, hw, hid, -⟩ := exists_visit_of_verdict? hverdict
    exact ⟨w, hw, hid⟩

/-- The verdict of a node comes from the values of its children, which are those of the
report. -/
theorem exists_behind (hcheck : body.check ctx = .ok report) (hw : w ∈ report.visits) :
    ∃ steps node before inside inputs,
      ctx.Behind body (fun child value => report.value? child = some value) w steps node before
        inside inputs := by
  obtain ⟨-, value, scope, hrun⟩ := Context.run_of_check hcheck
  -- The only node listed is the root, and the run comes to it first.
  obtain ⟨_, _, _, _, _, hbehind⟩ := hrun.exists_behind (fun k e values scope visits he hpart => by
    cases k with
    | zero =>
      cases he
      cases hpart
      exact .root
    | succ k => exact absurd he (by simp)) hw
  refine ⟨_, _, _, _, _, hbehind.imp fun child value hvalue => ?_⟩
  obtain ⟨v, hv, rfl, rfl⟩ := hvalue
  rw [value?, verdict?_of_mem hcheck hv]
  rfl

/-- The verdict of a node that the root reaches, from the values of its children and the names
in scope. -/
theorem exists_resolve (hcheck : body.check ctx = .ok report) {steps : List Nat} {node : Node}
    {expr : Expr NodeId} (hsteps : body.follow? body.root steps = some id)
    (hnode : body.node? id = some node) (hexpr : node.expr = expr) :
    ∃ before inside inputs, ctx.Comes body steps id before ∧
      expr.Rel (fun child value => report.value? child = some value) inputs ∧
      (∃ visits, ctx.Run body (siblings steps 0 expr.children) before inputs.children inside
        visits) ∧
      report.verdict? id = some (ctx.resolve inside inputs) := by
  obtain ⟨verdict, hverdict⟩ := (exists_verdict?_iff hcheck).2 ⟨steps, hsteps⟩
  obtain ⟨w, hw, rfl, rfl⟩ := exists_visit_of_verdict? hverdict
  obtain ⟨steps', node', before, inside, inputs, hbehind⟩ := exists_behind hcheck hw
  have hunique : steps' = steps :=
    (Context.run_of_check hcheck).1.unique _ _ _ hbehind.comes.follow? hsteps
  subst hunique
  cases hnode.symm.trans hbehind.node_eq
  subst hexpr
  exact ⟨before, inside, inputs, hbehind.comes, hbehind.rel, hbehind.kids,
    hbehind.verdict_eq ▸ hverdict⟩

/-- The value of a node that the root reaches, from the values of its children. -/
theorem exists_inputs (hcheck : body.check ctx = .ok report) (hid : body.Reaches id) {node : Node}
    {expr : Expr NodeId} (hnode : body.node? id = some node) (hexpr : node.expr = expr) :
    ∃ inside inputs, expr.Rel (fun child value => report.value? child = some value) inputs ∧
      report.value? id = some (ctx.resolve inside inputs).value := by
  obtain ⟨steps, hsteps⟩ := hid
  obtain ⟨_, inside, inputs, -, hrel, -, hverdict⟩ := exists_resolve hcheck hsteps hnode hexpr
  exact ⟨inside, inputs, hrel, by rw [value?, hverdict]; rfl⟩

/-- A finding is the problem of a visit, with the place of the visit. -/
theorem mem_findings_iff {finding : Finding} :
    finding ∈ report.findings ↔ ∃ w ∈ report.visits, w.node = finding.node ∧
      w.path = finding.path ∧ w.span = finding.span ∧
      w.verdict.problem? = some finding.problem := by
  rw [findings, List.mem_filterMap]
  constructor
  · rintro ⟨w, hw, hfinding⟩
    obtain ⟨problem, hproblem, rfl⟩ := Option.map_eq_some_iff.1 hfinding
    exact ⟨w, hw, rfl, rfl, rfl, hproblem⟩
  · rintro ⟨w, hw, hnode, hpath, hspan, hproblem⟩
    refine ⟨w, hw, ?_⟩
    rw [Visit.finding?, hproblem, hnode, hpath, hspan]
    rfl

/-- A node with a problem in its verdict is a node with a finding. -/
theorem exists_finding_iff (hcheck : body.check ctx = .ok report) {P : Problem → Prop} :
    (∃ finding ∈ report.findings, finding.node = id ∧ P finding.problem) ↔
      ∃ verdict problem, report.verdict? id = some verdict ∧ verdict.problem? = some problem ∧
        P problem := by
  constructor
  · rintro ⟨finding, hfinding, rfl, hP⟩
    obtain ⟨w, hw, hnode, -, -, hproblem⟩ := mem_findings_iff.1 hfinding
    exact ⟨w.verdict, finding.problem, hnode ▸ verdict?_of_mem hcheck hw, hproblem, hP⟩
  · rintro ⟨verdict, problem, hverdict, hproblem, hP⟩
    obtain ⟨w, hw, rfl, rfl⟩ := exists_visit_of_verdict? hverdict
    exact ⟨⟨problem, w.node, w.path, w.span⟩,
      mem_findings_iff.2 ⟨w, hw, rfl, rfl, rfl, hproblem⟩, rfl, hP⟩

/-- The nodes of the findings are some of those of the visits, in the same order. -/
theorem map_findings_sublist (visits : List Visit) :
    ((visits.filterMap Visit.finding?).map (·.node)).Sublist (visits.map (·.node)) := by
  induction visits with
  | nil => exact .slnil
  | cons w rest ih =>
    cases hproblem : w.verdict.problem? with
    | none =>
      have hfinding : w.finding? = none := by rw [Visit.finding?, hproblem]; rfl
      rw [List.filterMap_cons_none hfinding]
      exact ih.cons _
    | some problem =>
      have hfinding : w.finding? = some ⟨problem, w.node, w.path, w.span⟩ := by
        rw [Visit.finding?, hproblem]; rfl
      rw [List.filterMap_cons_some hfinding]
      exact ih.cons_cons _

/-- No node has two findings. -/
theorem count_findings_le_one (hcheck : body.check ctx = .ok report) (id : NodeId) :
    (report.findings.map (·.node)).count id ≤ 1 :=
  List.nodup_iff_count_le_one.1
    ((nodup_visits hcheck).sublist (map_findings_sublist report.visits)) id

end Report

end FrameEscape
