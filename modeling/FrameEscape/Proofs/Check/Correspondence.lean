import FrameEscape.Proofs.Check.Locations
import FrameEscape.Proofs.Check.Lockstep
import FrameEscape.Proofs.Check.Scoping
import Mathlib

/-!
# One tree in two places

A tree may lie in a body as any of its nodes, and in two bodies at once. `Subtree.SameBut` says
that two subtrees are one tree, but for what lies at the ends of some paths, the cuts. It speaks of
paths from the two tops, so neither the ids of the nodes nor what else a body holds play a part.

Two runs over such subtrees from the same names go in step. The condition is that a cut cannot be
noticed from outside: what is cut is a statement whose value nobody takes, and exports no name.

* **`Context.resolve_eq_of_alike`**: the step. A node resolves in the same way on both sides.
* **`Context.Run.twins`**: the run. The same values, names and visits, but for what is cut.
* **`Report.twins`**: the reports of two bodies have the same visits outside the cuts.
-/

namespace FrameEscape

/-! ## Trees that are the same but for some cuts -/

/-- The nodes are of one kind, with the same data and number of children. -/
abbrev Node.Alike (node node' : Node) : Prop := node.expr.Alike node'.expr

/-- What lies below a node of a body, and the path that leads there from the root. -/
structure Subtree where
  body : Body
  path : List Nat
  top : NodeId

/-- All that the root of a body reaches. -/
def Body.whole (body : Body) : Subtree := ⟨body, [], body.root⟩

namespace Subtree

/-- The node at the end of a path from the top. -/
def follow? (tree : Subtree) (steps : List Nat) : Option NodeId :=
  tree.body.follow? tree.top steps

/-- No cut lies on the path. -/
def Outside (Cut : List Nat → Prop) (steps : List Nat) : Prop :=
  ∀ cut, cut <+: steps → ¬ Cut cut

/-- The nodes at the ends of a path that passes no cut are alike. -/
def SameBut (Cut : List Nat → Prop) (tree tree' : Subtree) : Prop :=
  ∀ steps id id', Outside Cut steps → tree.follow? steps = some id →
    tree'.follow? steps = some id' →
    Option.Rel Node.Alike (tree.body.node? id) (tree'.body.node? id')

/-- The nodes at the ends of a path that passes no cut come from one part of the source. -/
def SameSpans (Cut : List Nat → Prop) (tree tree' : Subtree) : Prop :=
  ∀ steps id id', Outside Cut steps → tree.follow? steps = some id →
    tree'.follow? steps = some id' →
    (tree.body.node? id).map (·.span) = (tree'.body.node? id').map (·.span)

/-- What is cut exports no name. -/
def Closed (Cut : List Nat → Prop) (tree : Subtree) : Prop :=
  ∀ steps id name, Cut steps → tree.follow? steps = some id → ¬ tree.body.Exports name id

/-- What is cut is a statement of a block, and not the last one. -/
def Inner (Cut : List Nat → Prop) (tree : Subtree) : Prop :=
  ∀ steps i id node, Cut (steps ++ [i]) → tree.follow? steps = some id →
    tree.body.node? id = some node → ∃ stmts, node.expr = .block stmts ∧ i + 1 < stmts.length

/-- The trees are the same but for the cuts, and what is cut cannot be noticed from outside. -/
structure Matched (Cut : List Nat → Prop) (tree tree' : Subtree) : Prop where
  same : tree.SameBut Cut tree'
  inner : tree.Inner Cut
  closed : tree.Closed Cut
  closed_right : tree'.Closed Cut

/-- Of the paths into the tree, those are kept that pass no cut. -/
def Keeps (Cut : List Nat → Prop) (tree : Subtree) (keep : Path → Bool) : Prop :=
  ∀ steps id, tree.follow? steps = some id →
    (keep (.ofSteps (tree.path ++ steps)) = true ↔ Outside Cut steps)

variable {Cut : List Nat → Prop} {tree tree' : Subtree}

@[simp] theorem outside_nil_iff : Outside Cut [] ↔ ¬ Cut [] := by
  simp [Outside]

theorem outside_concat_iff {steps : List Nat} {i : Nat} :
    Outside Cut (steps ++ [i]) ↔ Outside Cut steps ∧ ¬ Cut (steps ++ [i]) := by
  constructor
  · intro h
    exact ⟨fun cut hcut => h cut (hcut.trans (List.prefix_append _ _)), h _ List.prefix_rfl⟩
  · rintro ⟨houtside, hcut⟩ cut hprefix
    rcases List.prefix_concat_iff.1 hprefix with rfl | hprefix
    · exact hcut
    · exact houtside cut hprefix

theorem follow?_child {steps : List Nat} {id child : NodeId} {node : Node} {i : Nat}
    (hid : tree.follow? steps = some id) (hnode : tree.body.node? id = some node)
    (hchild : node.expr.children[i]? = some child) :
    tree.follow? (steps ++ [i]) = some child :=
  Body.follow?_child hid hnode hchild

theorem SameBut.symm (h : tree.SameBut Cut tree') : tree'.SameBut Cut tree :=
  fun steps _ _ houtside hid hid' => rel_option_flip (h steps _ _ houtside hid' hid) Expr.Alike.symm

/-- A path that passes no cut leads somewhere in both trees, or in neither. Induction on the path
from its end, as the cuts are paths from the top. -/
theorem SameBut.exists_follow? (h : tree.SameBut Cut tree') {steps : List Nat} {id : NodeId}
    (houtside : Outside Cut steps) (hid : tree.follow? steps = some id) :
    ∃ id', tree'.follow? steps = some id' := by
  induction steps using List.reverseRecOn generalizing id with
  | nil => exact ⟨_, rfl⟩
  | append_singleton steps i ih =>
    have hbefore : Outside Cut steps := (outside_concat_iff.1 houtside).1
    obtain ⟨mid, hmid, hstep⟩ := Option.bind_eq_some_iff.1 (Body.follow?_append.symm.trans hid)
    obtain ⟨node, child, hnode, hchild, -⟩ := Body.follow?_cons_iff.1 hstep
    obtain ⟨mid', hmid'⟩ := ih hbefore hmid
    obtain ⟨node', hnode', halike⟩ := exists_some_of_rel (h steps mid mid' hbefore hmid hmid') hnode
    obtain ⟨child', hchild', -⟩ := exists_some_of_rel (rel_getElem? halike.children i) hchild
    exact ⟨child', follow?_child hmid' hnode' hchild'⟩

/-- Trees that are the same throughout are matched. -/
theorem SameBut.matched (h : tree.SameBut (fun _ => False) tree') :
    Matched (fun _ => False) tree tree' :=
  ⟨h, fun _ _ _ _ hcut => hcut.elim, fun _ _ _ hcut => hcut.elim, fun _ _ _ hcut => hcut.elim⟩

theorem keeps_true : tree.Keeps (fun _ => False) fun _ => true :=
  fun _ _ _ => iff_of_true rfl fun _ _ => not_false

/-- The paths of an accepted body are kept by their positions, as no step is cut off. -/
theorem keeps_whole {body : Body} {limit : Nat} {keep : Path → Bool} (htree : body.IsTree limit)
    (hkeep : ∀ path : Path, keep path = true ↔ Outside Cut path.positions) :
    body.whole.Keeps Cut keep := by
  intro steps id hid
  have hpositions : (Path.ofSteps (body.whole.path ++ steps)).positions = steps :=
    Path.positions_ofSteps (Body.Single.step_lt htree.unique hid)
  rw [hkeep, hpositions]

end Subtree

/-! ## One node -/

namespace Context

variable {ctx : Context}

/-- The values of the children decide about a node, and those of the statements of a block that
are not the last one do not. -/
theorem resolve_eq_of_alike {inputs inputs' : Expr Resolved} {before inside : Scope}
    (halike : inputs.Alike inputs')
    (hvalues : ∀ i, inputs.children[i]? = inputs'.children[i]? ∨
      ∃ stmts, inputs = .block stmts ∧ i + 1 < stmts.length) :
    ctx.resolve inside inputs = ctx.resolve inside inputs' ∧
      inputs.scopeAfter before inside = inputs'.scopeAfter before inside := by
  by_cases hblock : ∃ stmts, inputs = .block stmts
  · obtain ⟨stmts, rfl⟩ := hblock
    cases halike with
    | @block _ stmts' hstmts =>
      have hlast : stmts.getLast? = stmts'.getLast? := by
        rw [List.getLast?_eq_getElem?, List.getLast?_eq_getElem?, ← hstmts.length_eq]
        rcases hvalues (stmts.length - 1) with h | ⟨_, heq, hlt⟩
        · exact h
        · cases heq
          omega
      exact ⟨by rw [resolve, resolve, hlast], rfl⟩
  · have hchildren : inputs.children = inputs'.children := by
      refine List.ext_getElem? fun i => ?_
      rcases hvalues i with h | ⟨stmts, heq, -⟩
      · exact h
      · exact absurd ⟨stmts, heq⟩ hblock
    cases halike.eq_of_children hchildren
    exact ⟨rfl, rfl⟩

end Context

/-! ## Two runs in step -/

/-- The visits are to the ends of one path, which passes no cut, and have the same verdict. -/
structure Visit.Twin (Cut : List Nat → Prop) (tree tree' : Subtree) (w w' : Visit) : Prop where
  exists_path : ∃ steps, Subtree.Outside Cut steps ∧
    tree.follow? steps = some w.node ∧ tree'.follow? steps = some w'.node ∧
    w.path = .ofSteps (tree.path ++ steps) ∧ w'.path = .ofSteps (tree'.path ++ steps)
  span : (tree.body.node? w.node).map (·.span) = some w.span
  span_right : (tree'.body.node? w'.node).map (·.span) = some w'.span
  verdict_eq : w.verdict = w'.verdict

/-- The entries lie at the end of one path, which passes no cut, but may lead to one. -/
def Opposite (Cut : List Nat → Prop) (tree tree' : Subtree) (e e' : List Nat × NodeId) : Prop :=
  ∃ steps, e.1 = tree.path ++ steps ∧ e'.1 = tree'.path ++ steps ∧
    tree.follow? steps = some e.2 ∧ tree'.follow? steps = some e'.2 ∧
    (Cut steps ∨ Subtree.Outside Cut steps)

/-- Each of the entries has one value on both sides, unless it is cut. -/
def ValuesAgree (Cut : List Nat → Prop) (tree : Subtree) (entries : List (List Nat × NodeId))
    (values values' : List Resolved) : Prop :=
  ∀ (k : Nat) steps id, entries[k]? = some (tree.path ++ steps, id) → ¬ Cut steps →
    values[k]? = values'[k]?

variable {Cut : List Nat → Prop} {tree tree' : Subtree}

theorem ValuesAgree.cons {steps : List Nat} {id : NodeId} {rest : List (List Nat × NodeId)}
    {value value' : Resolved} {values values' : List Resolved}
    (hvalue : ¬ Cut steps → value = value') (h : ValuesAgree Cut tree rest values values') :
    ValuesAgree Cut tree ((tree.path ++ steps, id) :: rest) (value :: values)
      (value' :: values') := by
  intro k steps' id' he hcut
  cases k with
  | zero =>
    have hsteps : steps = steps' := List.append_cancel_left (congrArg Prod.fst (Option.some.inj he))
    exact congrArg some (hvalue (hsteps ▸ hcut))
  | succ k => exact h k steps' id' he hcut

/-- The values of children agree, but for those that do not matter to their parent. -/
theorem ValuesAgree.children {steps : List Nat} {id : NodeId} {node : Node}
    {inputs inputs' : Expr Resolved} (hinner : tree.Inner Cut)
    (hid : tree.follow? steps = some id) (hnode : tree.body.node? id = some node)
    (halike : node.expr.Alike inputs) (hinputs : inputs.Alike inputs')
    (h : ValuesAgree Cut tree (siblings (tree.path ++ steps) 0 node.expr.children) inputs.children
      inputs'.children) (i : Nat) :
    inputs.children[i]? = inputs'.children[i]? ∨
      ∃ stmts, inputs = .block stmts ∧ i + 1 < stmts.length := by
  by_cases hcut : Cut (steps ++ [i])
  · obtain ⟨stmts, hexpr, hlt⟩ := hinner steps i id node hcut hid hnode
    rw [hexpr] at halike
    cases halike with
    | block hstmts => exact .inr ⟨_, rfl, hstmts.length_eq ▸ hlt⟩
  · refine .inl ?_
    cases hchild : node.expr.children[i]? with
    | some child =>
      refine h i (steps ++ [i]) child ?_ hcut
      rw [getElem?_siblings, hchild, Option.map_some, List.append_assoc]
    | none =>
      have hle : inputs.children.length ≤ i :=
        halike.children.length_eq ▸ List.getElem?_eq_none_iff.1 hchild
      have hle' : inputs'.children.length ≤ i := hinputs.children.length_eq ▸ hle
      rw [List.getElem?_eq_none hle, List.getElem?_eq_none hle']

/-- The children of nodes that are alike lie opposite each other. -/
theorem opposite_siblings {steps : List Nat} {id id' : NodeId} {node node' : Node}
    (houtside : Subtree.Outside Cut steps) (hid : tree.follow? steps = some id)
    (hid' : tree'.follow? steps = some id') (hnode : tree.body.node? id = some node)
    (hnode' : tree'.body.node? id' = some node') (halike : node.Alike node') :
    List.Forall₂ (Opposite Cut tree tree')
      (siblings (tree.path ++ steps) 0 node.expr.children)
      (siblings (tree'.path ++ steps) 0 node'.expr.children) := by
  have hlength := halike.children.length_eq
  refine List.forall₂_iff_get.2 ⟨by simpa [siblings] using hlength, fun i hi hi' => ?_⟩
  have he := List.getElem?_eq_getElem hi
  have he' := List.getElem?_eq_getElem hi'
  rw [getElem?_siblings, Option.map_eq_some_iff] at he he'
  obtain ⟨child, hchild, heq⟩ := he
  obtain ⟨child', hchild', heq'⟩ := he'
  rw [List.get_eq_getElem, List.get_eq_getElem, ← heq, ← heq']
  refine ⟨steps ++ [i], List.append_assoc _ _ _, List.append_assoc _ _ _,
    Subtree.follow?_child hid hnode hchild, Subtree.follow?_child hid' hnode' hchild', ?_⟩
  rw [Subtree.outside_concat_iff]
  by_cases hcut : Cut (steps ++ [i])
  · exact .inl hcut
  · exact .inr ⟨houtside, hcut⟩

namespace Context

variable {ctx : Context} {keep keep' : Path → Bool}

/-- The evaluation of what is cut leaves the scope as it is. -/
theorem Run.scope_eq_of_closed {steps : List Nat} {id : NodeId} {before after : Scope}
    {values : List Resolved} {visits : List Visit} (hclosed : tree.Closed Cut) (hcut : Cut steps)
    (hid : tree.follow? steps = some id)
    (h : ctx.Run tree.body [(tree.path ++ steps, id)] before values after visits) :
    after = before := by
  refine h.scope_eq fun e he name => ?_
  cases List.mem_singleton.1 he
  exact hclosed steps id name hcut hid

/-- The visits to what is cut are not kept. -/
theorem Run.filter_eq_nil_of_cut {steps : List Nat} {id : NodeId} {before after : Scope}
    {values : List Resolved} {visits : List Visit} (hkeep : tree.Keeps Cut keep) (hcut : Cut steps)
    (hid : tree.follow? steps = some id)
    (h : ctx.Run tree.body [(tree.path ++ steps, id)] before values after visits) :
    visits.filter (keep ·.path) = [] := by
  refine List.filter_eq_nil_iff.2 fun w hw hkept => ?_
  obtain ⟨e, he, more, hmore, hpath⟩ := h.exists_visit_iff.1 ⟨w, hw, rfl, rfl⟩
  cases List.mem_singleton.1 he
  have hbelow : tree.follow? (steps ++ more) = some w.node := Body.follow?_trans hid hmore
  rw [hpath, List.append_assoc, hkeep _ _ hbelow] at hkept
  exact hkept steps (List.prefix_append _ _) hcut

/-- Two runs over subtrees that are the same but for the cuts, from the same names, have the same
values, names and visits, but for those of what is cut. Induction on one run, in step with the
other. -/
theorem Run.twins (hmatched : Subtree.Matched Cut tree tree') (hkeep : tree.Keeps Cut keep)
    (hkeep' : tree'.Keeps Cut keep') {entries : List (List Nat × NodeId)} {before after : Scope}
    {values : List Resolved} {visits : List Visit}
    (hrun : ctx.Run tree.body entries before values after visits)
    {entries' : List (List Nat × NodeId)} {after' : Scope} {values' : List Resolved}
    {visits' : List Visit} (hrun' : ctx.Run tree'.body entries' before values' after' visits')
    (hentries : List.Forall₂ (Opposite Cut tree tree') entries entries') :
    ValuesAgree Cut tree entries values values' ∧ after = after' ∧
      List.Forall₂ (Visit.Twin Cut tree tree') (visits.filter (keep ·.path))
        (visits'.filter (keep' ·.path)) := by
  induction hrun generalizing entries' values' after' visits' with
  | nil =>
    cases hentries
    cases hrun'
    exact ⟨fun _ _ _ _ _ => rfl, rfl, .nil⟩
  | @cons steps id rest node inputs before inside values after kidVisits restVisits hnode halike
      hkids hrest ihkids ihrest =>
    cases hentries with
    | @cons _ e' _ rest' hentry hentries =>
    cases hrun' with
    | @cons steps' id' _ node' inputs' _ inside' values' _ kidVisits' restVisits' hnode' halike'
        hkids' hrest' =>
      obtain ⟨more, hsteps, hsteps', hid, hid', hplace⟩ := hentry
      simp only at hsteps hsteps' hid hid'
      subst hsteps hsteps'
      by_cases hcut : Cut more
      · -- Neither side leaves anything of what is cut.
        have hsingle := Run.single hnode halike hkids
        have hsingle' := Run.single hnode' halike' hkids'
        rw [hsingle.scope_eq_of_closed hmatched.closed hcut hid] at ihrest
        rw [hsingle'.scope_eq_of_closed hmatched.closed_right hcut hid'] at hrest'
        obtain ⟨hvalues, hafter, hvisits⟩ := ihrest hrest' hentries
        refine ⟨hvalues.cons (absurd hcut), hafter, ?_⟩
        rw [List.append_cons, List.filter_append (kidVisits ++ [_]),
          hsingle.filter_eq_nil_of_cut hkeep hcut hid, List.append_cons kidVisits',
          List.filter_append (kidVisits' ++ [_]), hsingle'.filter_eq_nil_of_cut hkeep' hcut hid']
        exact hvisits
      · -- The nodes are alike, and so are what their children come to and what they make of it.
        have houtside : Subtree.Outside Cut more := hplace.resolve_left hcut
        have hnodes := hmatched.same more id id' houtside hid hid'
        rw [hnode, hnode'] at hnodes
        cases hnodes with
        | some hnodes =>
        obtain ⟨hvalues, rfl, hvisits⟩ :=
          ihkids hkids' (opposite_siblings houtside hid hid' hnode hnode' hnodes)
        have hinputs : inputs.Alike inputs' := halike.symm.trans (hnodes.trans halike')
        obtain ⟨hresolve, hscope⟩ := ctx.resolve_eq_of_alike hinputs
          (hvalues.children hmatched.inner hid hnode halike hinputs)
        rw [← hscope] at hrest'
        obtain ⟨hrestvalues, hafter, hrestvisits⟩ := ihrest hrest' hentries
        have htwin : Visit.Twin Cut tree tree'
            ⟨id, .ofSteps (tree.path ++ more), node.span, ctx.resolve inside inputs⟩
            ⟨id', .ofSteps (tree'.path ++ more), node'.span, ctx.resolve inside inputs'⟩ :=
          ⟨⟨more, houtside, hid, hid', rfl, rfl⟩, congrArg _ hnode, congrArg _ hnode', hresolve⟩
        have hkept := (hkeep more id hid).2 houtside
        have hkept' := (hkeep' more id' hid').2 houtside
        refine ⟨hrestvalues.cons fun _ => congrArg Verdict.value hresolve, hafter, ?_⟩
        rw [List.filter_append, List.filter_append,
          List.filter_cons_of_pos (p := fun w : Visit => keep w.path) hkept,
          List.filter_cons_of_pos (p := fun w : Visit => keep' w.path) hkept']
        exact List.rel_append hvisits (.cons htwin hrestvisits)

end Context

/-! ## Two reports -/

/-- The findings are of one problem, at nodes to which one path leads. -/
structure Finding.Twin (body body' : Body) (finding finding' : Finding) : Prop where
  problem_eq : finding.problem = finding'.problem
  path_eq : finding.path = finding'.path
  span_eq : finding.span = finding'.span
  node_at : body.follow? body.root finding.path.positions = some finding.node
  node_at_right : body'.follow? body'.root finding.path.positions = some finding'.node

/-- Twin visits have twin findings. -/
theorem Visit.Twin.finding? {body body' : Body} {limit : Nat} (htree : body.IsTree limit)
    (hspans : body.whole.SameSpans Cut body'.whole) {w w' : Visit}
    (h : Visit.Twin Cut body.whole body'.whole w w') :
    Option.Rel (Finding.Twin body body') w.finding? w'.finding? := by
  obtain ⟨steps, houtside, hnode, hnode', hpath, hpath'⟩ := h.exists_path
  have hspan : some w.span = some w'.span :=
    h.span.symm.trans ((hspans steps _ _ houtside hnode hnode').trans h.span_right)
  have hpositions : w.path.positions = steps := by
    rw [hpath]
    exact Path.positions_ofSteps (Body.Single.step_lt htree.unique hnode)
  rw [Visit.finding?, Visit.finding?, ← h.verdict_eq]
  cases w.verdict.problem? with
  | none => exact .none
  | some problem =>
    refine .some ⟨rfl, hpath.trans hpath'.symm, Option.some.inj hspan, ?_, ?_⟩
    · exact hpositions ▸ hnode
    · exact hpositions ▸ hnode'

namespace Report

variable {ctx : Context} {body body' : Body} {report report' : Report}

/-- The node at the end of a path is visited, and the visit has that path. -/
theorem exists_visit_at (hcheck : body.check ctx = .ok report) {steps : List Nat} {id : NodeId}
    (hsteps : body.follow? body.root steps = some id) :
    ∃ w ∈ report.visits, w.node = id ∧ w.path.positions = steps := by
  obtain ⟨htree, -⟩ := Context.run_of_check hcheck
  obtain ⟨verdict, hverdict⟩ := (exists_verdict?_iff hcheck).2 ⟨steps, hsteps⟩
  obtain ⟨w, hw, rfl, -⟩ := exists_visit_of_verdict? hverdict
  exact ⟨w, hw, rfl, htree.unique _ _ _ (visit_located hcheck hw).1 hsteps⟩

/-- Matched bodies have the same visits outside the cuts. -/
theorem twins (keep : Path → Bool) (hmatched : Subtree.Matched Cut body.whole body'.whole)
    (hkeep : ∀ path, keep path = true ↔ Subtree.Outside Cut path.positions)
    (hcheck : body.check ctx = .ok report) (hcheck' : body'.check ctx = .ok report') :
    List.Forall₂ (Visit.Twin Cut body.whole body'.whole) (report.visits.filter (keep ·.path))
      (report'.visits.filter (keep ·.path)) := by
  obtain ⟨htree, _, _, hrun⟩ := Context.run_of_check hcheck
  obtain ⟨htree', _, _, hrun'⟩ := Context.run_of_check hcheck'
  have hroots : Opposite Cut body.whole body'.whole ([], body.root) ([], body'.root) := by
    refine ⟨[], rfl, rfl, rfl, rfl, ?_⟩
    rw [Subtree.outside_nil_iff]
    exact Classical.em _
  exact (hrun.twins hmatched (Subtree.keeps_whole htree hkeep) (Subtree.keeps_whole htree' hkeep)
    hrun' (.cons hroots .nil)).2.2

/-- Matched bodies have the same findings outside the cuts. -/
theorem twin_findings (keep : Path → Bool)
    (hmatched : Subtree.Matched Cut body.whole body'.whole)
    (hspans : body.whole.SameSpans Cut body'.whole)
    (hkeep : ∀ path, keep path = true ↔ Subtree.Outside Cut path.positions)
    (hcheck : body.check ctx = .ok report) (hcheck' : body'.check ctx = .ok report') :
    List.Forall₂ (Finding.Twin body body') (report.findings.filter (keep ·.path))
      (report'.findings.filter (keep ·.path)) := by
  -- A finding has the path of its visit, so it makes no difference which of them are kept.
  have hfilter : ∀ visits : List Visit, (visits.filterMap Visit.finding?).filter (keep ·.path) =
      (visits.filter (keep ·.path)).filterMap Visit.finding? := by
    intro visits
    rw [List.filter_filterMap, List.filterMap_filter]
    refine List.filterMap_congr fun w _ => ?_
    rw [Visit.finding?]
    cases w.verdict.problem? <;> simp [Option.filter]
  rw [findings, findings, hfilter, hfilter]
  refine List.rel_filterMap (fun w w' hw => ?_) (twins keep hmatched hkeep hcheck hcheck')
  exact hw.finding? (Context.run_of_check hcheck).1 hspans

/-- Nodes at the ends of one path that passes no cut have the same verdict. -/
theorem verdict?_eq_of_matched (hmatched : Subtree.Matched Cut body.whole body'.whole)
    (hcheck : body.check ctx = .ok report) (hcheck' : body'.check ctx = .ok report')
    {steps : List Nat} {id id' : NodeId} (houtside : Subtree.Outside Cut steps)
    (hid : body.follow? body.root steps = some id)
    (hid' : body'.follow? body'.root steps = some id') :
    report.verdict? id = report'.verdict? id' := by
  classical
  obtain ⟨htree, -⟩ := Context.run_of_check hcheck
  obtain ⟨w, hw, rfl, hsteps⟩ := exists_visit_at hcheck hid
  have htwins := twins (fun path => decide (Subtree.Outside Cut path.positions)) hmatched
    (fun path => decide_eq_true_iff) hcheck hcheck'
  have hkept : decide (Subtree.Outside Cut w.path.positions) = true := by
    simpa [hsteps] using houtside
  obtain ⟨w', hw', htwin⟩ :=
    exists_rel_of_mem_right htwins.flip (List.mem_filter.2 ⟨hw, hkept⟩)
  obtain ⟨steps', -, hnode, hnode', -⟩ := htwin.exists_path
  cases htree.unique _ _ _ hnode hid
  cases hnode'.symm.trans hid'
  rw [verdict?_of_mem hcheck hw, htwin.verdict_eq]
  exact (verdict?_of_mem hcheck' (List.mem_filter.1 hw').1).symm

end Report

end FrameEscape
