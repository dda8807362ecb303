import FrameEscape.Proofs.Check.Report
import Mathlib.Data.List.Sublists

/-!
# The order of a report

The visits of a report are in the order in which the checker is done with the nodes. What lies
below a node is visited right before it, as one stretch (`Context.Run.exists_below`). So a node
comes after what it is above (`Report.before_of_above`), and what comes between such a node and
something below it is below it as well (`Report.above_of_between`).
-/

namespace FrameEscape

/-! ## Pairs in lists -/

section Pairs

variable {α : Type} {a b : α} {as earlier later : List α}

theorem pair_sublist_iff :
    [a, b].Sublist as ↔ ∃ earlier later, as = earlier ++ b :: later ∧ a ∈ earlier := by
  rw [List.cons_sublist_iff]
  constructor
  · rintro ⟨front, back, rfl, ha, hb⟩
    obtain ⟨between, later, rfl⟩ := List.append_of_mem (List.singleton_sublist.1 hb)
    exact ⟨front ++ between, later, by simp, List.mem_append_left _ ha⟩
  · rintro ⟨earlier, later, rfl, ha⟩
    exact ⟨earlier, b :: later, rfl, ha, List.singleton_sublist.2 List.mem_cons_self⟩

theorem mem_of_pair_sublist (hnodup : (earlier ++ b :: later).Nodup)
    (h : [a, b].Sublist (earlier ++ b :: later)) : a ∈ earlier := by
  obtain ⟨earlier', later', heq, ha⟩ := pair_sublist_iff.1 h
  have hb : b ∉ earlier ∧ b ∉ later := by
    rw [List.nodup_middle, List.nodup_cons, List.mem_append, not_or] at hnodup
    exact hnodup.1
  obtain ⟨rfl, -⟩ := (List.append_cons_inj_of_notMem hb.1 hb.2).1 heq
  exact ha

theorem pair_sublist_asymm (hnodup : as.Nodup) (h : [a, b].Sublist as) :
    ¬ [b, a].Sublist as := by
  intro h'
  obtain ⟨earlier, later, rfl, ha⟩ := pair_sublist_iff.1 h
  obtain ⟨front, between, rfl⟩ := List.append_of_mem ha
  rw [List.append_assoc, List.cons_append] at hnodup h'
  have hb : b ∈ front := mem_of_pair_sublist hnodup h'
  have hdisjoint := List.disjoint_of_nodup_append hnodup
  exact hdisjoint hb (by simp)

end Pairs

/-! ## Above and below -/

namespace Body

/-- A path that is not empty leads from the first node to the second. -/
def Above (body : Body) (id target : NodeId) : Prop :=
  ∃ step steps, body.follow? id (step :: steps) = some target

variable {body : Body} {id target : NodeId} {node : Node}

theorem above_iff (hnode : body.node? id = some node) :
    body.Above id target ↔
      ∃ child ∈ node.expr.children, ∃ steps, body.follow? child steps = some target := by
  constructor
  · rintro ⟨step, steps, h⟩
    obtain ⟨node', child, hnode', hchild, hsteps⟩ := follow?_cons_iff.1 h
    cases hnode.symm.trans hnode'
    exact ⟨child, List.mem_of_getElem? hchild, steps, hsteps⟩
  · rintro ⟨child, hchild, steps, hsteps⟩
    obtain ⟨step, hstep⟩ := List.mem_iff_getElem?.1 hchild
    exact ⟨step, steps, follow?_cons_iff.2 ⟨node, child, hnode, hstep, hsteps⟩⟩

theorem Above.trans {inner : NodeId} (h : body.Above id target) (h' : body.Above target inner) :
    body.Above id inner := by
  obtain ⟨step, steps, hsteps⟩ := h
  obtain ⟨step', steps', hsteps'⟩ := h'
  exact ⟨step, steps ++ step' :: steps', follow?_trans hsteps hsteps'⟩

theorem Single.not_above (h : body.Single id) : ¬ body.Above id id := by
  rintro ⟨step, steps, hsteps⟩
  exact absurd (h _ _ id hsteps rfl) (List.cons_ne_nil _ _)

theorem Apart.symm {id' : NodeId} (h : body.Apart id id') : body.Apart id' id :=
  fun steps steps' target hsteps hsteps' => h steps' steps target hsteps' hsteps

theorem Apart.below {id' : NodeId} (h : body.Apart id id') (habove : body.Above id target) :
    body.Apart target id' := by
  obtain ⟨step, steps, hsteps⟩ := habove
  intro more steps' inner hmore
  exact h ((step :: steps) ++ more) steps' inner (follow?_trans hsteps hmore)

end Body

/-! ## What is visited before a node -/

namespace Context

variable {ctx : Context} {body : Body} {entries : List (List Nat × NodeId)}
  {before after : Scope} {values : List Resolved} {visits : List Visit}

/-- The visits of the children of a node are those below it. -/
theorem Run.exists_kid_iff {steps : List Nat} {id target : NodeId} {node : Node}
    (hnode : body.node? id = some node)
    (h : ctx.Run body (siblings steps 0 node.expr.children) before values after visits) :
    (∃ w ∈ visits, w.node = target) ↔ body.Above id target := by
  rw [Body.above_iff hnode]
  constructor
  · rintro ⟨w, hw, rfl⟩
    obtain ⟨e, he, more, hmore, -⟩ := h.exists_visit_iff.1 ⟨w, hw, rfl, rfl⟩
    obtain ⟨step, hchild, -⟩ := mem_siblings_iff.1 he
    exact ⟨e.2, List.mem_of_getElem? hchild, more, hmore⟩
  · rintro ⟨child, hchild, more, hmore⟩
    obtain ⟨step, hstep⟩ := List.mem_iff_getElem?.1 hchild
    obtain ⟨w, hw, htarget, -⟩ := h.exists_visit_iff.2
      ⟨(steps ++ [step], child), mem_siblings_iff.2 ⟨step, hstep, rfl⟩, more, hmore, rfl⟩
    exact ⟨w, hw, htarget⟩

/-- Right before a node all that is below it is visited, and nothing else. -/
theorem Run.exists_below (h : ctx.Run body entries before values after visits) {w : Visit}
    (hw : w ∈ visits) :
    ∃ earlier below later, visits = earlier ++ below ++ w :: later ∧
      ∀ id, (∃ u ∈ below, u.node = id) ↔ body.Above w.node id := by
  induction h with
  | nil => exact absurd hw List.not_mem_nil
  | @cons steps id rest node inputs _ inside _ _ kidVisits restVisits hnode _ hkids _ ihkids
      ihrest =>
    rcases List.mem_append.1 hw with hw | hw
    · obtain ⟨earlier, below, later, rfl, hbelow⟩ := ihkids hw
      refine ⟨earlier, below,
        later ++ ⟨id, .ofSteps steps, node.span, ctx.resolve inside inputs⟩ :: restVisits, ?_,
        hbelow⟩
      simp only [List.append_assoc, List.cons_append]
    · rcases List.mem_cons.1 hw with rfl | hw
      · exact ⟨[], kidVisits, restVisits, rfl, fun _ => hkids.exists_kid_iff hnode⟩
      · obtain ⟨earlier, below, later, rfl, hbelow⟩ := ihrest hw
        refine ⟨kidVisits ++ ⟨id, .ofSteps steps, node.span, ctx.resolve inside inputs⟩ :: earlier,
          below, later, ?_, hbelow⟩
        simp only [List.append_assoc, List.cons_append]

end Context

/-! ## Reports -/

namespace Report

/-- The checker is done with the first node, and after that with the second. -/
def Before (report : Report) (first second : NodeId) : Prop :=
  [first, second].Sublist (report.visits.map (·.node))

variable {ctx : Context} {body : Body} {report : Report} {id above first second : NodeId}

theorem Before.asymm (hcheck : body.check ctx = .ok report) (h : report.Before first second) :
    ¬ report.Before second first :=
  pair_sublist_asymm (nodup_visits hcheck) h

theorem before_iff (hcheck : body.check ctx = .ok report) {w : Visit}
    {earlier later : List Visit} (hsplit : report.visits = earlier ++ w :: later) :
    report.Before id w.node ↔ ∃ u ∈ earlier, u.node = id := by
  have hnodup : (report.visits.map (·.node)).Nodup := nodup_visits hcheck
  unfold Before
  rw [hsplit, List.map_append, List.map_cons] at hnodup ⊢
  constructor
  · intro h
    exact List.mem_map.1 (mem_of_pair_sublist hnodup h)
  · rintro ⟨u, hu, rfl⟩
    exact pair_sublist_iff.2 ⟨_, _, rfl, List.mem_map_of_mem hu⟩

theorem Before.reaches (hcheck : body.check ctx = .ok report) (h : report.Before first second) :
    body.Reaches first ∧ body.Reaches second := by
  have hfirst : first ∈ report.visits.map (·.node) := h.subset List.mem_cons_self
  have hsecond : second ∈ report.visits.map (·.node) :=
    h.subset (List.mem_cons_of_mem _ List.mem_cons_self)
  exact ⟨(mem_visits_iff hcheck).1 hfirst, (mem_visits_iff hcheck).1 hsecond⟩

theorem exists_visit (hcheck : body.check ctx = .ok report) (hid : body.Reaches id) :
    ∃ w ∈ report.visits, w.node = id :=
  List.mem_map.1 ((mem_visits_iff hcheck).2 hid)

theorem before_trichotomy (hcheck : body.check ctx = .ok report) (hfirst : body.Reaches first)
    (hsecond : body.Reaches second) :
    report.Before first second ∨ first = second ∨ report.Before second first := by
  obtain ⟨u, hu, rfl⟩ := exists_visit hcheck hfirst
  obtain ⟨w, hw, rfl⟩ := exists_visit hcheck hsecond
  obtain ⟨earlier, later, hsplit⟩ := List.append_of_mem hw
  rw [hsplit] at hu
  rcases List.mem_append.1 hu with hu | hu
  · exact .inl ((before_iff hcheck hsplit).2 ⟨u, hu, rfl⟩)
  · rcases List.mem_cons.1 hu with rfl | hu
    · exact .inr (.inl rfl)
    · obtain ⟨between, rest, rfl⟩ := List.append_of_mem hu
      have hsplit' : report.visits = (earlier ++ w :: between) ++ u :: rest := by
        rw [hsplit, List.append_assoc, List.cons_append]
      exact .inr (.inr ((before_iff hcheck hsplit').2 ⟨w, by simp, rfl⟩))

/-- A node comes after what it is above. -/
theorem before_of_above (hcheck : body.check ctx = .ok report) (hid : body.Reaches above)
    (h : body.Above above id) : report.Before id above := by
  obtain ⟨w, hw, rfl⟩ := exists_visit hcheck hid
  obtain ⟨-, _, _, hrun⟩ := Context.run_of_check hcheck
  obtain ⟨earlier, below, later, hsplit, hbelow⟩ := hrun.exists_below hw
  obtain ⟨u, hu, hnode⟩ := (hbelow id).2 h
  exact (before_iff hcheck hsplit).2 ⟨u, List.mem_append_right _ hu, hnode⟩

/-- Between something below a node and the node there is nothing else. -/
theorem above_of_between (hcheck : body.check ctx = .ok report) (hid : body.Reaches above)
    (h : body.Above above first) (hfirst : report.Before first second)
    (hsecond : report.Before second above) : body.Above above second := by
  obtain ⟨w, hw, rfl⟩ := exists_visit hcheck hid
  obtain ⟨-, _, _, hrun⟩ := Context.run_of_check hcheck
  obtain ⟨earlier, below, later, hsplit, hbelow⟩ := hrun.exists_below hw
  obtain ⟨u, hu, rfl⟩ := (hbelow first).2 h
  obtain ⟨v, hmem, rfl⟩ := (before_iff hcheck hsplit).1 hsecond
  rcases List.mem_append.1 hmem with hv | hv
  · -- Then the second node would come before the stretch, and the first is in it.
    obtain ⟨between, rest, rfl⟩ := List.append_of_mem hu
    have hsplit' : report.visits = (earlier ++ between) ++ u :: (rest ++ w :: later) := by
      rw [hsplit]
      simp only [List.append_assoc, List.cons_append]
    have hback : report.Before v.node u.node :=
      (before_iff hcheck hsplit').2 ⟨v, List.mem_append_left _ hv, rfl⟩
    exact absurd hback (hfirst.asymm hcheck)
  · exact (hbelow v.node).1 ⟨v, hv, rfl⟩

end Report

end FrameEscape
