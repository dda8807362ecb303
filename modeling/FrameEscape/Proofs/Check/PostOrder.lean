import FrameEscape.Proofs.Check.Locations
import FrameEscape.Proofs.Check.Order
import FrameEscape.Proofs.Check.Repair

/-!
# Findings come in post-order

A walk of a tree that is done with the children of a node, from left to right, before it is done
with the node goes through the paths in post-order: what is below a node comes before it, and what
is below a child before what is below a later child. `PostOrder` says this of lists of child
positions, and is a strict order. A run visits the nodes in this order
(`Context.Run.pairwise_inOrder`). Findings are made by visits, one at most, and so they come in this
order too (`findings_in_post_order`).
-/

namespace FrameEscape

/-! ## Post-order of paths -/

/-- A walk is done with the node that the first path leads to before the other one. -/
inductive PostOrder : List Nat → List Nat → Prop where
  | beneath (step : Nat) (steps : List Nat) : PostOrder (step :: steps) []
  | left {step step' : Nat} (h : step < step') (steps steps' : List Nat) :
    PostOrder (step :: steps) (step' :: steps')
  | child (step : Nat) {steps steps' : List Nat} (h : PostOrder steps steps') :
    PostOrder (step :: steps) (step :: steps')

namespace PostOrder

theorem irrefl (steps : List Nat) : ¬ PostOrder steps steps := by
  induction steps with
  | nil => nofun
  | cons step steps ih =>
    intro h
    cases h with
    | left h => exact Nat.lt_irrefl _ h
    | child _ h => exact ih h

theorem trans {first second third : List Nat} (h : PostOrder first second)
    (h' : PostOrder second third) : PostOrder first third := by
  induction h generalizing third with
  | beneath => cases h'
  | left h =>
    cases h' with
    | beneath => exact .beneath _ _
    | left h' => exact .left (Nat.lt_trans h h') _ _
    | child => exact .left h _ _
  | child step _ ih =>
    cases h' with
    | beneath => exact .beneath _ _
    | left h' => exact .left h' _ _
    | child _ h' => exact .child step (ih h')

/-- Only what comes after the common part of two paths counts. -/
theorem append {first second : List Nat} (h : PostOrder first second) (steps : List Nat) :
    PostOrder (steps ++ first) (steps ++ second) := by
  induction steps with
  | nil => exact h
  | cons step _ ih => exact .child step ih

/-- What is below a node comes before it. -/
theorem of_below (steps : List Nat) (step : Nat) (more : List Nat) :
    PostOrder (steps ++ step :: more) steps := by
  simpa using (beneath step more).append steps

/-- What is below a child of a node comes before what is below a later one. -/
theorem of_left (steps : List Nat) {step step' : Nat} (h : step < step') (more more' : List Nat) :
    PostOrder (steps ++ step :: more) (steps ++ step' :: more') :=
  (left h more more').append steps

end PostOrder

/-! ## Runs -/

/-- Paths from the root lead to the nodes, and the first one comes before the other. -/
def Body.InOrder (body : Body) (first second : NodeId) : Prop :=
  ∃ steps steps', body.follow? body.root steps = some first ∧
    body.follow? body.root steps' = some second ∧ PostOrder steps steps'

/-- All that is below the first node comes before all that is below the other. -/
def Clears (e e' : List Nat × NodeId) : Prop :=
  ∀ more more', PostOrder (e.1 ++ more) (e'.1 ++ more')

theorem pairwise_siblings (steps : List Nat) (ids : List NodeId) :
    (siblings steps 0 ids).Pairwise Clears := by
  rw [List.pairwise_iff_getElem]
  intro i j hi hj hij more more'
  have hposition : ∀ k (hk : k < (siblings steps 0 ids).length),
      (siblings steps 0 ids)[k].1 = steps ++ [k] := by
    intro k hk
    obtain ⟨_, _, he⟩ := Option.map_eq_some_iff.1
      ((getElem?_siblings steps ids k).symm.trans (List.getElem?_eq_getElem hk))
    rw [← he]
  rw [hposition i hi, hposition j hj, List.append_assoc, List.append_assoc]
  exact .of_left steps hij more more'

namespace Context

variable {ctx : Context} {body : Body} {entries : List (List Nat × NodeId)}
  {before after : Scope} {values : List Resolved} {visits : List Visit}

theorem located_siblings {steps : List Nat} {id : NodeId} {node : Node}
    (hsteps : body.follow? body.root steps = some id) (hnode : body.node? id = some node) :
    ∀ e ∈ siblings steps 0 node.expr.children, body.follow? body.root e.1 = some e.2 := by
  intro e he
  obtain ⟨i, hchild, hpath⟩ := mem_siblings_iff.1 he
  rw [hpath]
  exact Body.follow?_child hsteps hnode hchild

/-- What a run visits is below a listed node. -/
theorem Run.exists_entry (h : ctx.Run body entries before values after visits)
    (hlocated : ∀ e ∈ entries, body.follow? body.root e.1 = some e.2) {w : Visit}
    (hw : w ∈ visits) :
    ∃ e ∈ entries, ∃ more, body.follow? body.root (e.1 ++ more) = some w.node := by
  obtain ⟨e, he, more, hmore, -⟩ := h.exists_visit_iff.1 ⟨w, hw, rfl, rfl⟩
  exact ⟨e, he, more, Body.follow?_trans (hlocated e he) hmore⟩

/-- The visits of a run are in post-order, if the listed nodes are. -/
theorem Run.pairwise_inOrder (h : ctx.Run body entries before values after visits)
    (hlocated : ∀ e ∈ entries, body.follow? body.root e.1 = some e.2)
    (hclears : entries.Pairwise Clears) :
    visits.Pairwise fun w w' => body.InOrder w.node w'.node := by
  induction h with
  | nil => exact .nil
  | @cons steps id rest node inputs _ inside _ _ kidVisits restVisits hnode _ hkids hrest ihkids
      ihrest =>
    have hid : body.follow? body.root steps = some id := hlocated _ List.mem_cons_self
    have hrestLocated : ∀ e ∈ rest, body.follow? body.root e.1 = some e.2 :=
      fun e he => hlocated e (List.mem_cons_of_mem _ he)
    obtain ⟨hhead, htail⟩ := List.pairwise_cons.1 hclears
    -- A visit below the node goes through a child of it.
    have hkid : ∀ w ∈ kidVisits, ∃ step more,
        body.follow? body.root (steps ++ step :: more) = some w.node := by
      intro w hw
      obtain ⟨e, he, more, hmore⟩ := hkids.exists_entry (located_siblings hid hnode) hw
      obtain ⟨step, -, hpath⟩ := mem_siblings_iff.1 he
      rw [hpath, List.append_assoc] at hmore
      exact ⟨step, more, hmore⟩
    refine List.pairwise_append.2 ⟨?_, List.pairwise_cons.2 ⟨?_, ?_⟩, ?_⟩
    · exact ihkids (located_siblings hid hnode) (pairwise_siblings steps _)
    · -- The node, and then what is below the nodes listed after it.
      intro w hw
      obtain ⟨e, he, more, hmore⟩ := hrest.exists_entry hrestLocated hw
      exact ⟨steps, _, hid, hmore, by simpa using hhead e he [] more⟩
    · exact ihrest hrestLocated htail
    · intro w hw w' hw'
      obtain ⟨step, more, hmore⟩ := hkid w hw
      rcases List.mem_cons.1 hw' with rfl | hw'
      · exact ⟨_, steps, hmore, hid, .of_below steps step more⟩
      · obtain ⟨e, he, more', hmore'⟩ := hrest.exists_entry hrestLocated hw'
        exact ⟨_, _, hmore, hmore', hhead e he (step :: more) more'⟩

end Context

/-! ## Reports -/

namespace Report

variable {ctx : Context} {body : Body} {report : Report}

theorem pairwise_inOrder (hcheck : body.check ctx = .ok report) :
    report.visits.Pairwise fun w w' => body.InOrder w.node w'.node := by
  obtain ⟨-, value, scope, hrun⟩ := Context.run_of_check hcheck
  refine hrun.pairwise_inOrder (fun e he => ?_) (List.pairwise_singleton _ _)
  cases List.mem_singleton.1 he
  rfl

/-- There is one path to each node, so any two paths to nodes in order are in order. -/
theorem postOrder_of_inOrder (hcheck : body.check ctx = .ok report) {steps steps' : List Nat}
    {first second : NodeId} (hfirst : body.follow? body.root steps = some first)
    (hsecond : body.follow? body.root steps' = some second) (h : body.InOrder first second) :
    PostOrder steps steps' := by
  obtain ⟨htree, -⟩ := Context.run_of_check hcheck
  obtain ⟨front, back, hfront, hback, horder⟩ := h
  rwa [htree.unique _ _ _ hfirst hfront, htree.unique _ _ _ hsecond hback]

/-- The checker is done with one node before another if and only if its path comes first. -/
theorem before_iff_postOrder (hcheck : body.check ctx = .ok report) {steps steps' : List Nat}
    {first second : NodeId} (hfirst : body.follow? body.root steps = some first)
    (hsecond : body.follow? body.root steps' = some second) :
    report.Before first second ↔ PostOrder steps steps' := by
  have hforward : ∀ {id id' path path'}, body.follow? body.root path = some id →
      body.follow? body.root path' = some id' → report.Before id id' → PostOrder path path' := by
    intro id id' path path' hid hid' hbefore
    have hpair := (List.pairwise_map.2 (pairwise_inOrder hcheck)).sublist hbefore
    exact postOrder_of_inOrder hcheck hid hid' (List.pairwise_pair.1 hpair)
  refine ⟨hforward hfirst hsecond, fun horder => ?_⟩
  rcases before_trichotomy hcheck ⟨steps, hfirst⟩ ⟨steps', hsecond⟩ with h | rfl | h
  · exact h
  · obtain ⟨htree, -⟩ := Context.run_of_check hcheck
    exact absurd (htree.unique _ _ _ hfirst hsecond ▸ horder) (PostOrder.irrefl _)
  · exact absurd (horder.trans (hforward hsecond hfirst h)) (PostOrder.irrefl _)

theorem pairwise_findings (hcheck : body.check ctx = .ok report) :
    (report.findings.map (·.path.positions)).Pairwise PostOrder := by
  rw [List.pairwise_map, findings, List.pairwise_filterMap]
  refine (pairwise_inOrder hcheck).imp_of_mem fun {w w'} hw hw' horder => ?_
  intro finding hfinding finding' hfinding'
  obtain ⟨problem, -, rfl⟩ := Option.map_eq_some_iff.1 hfinding
  obtain ⟨problem', -, rfl⟩ := Option.map_eq_some_iff.1 hfinding'
  exact postOrder_of_inOrder hcheck (visit_located hcheck hw).1 (visit_located hcheck hw').1 horder

theorem nodup_findings (hcheck : body.check ctx = .ok report) :
    (report.findings.map (·.node)).Nodup :=
  (nodup_visits hcheck).sublist (map_findings_sublist report.visits)

/-- There are as many visits as nodes that the root reaches. -/
theorem length_visits (hcheck : body.check ctx = .ok report) :
    report.visits.length = {id | body.Reaches id}.ncard := by
  have hreached : {id | body.Reaches id} = (report.visits.map (·.node)).toFinset := by
    ext id
    have hid : id ∈ report.visits.map (·.node) ↔ body.Reaches id := mem_visits_iff hcheck
    simpa using hid.symm
  rw [hreached, Set.ncard_coe_finset, List.toFinset_card_of_nodup (nodup_visits hcheck),
    List.length_map]

end Report

/-! ## The headline -/

/-- **Findings come in evaluation order, and no node has two.** The checker is done with the nodes
in post-order: with all that is below a node before the node, and with all that is below a child
before what is below a later child. The paths of the findings are strictly increasing in this order,
no two findings are at one node, and there are no more findings than nodes that the root reaches. -/
theorem findings_in_post_order {ctx : Context} {body : Body} {report : Report}
    (hcheck : body.check ctx = .ok report) :
    (∀ steps steps' first second, body.follow? body.root steps = some first →
      body.follow? body.root steps' = some second →
      (report.Before first second ↔ PostOrder steps steps')) ∧
    (report.findings.map (·.path.positions)).Pairwise PostOrder ∧
    (report.findings.map (·.node)).Nodup ∧
    report.findings.length ≤ {id | body.Reaches id}.ncard := by
  refine ⟨?_, Report.pairwise_findings hcheck, Report.nodup_findings hcheck, ?_⟩
  · intro steps steps' first second hfirst hsecond
    exact Report.before_iff_postOrder hcheck hfirst hsecond
  · rw [← Report.length_visits hcheck]
    exact List.length_filterMap_le _ _

/-- The first argument means nothing, and the call mixes the others. -/
theorem findings_in_post_order_at_call :
    ∃ report, mixBody.check mixContext = .ok report ∧
      report.findings.map (·.path.positions) = [[1], []] ∧ PostOrder [1] [] ∧
      report.Before ⟨1⟩ ⟨4⟩ ∧ 2 ≤ {id | mixBody.Reaches id}.ncard := by
  have hvalid : mixBody.validate mixContext.config.maxDepth = .ok () := by cbv
  obtain ⟨report, _, _, hcheck, -⟩ := Context.exists_check (Body.isTree_of_validate hvalid)
  obtain ⟨hbefore, hpaths, -, hlength⟩ := findings_in_post_order hcheck
  have hpositions : (mixBody.check mixContext).map
      (·.findings.map (·.path.positions)) = .ok [[1], []] := by cbv
  have hfindings : report.findings.map (·.path.positions) = [[1], []] :=
    Report.eq_of_map_check hcheck hpositions
  rw [hfindings] at hpaths
  have horder : PostOrder [1] [] := List.pairwise_pair.1 hpaths
  have htwo : report.findings.length = 2 := by
    simpa using congrArg List.length hfindings
  exact ⟨report, hcheck, hfindings, horder, (hbefore [1] [] ⟨1⟩ ⟨4⟩ rfl rfl).2 horder,
    htwo ▸ hlength⟩

end FrameEscape
