import FrameEscape.Body.Builder
import FrameEscape.Proofs.Body.DepthLimit

/-!
# What is built is a tree

A builder hands out an id for each node and takes ids back as children. If it takes back only what
it has handed out, and nothing twice, then children lie before their parents and no node has two of
those. That is all that it takes for the nodes below any root to make up a tree.

* **`Forest`**: this shape, of a list of nodes. `Forest.single` turns it into what validation asks:
  no two paths meet.
* **`Builder.toList_nodes_run`**, **`Builder.Tidy.forest`**: what a run of calls appends, and that
  it keeps the shape.
* **`Builder.built_tree`**: the headline.
-/

namespace FrameEscape

/-! ## Forests -/

/-- Children lie before their parents, and no node is a child in two places. -/
structure Forest (nodes : Array Node) : Prop where
  descending : ∀ (i : Nat) (node : Node), nodes[i]? = some node →
    ∀ child ∈ node.expr.children, child.index < i
  once : (nodes.toList.flatMap (·.expr.children)).Nodup

namespace Forest

variable {body : Body} {id id' child : NodeId} {node node' : Node}

theorem contains_child (h : Forest body.nodes) (hnode : body.node? id = some node)
    (hchild : child ∈ node.expr.children) : body.contains child = true := by
  obtain ⟨hid, -⟩ := Array.getElem?_eq_some_iff.1 hnode
  exact decide_eq_true (Nat.lt_trans (h.descending _ _ hnode child hchild) hid)

/-- A child of a node is no child of a node after it. -/
theorem not_child_of_lt (h : Forest body.nodes) (hnode : body.node? id = some node)
    (hnode' : body.node? id' = some node') (hlt : id.index < id'.index)
    (hchild : child ∈ node.expr.children) : child ∉ node'.expr.children := by
  obtain ⟨-, hapart⟩ := List.nodup_flatMap.1 h.once
  obtain ⟨hid, hget⟩ := Array.getElem?_eq_some_iff.1 hnode
  obtain ⟨hid', hget'⟩ := Array.getElem?_eq_some_iff.1 hnode'
  rw [List.pairwise_iff_getElem] at hapart
  have hdisjoint := hapart _ _ (by simpa using hid) (by simpa using hid') hlt
  rw [Function.onFun, Array.getElem_toList, Array.getElem_toList, hget, hget'] at hdisjoint
  exact hdisjoint hchild

/-- Two places in which a node is a child are the same place. -/
theorem unique_parent (h : Forest body.nodes) {i i' : Nat} (hnode : body.node? id = some node)
    (hnode' : body.node? id' = some node') (hchild : node.expr.children[i]? = some child)
    (hchild' : node'.expr.children[i']? = some child) : id = id' ∧ i = i' := by
  have hmem : child ∈ node.expr.children := List.mem_of_getElem? hchild
  have hmem' : child ∈ node'.expr.children := List.mem_of_getElem? hchild'
  rcases Nat.lt_trichotomy id.index id'.index with hlt | heq | hlt
  · exact absurd hmem' (h.not_child_of_lt hnode hnode' hlt hmem)
  · cases NodeId.index_injective heq
    cases hnode.symm.trans hnode'
    obtain ⟨hi, hget⟩ := List.getElem?_eq_some_iff.1 hchild
    obtain ⟨hi', hget'⟩ := List.getElem?_eq_some_iff.1 hchild'
    have hnodup : node.expr.children.Nodup :=
      (List.nodup_flatMap.1 h.once).1 node
        (List.mem_of_getElem? (Array.getElem?_toList.trans hnode))
    exact ⟨rfl, hnodup.getElem_inj_iff.1 (hget.trans hget'.symm)⟩
  · exact absurd hmem (h.not_child_of_lt hnode' hnode hlt hmem')

/-- A path leads to places further and further to the front. -/
theorem index_add_length_le (h : Forest body.nodes) {steps : List Nat} {target : NodeId}
    (hsteps : body.follow? id steps = some target) :
    target.index + steps.length ≤ id.index := by
  induction steps generalizing id with
  | nil =>
    cases hsteps
    exact Nat.le_refl _
  | cons step steps ih =>
    obtain ⟨node, child, hnode, hchild, hrest⟩ := Body.follow?_cons_iff.1 hsteps
    have hlt := h.descending _ _ hnode child (List.mem_of_getElem? hchild)
    have hle := ih hrest
    rw [List.length_cons]
    omega

/-- No two paths from a node meet. Induction on one of them from its end: where both end, there is
one parent, and both paths lead to it. -/
theorem single (h : Forest body.nodes) (id : NodeId) : body.Single id := by
  -- A path that ends where it began is empty.
  have hround : ∀ {steps}, body.follow? id steps = some id → steps = [] := by
    intro steps hsteps
    have hle := h.index_add_length_le hsteps
    exact List.eq_nil_of_length_eq_zero (by omega)
  -- A path that is not empty ends in a child.
  have hend : ∀ {steps step target}, body.follow? id (steps ++ [step]) = some target →
      ∃ parent node, body.follow? id steps = some parent ∧ body.node? parent = some node ∧
        node.expr.children[step]? = some target := by
    intro steps step target hsteps
    rw [Body.follow?_append] at hsteps
    obtain ⟨parent, hparent, hstep⟩ := Option.bind_eq_some_iff.1 hsteps
    obtain ⟨node, child, hnode, hchild, heq⟩ := Body.follow?_cons_iff.1 hstep
    cases heq
    exact ⟨parent, node, hparent, hnode, hchild⟩
  intro steps steps' target hsteps hsteps'
  induction steps using List.reverseRecOn generalizing steps' target with
  | nil =>
    cases hsteps
    exact (hround hsteps').symm
  | append_singleton steps step ih =>
    rcases List.eq_nil_or_concat steps' with rfl | ⟨steps', step', rfl⟩
    · cases hsteps'
      exact hround hsteps
    · rw [List.concat_eq_append] at hsteps' ⊢
      obtain ⟨parent, node, hparent, hnode, hchild⟩ := hend hsteps
      obtain ⟨parent', node', hparent', hnode', hchild'⟩ := hend hsteps'
      obtain ⟨rfl, rfl⟩ := h.unique_parent hnode hnode' hchild hchild'
      rw [ih steps' parent hparent hparent']

/-- The only defect that a body of this shape can have, if its root is one of its nodes. -/
theorem exists_of_defect (h : Forest body.nodes) (hroot : body.contains body.root = true)
    {mistake : Malformed} (hdefect : body.Defect mistake) :
    ∃ id node target value mode place, mistake = .notAPlace id place.expr.describe ∧
      body.Reaches id ∧ body.node? id = some node ∧ node.expr = .assign target value mode ∧
      body.node? target = some place ∧ ¬ place.expr.Denotes := by
  cases hdefect with
  | missingRoot hmissing =>
    rw [Body.contains_eq_isSome, hmissing] at hroot
    cases hroot
  | danglingChild hid hnode hchild hmissing =>
    have hmem := h.contains_child hnode hchild
    rw [Body.contains_eq_isSome, hmissing] at hmem
    cases hmem
  | sharedNode hsteps hsteps' hne => exact absurd (h.single _ _ _ _ hsteps hsteps') hne
  | notAPlace hid hnode hassign hplace hnot =>
    exact ⟨_, _, _, _, _, _, rfl, hid, hnode, hassign, hplace, hnot⟩

end Forest

namespace Builder

/-! ## Runs of a builder -/

/-- A call on a builder: set the span of the nodes to come, or ask for a node. -/
inductive Call where
  | withSpan (span : Span)
  | make (maker : Maker)

/-- The span that a call sets. -/
def Call.span? : Call → Option Span
  | withSpan span => some span
  | make _ => none

/-- What a call asks for. -/
def Call.maker? : Call → Option Maker
  | withSpan _ => none
  | make maker => some maker

/-- The id that a call returns. -/
def answer? (builder : Builder) : Call → Option NodeId
  | .withSpan _ => none
  | .make maker => some (builder.make maker).1

/-- The builder after a call. -/
def after (builder : Builder) : Call → Builder
  | .withSpan span => builder.withSpan span
  | .make maker => (builder.make maker).2

/-- The builder after some calls. -/
def run (builder : Builder) (calls : List Call) : Builder := calls.foldl after builder

/-- The ids that some calls return, in order. -/
def answers (builder : Builder) : List Call → List NodeId
  | [] => []
  | call :: calls => (builder.answer? call).toList ++ (builder.after call).answers calls

/-- The body that a fresh builder is finished into after some calls. -/
def built (name : String) (calls : List Call) (root : NodeId) : Body :=
  ((new name).run calls).finish root

/-- The ids that some calls pass on as children, in order. -/
def passed (calls : List Call) : List NodeId :=
  (calls.filterMap Call.maker?).flatMap (·.expr.children)

/-- The span set last, or the one that a builder starts with. -/
def spanAfter (calls : List Call) : Span := (calls.filterMap Call.span?).getLast?.getD .zero

/-- The calls on a fresh builder pass on ids that it has returned before, and none of them twice. -/
structure Tidy (name : String) (calls : List Call) : Prop where
  returned : ∀ i maker, calls[i]? = some (.make maker) →
    ∀ child ∈ maker.expr.children, child ∈ (new name).answers (calls.take i)
  once : (passed calls).Nodup

variable {builder : Builder} {call : Call} {calls : List Call}

/-! ## What a call does -/

theorem toList_nodes_after (builder : Builder) (call : Call) :
    (builder.after call).nodes.toList =
      builder.nodes.toList ++ call.maker?.toList.map (⟨·.expr, builder.span⟩) := by
  cases call with
  | withSpan span => simp [after, withSpan, Call.maker?]
  | make maker => simp [after, make, push, Call.maker?]

theorem span_after (builder : Builder) (call : Call) :
    (builder.after call).span = call.span?.getD builder.span := by
  cases call <;> rfl

theorem index_ofNat_le (n : Nat) : (NodeId.ofNat n).index ≤ n := by
  rw [NodeId.ofNat, NodeId.index, UInt32.toNat_ofNat']
  exact Nat.mod_le _ _

theorem index_lt_of_answer? {id : NodeId} (h : builder.answer? call = some id) :
    id.index < (builder.after call).nodes.size := by
  cases call with
  | withSpan span => cases h
  | make maker =>
    cases h
    simpa [after, make, push] using Nat.lt_succ_of_le (index_ofNat_le builder.nodes.size)

/-! ## What a run does -/

theorem run_append (builder : Builder) (calls more : List Call) :
    builder.run (calls ++ more) = (builder.run calls).run more := List.foldl_append

theorem run_concat (builder : Builder) (calls : List Call) (call : Call) :
    builder.run (calls ++ [call]) = (builder.run calls).after call := run_append _ _ _

/-- A run appends a node for each call that asks for one. -/
theorem toList_nodes_run (builder : Builder) (calls : List Call) :
    ∃ more : List Node, (builder.run calls).nodes.toList = builder.nodes.toList ++ more ∧
      more.map (·.expr) = (calls.filterMap Call.maker?).map Maker.expr := by
  induction calls generalizing builder with
  | nil => exact ⟨[], by simp [run], rfl⟩
  | cons call calls ih =>
    obtain ⟨more, hnodes, hexprs⟩ := ih (builder.after call)
    refine ⟨call.maker?.toList.map (⟨·.expr, builder.span⟩) ++ more, ?_, ?_⟩
    · rw [run, List.foldl_cons, ← run, hnodes, toList_nodes_after, List.append_assoc]
    · rw [List.map_append, hexprs]
      cases call <;> simp [Call.maker?, List.filterMap_cons]

theorem size_le_run (builder : Builder) (calls : List Call) :
    builder.nodes.size ≤ (builder.run calls).nodes.size := by
  obtain ⟨more, hnodes, -⟩ := toList_nodes_run builder calls
  have hlength := congrArg List.length hnodes
  rw [List.length_append, Array.length_toList, Array.length_toList] at hlength
  omega

/-- A node that has been appended stays what it is. -/
theorem getElem?_run {i : Nat} {node : Node} (h : builder.nodes[i]? = some node) :
    (builder.run calls).nodes[i]? = some node := by
  obtain ⟨more, hnodes, -⟩ := toList_nodes_run builder calls
  obtain ⟨hi, -⟩ := Array.getElem?_eq_some_iff.1 h
  rw [← Array.getElem?_toList, hnodes, List.getElem?_append_left (by simpa using hi),
    Array.getElem?_toList, h]

theorem span_run (builder : Builder) (calls : List Call) :
    (builder.run calls).span = (calls.filterMap Call.span?).getLast?.getD builder.span := by
  induction calls generalizing builder with
  | nil => rfl
  | cons call calls ih =>
    rw [run, List.foldl_cons, ← run, ih, span_after]
    cases call with
    | withSpan span => simp [Call.span?, List.getLast?_cons]
    | make maker => rfl

theorem index_lt_of_mem_answers {id : NodeId} (h : id ∈ builder.answers calls) :
    id.index < (builder.run calls).nodes.size := by
  induction calls generalizing builder with
  | nil => cases h
  | cons call calls ih =>
    rcases List.mem_append.1 h with h | h
    · exact Nat.lt_of_lt_of_le (index_lt_of_answer? (Option.mem_toList.1 h)) (size_le_run _ calls)
    · exact ih h

/-- A run falls into the part before a call, the call, and the part after it. -/
theorem run_of_getElem? (builder : Builder) {i : Nat} (h : calls[i]? = some call) :
    builder.run calls =
      ((builder.run (calls.take i)).after call).run (calls.drop (i + 1)) := by
  obtain ⟨hi, hget⟩ := List.getElem?_eq_some_iff.1 h
  have hsplit : calls = calls.take i ++ call :: calls.drop (i + 1) := by
    rw [← hget, List.getElem_cons_drop, List.take_append_drop]
  calc builder.run calls = builder.run (calls.take i ++ call :: calls.drop (i + 1)) := by
        rw [← hsplit]
    _ = (builder.run (calls.take i)).run (call :: calls.drop (i + 1)) := run_append _ _ _
    _ = ((builder.run (calls.take i)).after call).run (calls.drop (i + 1)) := rfl

/-- What a call has asked for is the node of the id that it returned, with the span at that time. -/
theorem node?_make {name : String} {i : Nat} {maker : Maker} (root : NodeId)
    (hsmall : ((new name).run calls).nodes.size < UInt32.size)
    (hcall : calls[i]? = some (.make maker)) :
    (built name calls root).node? (((new name).run (calls.take i)).make maker).1 =
      some ⟨maker.expr, spanAfter (calls.take i)⟩ := by
  have hrun := run_of_getElem? (new name) hcall
  -- There is room for the node: at the end of the run there are no fewer of them.
  have hroom : ((new name).run (calls.take i)).nodes.size < UInt32.size := by
    refine Nat.lt_of_le_of_lt ?_ hsmall
    rw [hrun]
    exact Nat.le_trans (size_le_run _ [.make maker]) (size_le_run _ _)
  have hnode := node?_finish_push ((new name).run (calls.take i)) maker.expr root hroom
  rw [span_run] at hnode
  rw [built, hrun]
  exact getElem?_run hnode

/-! ## What a tidy run builds -/

theorem Tidy.of_concat {name : String} (h : Tidy name (calls ++ [call])) : Tidy name calls := by
  constructor
  case returned =>
    intro i maker hcall
    obtain ⟨hi, -⟩ := List.getElem?_eq_some_iff.1 hcall
    have hreturned := h.returned i maker (by rw [List.getElem?_append_left hi, hcall])
    rwa [List.take_append_of_le_length (Nat.le_of_lt hi)] at hreturned
  case once =>
    have honce := h.once
    rw [passed, List.filterMap_append, List.flatMap_append] at honce
    exact (List.nodup_append.1 honce).1

/-- Children lie before their parents: the last call passes on only what calls before it have
returned. Induction on the run from its end. -/
theorem Tidy.descending {name : String} (h : Tidy name calls) (i : Nat) (node : Node)
    (hnode : ((new name).run calls).nodes[i]? = some node) :
    ∀ child ∈ node.expr.children, child.index < i := by
  induction calls using List.reverseRecOn generalizing i node with
  | nil => cases hnode
  | append_singleton calls call ih =>
    rw [run_concat, ← Array.getElem?_toList, toList_nodes_after, List.getElem?_append] at hnode
    split at hnode
    · exact ih h.of_concat i node (by rwa [← Array.getElem?_toList])
    next hi =>
      -- The node of the last call.
      cases call with
      | withSpan span => cases hnode
      | make maker =>
        obtain ⟨_, hget⟩ := List.getElem?_eq_some_iff.1 hnode
        have hexpr : node.expr = maker.expr := by
          rw [← hget]
          simp [Call.maker?]
        intro child hchild
        have hreturned := h.returned calls.length maker (by simp) child (hexpr ▸ hchild)
        rw [List.take_left] at hreturned
        have hlt := index_lt_of_mem_answers hreturned
        rw [Array.length_toList] at hi
        omega

theorem Tidy.forest {name : String} (h : Tidy name calls) :
    Forest ((new name).run calls).nodes := by
  refine ⟨h.descending, ?_⟩
  obtain ⟨more, hnodes, hexprs⟩ := toList_nodes_run (new name) calls
  have hpassed : more.flatMap (·.expr.children) = passed calls := by
    have hflat := congrArg (List.flatMap Expr.children) hexprs
    rwa [List.flatMap_map, List.flatMap_map] at hflat
  rw [hnodes, List.flatMap_append, hpassed]
  exact h.once

/-! ## The headline -/

/-- **What is built is a tree.** Let the calls on a fresh builder pass on only ids that it has
returned before, none of them twice, and let it have fewer than 2³² nodes. In the body that it is
finished into, at any of the ids that it returned, each of these ids is the place of the node that
the call asked for, with the span set last before it. A limit on the depth that is no less than the
number of nodes lets the body pass, unless an assignment that the root reaches has a target that is
not a place. -/
theorem built_tree {name : String} {calls : List Call} {root : NodeId} (htidy : Tidy name calls)
    (hsmall : ((new name).run calls).nodes.size < UInt32.size)
    (hroot : root ∈ (new name).answers calls) :
    (∀ i maker, calls[i]? = some (.make maker) →
      (built name calls root).node? (((new name).run (calls.take i)).make maker).1 =
        some ⟨maker.expr, spanAfter (calls.take i)⟩) ∧
      ∀ limit, (built name calls root).size ≤ limit →
        (built name calls root).validate limit = .ok () ∨
          ∃ id node target value mode place,
            (built name calls root).validate limit =
              .error (.notAPlace id place.expr.describe) ∧
            (built name calls root).Reaches id ∧
            (built name calls root).node? id = some node ∧
            node.expr = .assign target value mode ∧
            (built name calls root).node? target = some place ∧ ¬ place.expr.Denotes := by
  refine ⟨fun i maker => node?_make root hsmall, fun limit hlimit => ?_⟩
  have hcontains : (built name calls root).contains root = true :=
    decide_eq_true (index_lt_of_mem_answers hroot)
  cases hvalidate : (built name calls root).validate limit with
  | ok => exact .inl rfl
  | error mistake =>
    have hdefect := Body.defect_of_validate hlimit hvalidate
    obtain ⟨id, node, target, value, mode, place, rfl, hfault⟩ :=
      htidy.forest.exists_of_defect hcontains hdefect
    exact .inr ⟨id, node, target, value, mode, place, rfl, hfault⟩

/-- `x.Get() = 0; y`, with a span from the call on. -/
def storeCalls : List Call :=
  [.make (.var "x"), .withSpan ⟨4, 9⟩, .make (.call ⟨0⟩ "Get" []), .make .literal,
    .make (.assign ⟨1⟩ ⟨2⟩), .make (.var "y"), .make (.block [⟨3⟩, ⟨4⟩])]

theorem tidy_storeCalls : Tidy "store" storeCalls := by
  constructor
  case returned =>
    intro i maker hcall
    obtain ⟨hi, -⟩ := List.getElem?_eq_some_iff.1 hcall
    have hlt : i < 7 := hi
    interval_cases i <;> cases hcall <;> decide
  case once => decide

/-- The body is a tree, and the only fault in it is that a call is no place to store into. -/
theorem built_tree_at_store :
    (built "store" storeCalls ⟨5⟩).node? ⟨1⟩ = some ⟨.call ⟨0⟩ "Get" [], ⟨4, 9⟩⟩ ∧
      ∃ id node target value mode place,
        (built "store" storeCalls ⟨5⟩).validate 6 = .error (.notAPlace id place.expr.describe) ∧
        (built "store" storeCalls ⟨5⟩).Reaches id ∧
        (built "store" storeCalls ⟨5⟩).node? id = some node ∧
        node.expr = .assign target value mode ∧
        (built "store" storeCalls ⟨5⟩).node? target = some place ∧ ¬ place.expr.Denotes := by
  have hsmall : ((new "store").run storeCalls).nodes.size < UInt32.size := by decide
  have hroot : ⟨5⟩ ∈ (new "store").answers storeCalls := by decide
  obtain ⟨hnodes, hvalidate⟩ := built_tree tidy_storeCalls hsmall hroot
  have hnot : (built "store" storeCalls ⟨5⟩).validate 6 ≠ .ok () := by
    have herror : (built "store" storeCalls ⟨5⟩).validate 6 =
        .error (.notAPlace ⟨3⟩ "method call") := by cbv
    rw [herror]
    simp
  exact ⟨hnodes 2 _ rfl, (hvalidate 6 (by decide)).resolve_left hnot⟩

end Builder

end FrameEscape
