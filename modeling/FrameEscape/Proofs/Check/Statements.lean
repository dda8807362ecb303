import FrameEscape.Proofs.Check.Correspondence
import FrameEscape.Proofs.Check.Resolution
import Mathlib

/-!
# Statements that declare nothing for the others

A statement leaves behind nothing but the names that it exports. So one whose declarations all lie
in blocks of its own may be replaced by another such statement, and nothing else in the body
notices. An assignment is one of these: it does not change what its target means later on.

* **`Body.Enclosed.not_exports`**: such a statement exports no name.
* **`Context.Run.exists_of_agree`**: a run depends on the names in scope that its nodes mention.
* **`Context.Comes.get?_eq`**: between two points of a run a name keeps its meaning, unless it is
  declared on the way.
* **`closed_statement_unnoticed`**: the headline.
-/

namespace FrameEscape

namespace Body

variable {body : Body} {id : NodeId} {name : String}

/-! ## Declarations in blocks -/

/-- Each declaration of the subtree lies in a block of the subtree. -/
def Enclosed (body : Body) (id : NodeId) : Prop :=
  ∀ steps decl name init, body.follow? id steps = some decl → body.Declares decl name init →
    ∃ front block, body.follow? id front = some block ∧ body.IsBlock block ∧ body.Above block decl

/-- A block has in itself all that is declared below it. -/
theorem enclosed_of_isBlock (h : body.IsBlock id) : body.Enclosed id := by
  intro steps decl name init hsteps hdeclares
  cases steps with
  | nil =>
    cases hsteps
    obtain ⟨node, hnode, hexpr⟩ := hdeclares
    obtain ⟨stmts, hblock⟩ := (isBlock_iff hnode).1 h
    exact absurd (hexpr.symm.trans hblock) (by simp)
  | cons step steps => exact ⟨[], id, rfl, h, step, steps, hsteps⟩

/-- A name is exported by a declaration, and there is no block on the path to it. -/
theorem Exports.exists_open (h : body.Exports name id) :
    ∃ steps decl init, body.follow? id steps = some decl ∧ body.Declares decl name init ∧
      ∀ front mid, front <+: steps → body.follow? id front = some mid → ¬ body.IsBlock mid := by
  induction h with
  | @declare id node init hnode hexpr =>
    refine ⟨[], id, init, rfl, ⟨node, hnode, hexpr⟩, fun front mid hfront hmid => ?_⟩
    cases List.prefix_nil.1 hfront
    cases hmid
    rw [isBlock_iff hnode, hexpr]
    simp
  | @child id node child hnode hopen hchild _ ih =>
    obtain ⟨steps, decl, init, hsteps, hdeclares, hblocks⟩ := ih
    obtain ⟨i, hi⟩ := List.mem_iff_getElem?.1 hchild
    refine ⟨i :: steps, decl, init, follow?_cons_iff.2 ⟨node, child, hnode, hi, hsteps⟩,
      hdeclares, fun front mid hfront hmid => ?_⟩
    cases front with
    | nil =>
      cases hmid
      rwa [isBlock_iff hnode]
    | cons j front =>
      obtain ⟨rfl, hrest⟩ := List.cons_prefix_cons.1 hfront
      obtain ⟨node', child', hnode', hchild', hmid⟩ := follow?_cons_iff.1 hmid
      cases hnode.symm.trans hnode'
      cases hi.symm.trans hchild'
      exact hblocks front mid hrest hmid

/-- What is declared in blocks only is not exported. -/
theorem Enclosed.not_exports (h : body.Enclosed id) (hsingle : body.Single id) :
    ¬ body.Exports name id := by
  intro hexports
  obtain ⟨steps, decl, init, hsteps, hdeclares, hblocks⟩ := hexports.exists_open
  obtain ⟨front, block, hfront, hblock, step, more, hmore⟩ :=
    h steps decl name init hsteps hdeclares
  -- There is one path to the declaration, and it leads through the block.
  have hpath : steps = front ++ step :: more :=
    hsingle _ _ decl hsteps (follow?_trans hfront hmore)
  exact hblocks front block ⟨_, hpath.symm⟩ hfront hblock

/-! ## Names that are mentioned, and declared on the way -/

/-- The name is used at the node or below it. -/
def Mentions (body : Body) (id : NodeId) (name : String) : Prop :=
  ∃ steps var node, body.follow? id steps = some var ∧ body.node? var = some node ∧
    node.expr = .var name

/-- To the left of the path something exports the name, where of the children of the first node
only those from `start` on count. -/
def DeclaredLeft (body : Body) (name : String) : NodeId → (start : Nat) → List Nat → Prop
  | _, _, [] => False
  | id, start, step :: steps => ∃ node, body.node? id = some node ∧
    ((∃ child ∈ (node.expr.children.take step).drop start, body.Exports name child) ∨
      ∃ child, node.expr.children[step]? = some child ∧ body.DeclaredLeft name child 0 steps)

theorem DeclaredLeft.of_sibling {node : Node} {start step : Nat} {steps : List Nat} {left : NodeId}
    (hnode : body.node? id = some node)
    (hleft : left ∈ (node.expr.children.take step).drop start) (h : body.Exports name left) :
    body.DeclaredLeft name id start (step :: steps) :=
  ⟨node, hnode, .inl ⟨left, hleft, h⟩⟩

theorem DeclaredLeft.of_below {node : Node} {start step : Nat} {steps : List Nat} {child : NodeId}
    (hnode : body.node? id = some node) (hchild : node.expr.children[step]? = some child)
    (h : body.DeclaredLeft name child 0 steps) :
    body.DeclaredLeft name id start (step :: steps) :=
  ⟨node, hnode, .inr ⟨child, hchild, h⟩⟩

theorem DeclaredLeft.exists_exports {start : Nat} {steps : List Nat}
    (h : body.DeclaredLeft name id start steps) : ∃ left, body.Exports name left := by
  induction steps generalizing id start with
  | nil => exact h.elim
  | cons step steps ih =>
    obtain ⟨_, _, ⟨left, _, hexports⟩ | ⟨_, _, hbelow⟩⟩ := h
    · exact ⟨left, hexports⟩
    · exact ih hbelow

theorem Mentions.of_child {node : Node} {child : NodeId} (hnode : body.node? id = some node)
    (hchild : child ∈ node.expr.children) (h : body.Mentions child name) :
    body.Mentions id name := by
  obtain ⟨steps, var, node', hsteps, hvar⟩ := h
  obtain ⟨i, hi⟩ := List.mem_iff_getElem?.1 hchild
  exact ⟨i :: steps, var, node', follow?_cons_iff.2 ⟨node, child, hnode, hi, hsteps⟩, hvar⟩

end Body

/-! ## What a run depends on, and what it leaves behind -/

theorem Scope.get?_declare (scope : Scope) (name name' : String) (init : Resolved) :
    (scope.declare name init).get? name' =
      if name' = name then some init.asLocal else scope.get? name' :=
  NameTable.lookup_cons_ite name' (name, init.asLocal) scope

/-- A name that means the same before a node and after its children does so after the node. -/
theorem Expr.get?_scopeAfter (inputs : Expr Resolved) {before before' inside inside' : Scope}
    {name : String} (hbefore : before.get? name = before'.get? name)
    (hinside : inside.get? name = inside'.get? name) :
    (inputs.scopeAfter before inside).get? name =
      (inputs.scopeAfter before' inside').get? name := by
  cases inputs with
  | declare name' init =>
    show (inside.declare name' init).get? name = (inside'.declare name' init).get? name
    rw [Scope.get?_declare, Scope.get?_declare, hinside]
  | block stmts => exact hbefore
  | _ => exact hinside

namespace Context

variable {ctx : Context} {body : Body} {entries : List (List Nat × NodeId)}
  {before before' after : Scope} {values : List Resolved} {visits : List Visit} {name : String}

/-- The value of a node depends on the scope only if it is a variable. -/
theorem value_resolve_eq {inputs : Expr Resolved} {inside inside' : Scope}
    (h : ∀ name, inputs = .var name → inside.get? name = inside'.get? name) :
    (ctx.resolve inside inputs).value = (ctx.resolve inside' inputs).value := by
  cases inputs with
  | var name =>
    rw [resolve, resolve, resolveVar, resolveVar, h name rfl]
    cases inside'.get? name with
    | some value => rfl
    | none => cases ctx.bindings.get? name <;> rfl
  | alloc region shape => cases shape <;> rfl
  | _ => rfl

/-- A run goes the same way from any scope in which the names that its nodes mention mean the same.
A name that means the same before the runs does so after them. -/
theorem Run.exists_of_agree (h : ctx.Run body entries before values after visits)
    (hagree : ∀ name, (∃ e ∈ entries, body.Mentions e.2 name) →
      before.get? name = before'.get? name) :
    ∃ after' visits', ctx.Run body entries before' values after' visits' ∧
      ∀ name, before.get? name = before'.get? name → after.get? name = after'.get? name := by
  induction h generalizing before' with
  | nil => exact ⟨before', [], .nil before', fun _ => id⟩
  | @cons steps id rest node inputs before inside _ _ _ _ hnode halike hkids _ ihkids ihrest =>
    have hid : ∀ name, body.Mentions id name → before.get? name = before'.get? name :=
      fun name hname => hagree name ⟨_, List.mem_cons_self, hname⟩
    obtain ⟨inside', _, hkids', hinside⟩ := ihkids fun name ⟨e, he, hname⟩ => by
      obtain ⟨i, hchild, -⟩ := mem_siblings_iff.1 he
      exact hid name (hname.of_child hnode (List.mem_of_getElem? hchild))
    -- A variable is mentioned by its node. Any other node is made of its children alone.
    have hvalue : (ctx.resolve inside inputs).value = (ctx.resolve inside' inputs).value := by
      refine value_resolve_eq fun name hvar => hinside name (hid name ?_)
      rw [hvar] at halike
      generalize hexpr : node.expr = expr at halike
      cases halike
      exact ⟨[], id, node, rfl, hnode, hexpr⟩
    have hscope : ∀ name, before.get? name = before'.get? name →
        (inputs.scopeAfter before inside).get? name =
          (inputs.scopeAfter before' inside').get? name :=
      fun name hname => inputs.get?_scopeAfter hname (hinside name hname)
    obtain ⟨after', _, hrest', hafter⟩ := ihrest fun name ⟨e, he, hname⟩ =>
      hscope name (hagree name ⟨e, List.mem_cons_of_mem _ he, hname⟩)
    rw [hvalue]
    exact ⟨after', _, .cons hnode halike hkids' hrest', fun name hname =>
      hafter name (hscope name hname)⟩

/-- A run of nodes that do not export a name leaves its meaning as it is. -/
theorem Run.get?_eq (h : ctx.Run body entries before values after visits)
    (hnone : ∀ e ∈ entries, ¬ body.Exports name e.2) : after.get? name = before.get? name := by
  induction h with
  | nil => rfl
  | @cons steps id rest node inputs before inside _ _ _ _ hnode halike _ _ ihkids ihrest =>
    have hid : ¬ body.Exports name id := hnone _ List.mem_cons_self
    rw [ihrest fun e he => hnone e (List.mem_cons_of_mem _ he)]
    -- A block restores the scope. Any other node leaves what its children leave, or adds a name.
    by_cases hblock : ∃ stmts, node.expr = .block stmts
    · obtain ⟨stmts, rfl⟩ := halike.block_iff.1 hblock
      rfl
    · have hinside : inside.get? name = before.get? name := by
        refine ihkids fun e he hexports => hid ?_
        obtain ⟨i, hchild, -⟩ := mem_siblings_iff.1 he
        exact .child hnode hblock (List.mem_of_getElem? hchild) hexports
      rw [← hinside]
      generalize hexpr : node.expr = expr at halike
      cases halike with
      | @declare init _ name' =>
        have hne : name ≠ name' := by
          rintro rfl
          exact hid (.declare hnode hexpr)
        exact (Scope.get?_declare _ _ _ _).trans (if_neg hne)
      | block => exact absurd ⟨_, hexpr⟩ hblock
      | _ => rfl

/-! ## From one point of a run to a later one -/

theorem Comes.exists_parent {steps : List Nat} {i : Nat} {child : NodeId} {inside : Scope}
    (h : ctx.Comes body (steps ++ [i]) child inside) :
    ∃ id before node values visits, ctx.Comes body steps id before ∧ body.node? id = some node ∧
      node.expr.children[i]? = some child ∧
      ctx.Run body (siblings steps 0 (node.expr.children.take i)) before values inside visits := by
  generalize hpath : steps ++ [i] = path at h
  cases h with
  | root => exact absurd hpath (by simp)
  | child hcomes hnode hchild hrun =>
    obtain ⟨rfl, hlast⟩ := List.append_inj' hpath rfl
    cases hlast
    exact ⟨_, _, _, _, _, hcomes, hnode, hchild, hrun⟩

/-- One path leads to one point. -/
theorem Comes.unique {steps : List Nat} {id id' : NodeId} {scope scope' : Scope}
    (h : ctx.Comes body steps id scope) (h' : ctx.Comes body steps id' scope') :
    id = id' ∧ scope = scope' := by
  induction h generalizing id' scope' with
  | root =>
    generalize hpath : [] = path at h'
    cases h' with
    | root => exact ⟨rfl, rfl⟩
    | child => exact absurd hpath (by simp)
  | child _ hnode hchild hrun ih =>
    obtain ⟨_, _, _, _, _, hcomes', hnode', hchild', hrun'⟩ := h'.exists_parent
    obtain ⟨rfl, rfl⟩ := ih hcomes'
    cases hnode.symm.trans hnode'
    cases hchild.symm.trans hchild'
    exact ⟨rfl, (hrun.unique hrun' rfl).2⟩

theorem Comes.exists_prefix {steps more : List Nat} {id : NodeId} {scope : Scope}
    (h : ctx.Comes body (steps ++ more) id scope) :
    ∃ mid scope', ctx.Comes body steps mid scope' := by
  induction more using List.reverseRecOn generalizing id scope with
  | nil => exact ⟨id, scope, List.append_nil steps ▸ h⟩
  | append_singleton more i ih =>
    rw [← List.append_assoc] at h
    obtain ⟨_, _, _, _, _, hparent, -⟩ := h.exists_parent
    exact ih hparent

/-- From one child of a node to a later one a name keeps its meaning, if nothing in between exports
it. -/
theorem Comes.get?_eq_of_siblings {path : List Nat} {step start : Nat} {id child : NodeId}
    {node : Node} {scope inside : Scope} (hid : ctx.Comes body path id before)
    (hnode : body.node? id = some node)
    (hstart : ctx.Run body (siblings path 0 (node.expr.children.take start)) before values scope
      visits) (hle : start ≤ step) (hchild : ctx.Comes body (path ++ [step]) child inside)
    (hnone : ∀ left ∈ (node.expr.children.take step).drop start, ¬ body.Exports name left) :
    inside.get? name = scope.get? name := by
  obtain ⟨id', before', node', _, _, hid', hnode', -, hrun⟩ := hchild.exists_parent
  obtain ⟨rfl, rfl⟩ := hid.unique hid'
  cases hnode.symm.trans hnode'
  -- The run to the later child is the run up to `start`, and then one over the siblings between.
  have hsplit : node.expr.children.take step =
      node.expr.children.take start ++ (node.expr.children.take step).drop start := by
    conv_lhs => rw [← List.take_append_drop start (node.expr.children.take step),
      List.take_take, Nat.min_eq_left hle]
  rw [hsplit, siblings_append] at hrun
  obtain ⟨_, _, middle, _, _, -, hfront, hback⟩ := hrun.exists_split
  obtain ⟨-, rfl⟩ := hfront.unique hstart rfl
  refine hback.get?_eq fun e he => hnone e.2 ?_
  rw [← map_snd_siblings path (0 + (node.expr.children.take start).length)
    ((node.expr.children.take step).drop start)]
  exact List.mem_map_of_mem he

/-- From one child of a node to a later point below the node a name keeps its meaning, if nothing
to the left of the path declares it. Induction on the path. -/
theorem Comes.get?_eq {path steps : List Nat} {step start : Nat} {id later : NodeId} {node : Node}
    {scope scope' : Scope} (hid : ctx.Comes body path id before)
    (hnode : body.node? id = some node)
    (hstart : ctx.Run body (siblings path 0 (node.expr.children.take start)) before values scope
      visits) (hle : start ≤ step) (hlater : ctx.Comes body (path ++ step :: steps) later scope')
    (hnone : ¬ body.DeclaredLeft name id start (step :: steps)) :
    scope'.get? name = scope.get? name := by
  induction steps generalizing path id node before values scope visits start step with
  | nil =>
    exact hid.get?_eq_of_siblings hnode hstart hle hlater fun left hleft hexports =>
      hnone (.of_sibling hnode hleft hexports)
  | cons next rest ih =>
    rw [List.append_cons] at hlater
    obtain ⟨child, inside, hchild⟩ := hlater.exists_prefix
    have hinside := hid.get?_eq_of_siblings hnode hstart hle hchild fun left hleft hexports =>
      hnone (.of_sibling hnode hleft hexports)
    obtain ⟨id', before', node', _, _, hid', hnode', hget, -⟩ := hchild.exists_parent
    obtain ⟨rfl, rfl⟩ := hid.unique hid'
    cases hnode.symm.trans hnode'
    -- The path goes on below the child, so the child has a node.
    have hrest : body.follow? child (next :: rest) = some later := by
      have hpath := hlater.follow?
      rwa [Body.follow?_append, hchild.follow?] at hpath
    obtain ⟨childNode, _, hchildNode, -⟩ := Body.follow?_cons_iff.1 hrest
    rw [← hinside]
    exact ih hchild hchildNode (.nil inside) (Nat.zero_le next) hlater fun hleft =>
      hnone (.of_below hnode hget hleft)

end Context

/-! ## Reports -/

namespace Report

variable {ctx : Context} {body : Body} {report : Report}

/-- The level of the node that a path leads to. -/
def levelAt? (report : Report) (body : Body) (steps : List Nat) : Option Level :=
  (body.follow? body.root steps).bind report.level?

/-- A path that passes no cut leads to one level in both bodies, or to no node in either. -/
theorem levelAt?_eq_of_matched {body' : Body} {report' : Report} {Cut : List Nat → Prop}
    (hmatched : Subtree.Matched Cut body.whole body'.whole) (hcheck : body.check ctx = .ok report)
    (hcheck' : body'.check ctx = .ok report') {steps : List Nat}
    (houtside : Subtree.Outside Cut steps) :
    report.levelAt? body steps = report'.levelAt? body' steps := by
  unfold levelAt?
  cases hid : body.follow? body.root steps with
  | some id =>
    obtain ⟨id', hid'⟩ := hmatched.same.exists_follow? houtside hid
    have hverdict := verdict?_eq_of_matched hmatched hcheck hcheck' houtside hid hid'
    have hid' : body'.follow? body'.root steps = some id' := hid'
    rw [hid', Option.bind_some, Option.bind_some, level?, level?, hverdict]
  | none =>
    cases hid' : body'.follow? body'.root steps with
    | none => rfl
    | some id' =>
      obtain ⟨id, hsome⟩ := hmatched.same.symm.exists_follow? houtside hid'
      exact absurd (hid.symm.trans hsome) (by simp)

/-- The run comes to each node of an accepted body, and from there to its value. -/
theorem exists_run_at (hcheck : body.check ctx = .ok report) {steps : List Nat} {id : NodeId}
    (hsteps : body.follow? body.root steps = some id) :
    ∃ before value after visits, ctx.Comes body steps id before ∧
      ctx.Run body [(steps, id)] before [value] after visits ∧
      report.value? id = some value := by
  obtain ⟨htree, -⟩ := Context.run_of_check hcheck
  obtain ⟨node, hnode⟩ := Option.isSome_iff_exists.1
    (body.contains_eq_isSome id ▸ htree.contains_of_follow? hsteps)
  obtain ⟨before, inside, inputs, hcomes, hrel, ⟨_, hkids⟩, hverdict⟩ :=
    exists_resolve hcheck hsteps hnode rfl
  exact ⟨before, _, _, _, hcomes, .single hnode hrel.alike hkids, by rw [value?, hverdict]; rfl⟩

/-- A tree that occurs at two points has one value at both, if the names that it mentions mean the
same there. -/
theorem value?_eq_of_same (hcheck : body.check ctx = .ok report) {path path' : List Nat}
    {id id' : NodeId} {before before' : Scope} (hid : ctx.Comes body path id before)
    (hid' : ctx.Comes body path' id' before')
    (hsame : Subtree.SameBut (fun _ => False) ⟨body, path, id⟩ ⟨body, path', id'⟩)
    (hagree : ∀ name, body.Mentions id name → before.get? name = before'.get? name) :
    report.value? id' = report.value? id := by
  obtain ⟨_, value, _, _, hcomes, hrun, hvalue⟩ := exists_run_at hcheck hid.follow?
  obtain ⟨_, value', _, _, hcomes', hrun', hvalue'⟩ := exists_run_at hcheck hid'.follow?
  obtain ⟨-, rfl⟩ := hid.unique hcomes
  obtain ⟨-, rfl⟩ := hid'.unique hcomes'
  -- The first tree has its value from the names at the second point too, and from there the two
  -- trees go in step.
  obtain ⟨_, _, hmoved, -⟩ := hrun.exists_of_agree fun name ⟨e, he, hname⟩ => by
    cases List.mem_singleton.1 he
    exact hagree name hname
  have hentries : Opposite (fun _ => False) ⟨body, path, id⟩ ⟨body, path', id'⟩ (path, id)
      (path', id') :=
    ⟨[], (List.append_nil path).symm, (List.append_nil path').symm, rfl, rfl,
      .inr fun _ _ => not_false⟩
  obtain ⟨hvalues, -⟩ := hmoved.twins hsame.matched Subtree.keeps_true Subtree.keeps_true hrun'
    (.cons hentries .nil)
  have hhead : some value = some value' :=
    hvalues 0 [] id (congrArg (fun steps => some (steps, id)) (List.append_nil path).symm) not_false
  rw [hvalue, hvalue', hhead]

theorem level?_eq (report : Report) (id : NodeId) :
    report.level? id = (report.value? id).map Resolved.level := by
  rw [value?, Option.map_map]
  rfl

/-- The first child of a child of a node, and a later place below the node at which the same tree
lies, have one level, if no name that the tree mentions is declared on the way. -/
theorem level?_eq_of_later (hcheck : body.check ctx = .ok report) {above below : List Nat}
    {i j : Nat} {id target later : NodeId} (hid : body.follow? body.root above = some id)
    (htarget : body.follow? id [i, 0] = some target) (hij : i ≤ j)
    (hlater : body.follow? id (j :: below) = some later)
    (hsame : Subtree.SameBut (fun _ => False) ⟨body, above ++ [i, 0], target⟩
      ⟨body, above ++ j :: below, later⟩)
    (hnone : ∀ name, body.Mentions target name → ¬ body.DeclaredLeft name id i (j :: below)) :
    report.level? later = report.level? target := by
  obtain ⟨_, _, _, _, hcomes, -⟩ := exists_run_at hcheck (Body.follow?_trans hid htarget)
  obtain ⟨_, _, _, _, hcomes', -⟩ := exists_run_at hcheck (Body.follow?_trans hid hlater)
  have hfirst := hcomes
  rw [List.append_cons above i [0]] at hfirst
  obtain ⟨_, _, _, _, _, hchild, -, -, hnothing⟩ := hfirst.exists_parent
  obtain ⟨id', _, node, _, _, hparent, hnode, -, hrun⟩ := hchild.exists_parent
  cases hparent.follow?.symm.trans hid
  -- Nothing is evaluated between the child and its own first child.
  rw [List.take_zero, siblings_nil] at hnothing
  cases hnothing
  have hvalue := value?_eq_of_same hcheck hcomes hcomes' hsame fun name hname =>
    (hparent.get?_eq hnode hrun hij hcomes' (hnone name hname)).symm
  rw [level?_eq, level?_eq, hvalue]

end Report

/-! ## The headline -/

/-- The bodies are one tree, but for one statement of a block that is not the last one. In both,
what this statement declares it declares in blocks of its own. -/
structure OneStatementApart (first second : Body) (above : List Nat) (i : Nat) : Prop where
  same : first.whole.SameBut (· = above ++ [i]) second.whole
  spans : first.whole.SameSpans (· = above ++ [i]) second.whole
  inner : ∃ block node stmts, first.follow? first.root above = some block ∧
    first.node? block = some node ∧ node.expr = .block stmts ∧ i + 1 < stmts.length
  enclosed : ∀ id, first.follow? first.root (above ++ [i]) = some id → first.Enclosed id
  enclosed_right : ∀ id, second.follow? second.root (above ++ [i]) = some id → second.Enclosed id

theorem OneStatementApart.matched {first second : Body} {above : List Nat} {i limit : Nat}
    (h : OneStatementApart first second above i) (htree : first.IsTree limit)
    (htree' : second.IsTree limit) :
    Subtree.Matched (· = above ++ [i]) first.whole second.whole where
  same := h.same
  inner := by
    intro steps j id node hcut hid hnode
    obtain ⟨rfl, hlast⟩ := List.append_inj' hcut rfl
    cases hlast
    obtain ⟨block, node', stmts, hblock, hnode', hexpr, hlt⟩ := h.inner
    cases hblock.symm.trans hid
    cases hnode'.symm.trans hnode
    exact ⟨stmts, hexpr, hlt⟩
  closed := by
    rintro _ id name rfl hid
    exact (h.enclosed id hid).not_exports (htree.single_of_reaches ⟨_, hid⟩)
  closed_right := by
    rintro _ id name rfl hid
    exact (h.enclosed_right id hid).not_exports (htree'.single_of_reaches ⟨_, hid⟩)

theorem Subtree.outside_eq_iff {cut steps : List Nat} :
    Outside (· = cut) steps ↔ ¬ cut <+: steps :=
  ⟨fun h hprefix => h cut hprefix rfl, fun h _ hprefix heq => h (heq ▸ hprefix)⟩

/-- **Statements that export nothing are independent.** If two accepted bodies differ in one
statement only, which is not the last one of its block and has all its declarations in blocks of its
own, then the findings outside this statement are the same, in the same order, and so are the levels
outside it. An assignment in particular leaves its target as it is: where the target occurs again in
a later statement of the block, and none of its names has been declared on the way, it has the level
that it had. -/
theorem closed_statement_unnoticed (ctx : Context) :
    (∀ first second above i, OneStatementApart first second above i →
      first.validate ctx.config.maxDepth = .ok () → second.validate ctx.config.maxDepth = .ok () →
      ∃ report report', first.check ctx = .ok report ∧ second.check ctx = .ok report' ∧
        List.Forall₂ (Finding.Twin first second)
          (report.findings.filter fun finding => ¬ above ++ [i] <+: finding.path.positions)
          (report'.findings.filter fun finding => ¬ above ++ [i] <+: finding.path.positions) ∧
        ∀ steps, ¬ above ++ [i] <+: steps →
          report.levelAt? first steps = report'.levelAt? second steps) ∧
    ∀ (body : Body) report above block node stmts i assign assignment target value mode j below
      later, body.check ctx = .ok report →
      body.follow? body.root above = some block → body.node? block = some node →
      node.expr = .block stmts → stmts[i]? = some assign → body.node? assign = some assignment →
      assignment.expr = .assign target value mode →
      i < j → body.follow? block (j :: below) = some later →
      Subtree.SameBut (fun _ => False) ⟨body, above ++ [i, 0], target⟩
        ⟨body, above ++ j :: below, later⟩ →
      (∀ name, body.Mentions target name → ¬ body.DeclaredLeft name block i (j :: below)) →
      report.level? later = report.level? target := by
  constructor
  · intro first second above i h hvalid hvalid'
    have htree : first.IsTree ctx.config.maxDepth := Body.isTree_of_validate hvalid
    have htree' : second.IsTree ctx.config.maxDepth := Body.isTree_of_validate hvalid'
    obtain ⟨report, _, _, hcheck, -⟩ := Context.exists_check htree
    obtain ⟨report', _, _, hcheck', -⟩ := Context.exists_check htree'
    have hmatched := h.matched htree htree'
    refine ⟨report, report', hcheck, hcheck', ?_, fun steps hsteps => ?_⟩
    · refine Report.twin_findings (fun path => ¬ above ++ [i] <+: path.positions) hmatched h.spans
        (fun path => ?_) hcheck hcheck'
      rw [Subtree.outside_eq_iff, decide_eq_true_iff]
    · exact Report.levelAt?_eq_of_matched hmatched hcheck hcheck' (Subtree.outside_eq_iff.2 hsteps)
  · intro body report above block node stmts i assign assignment target value mode j below later
      hcheck hblock hnode hexpr hassign hassignment hassigns hij hlater hsame hnone
    have htarget : body.follow? block [i, 0] = some target := by
      refine Body.follow?_cons_iff.2 ⟨node, assign, hnode, hexpr ▸ hassign, ?_⟩
      exact Body.follow?_cons_iff.2 ⟨assignment, target, hassignment, by rw [hassigns]; rfl, rfl⟩
    exact Report.level?_eq_of_later hcheck hblock htarget (Nat.le_of_lt hij) hlater hsame hnone

/-- `{ x = y; return x }` -/
def assignBody : Body where
  name := "assign"
  nodes := #[⟨.var "x", ⟨2, 3⟩⟩, ⟨.var "y", ⟨6, 7⟩⟩, ⟨.assign ⟨0⟩ ⟨1⟩ .value, ⟨2, 7⟩⟩,
    ⟨.var "x", ⟨16, 17⟩⟩, ⟨.ret ⟨3⟩ .value, ⟨9, 17⟩⟩, ⟨.block [⟨2⟩, ⟨4⟩], ⟨0, 19⟩⟩]
  root := ⟨5⟩

/-- `{ { let x = 1 }; return x }`, with the return at the same place in the source. -/
def nestedBody : Body where
  name := "nested"
  nodes := #[⟨.block [⟨3⟩, ⟨1⟩], ⟨0, 19⟩⟩, ⟨.ret ⟨2⟩ .value, ⟨9, 17⟩⟩, ⟨.var "x", ⟨16, 17⟩⟩,
    ⟨.block [⟨4⟩], ⟨2, 7⟩⟩, ⟨.declare "x" ⟨5⟩, ⟨3, 6⟩⟩, ⟨.literal, ⟨5, 6⟩⟩]
  root := ⟨0⟩

/-- A parameter by reference and a local, neither of which may leave the frame. -/
def assignContext : Context where
  bindings := .ofList [("x", ⟨.stackOnly, true, none⟩), ("y", ⟨.stackOnly, false, none⟩)]
  shapes := .ofList []
  config := {}

theorem validate_assignBody :
    assignBody.validate assignContext.config.maxDepth = .ok () := by
  show assignBody.validate 512 = .ok ()
  cbv

theorem not_declares_assignBody (decl : NodeId) (name : String) (init : NodeId) :
    ¬ assignBody.Declares decl name init := by
  rintro ⟨node, hnode, hexpr⟩
  have hmem : node ∈ assignBody.nodes := Array.mem_of_getElem? hnode
  simp only [assignBody, List.mem_toArray, List.mem_cons, List.not_mem_nil, or_false] at hmem
  rcases hmem with rfl | rfl | rfl | rfl | rfl | rfl <;> cases hexpr

/-- The paths in the first body that do not lead into its first statement. -/
theorem outside_assignBody {steps : List Nat} {id : NodeId}
    (h : assignBody.follow? assignBody.root steps = some id) (hsteps : ¬ [0] <+: steps) :
    steps = [] ∨ steps = [1] ∨ steps = [1, 0] := by
  obtain ⟨report, _, _, hcheck, -⟩ :=
    Context.exists_check (Body.isTree_of_validate validate_assignBody)
  have hpaths : (assignBody.check assignContext).map (·.visits.map (·.path.positions)) =
      .ok [[0, 0], [0, 1], [0], [1, 0], [1], []] := by cbv
  obtain ⟨w, hw, -, rfl⟩ := Report.exists_visit_at hcheck h
  have hmem : w.path.positions ∈ report.visits.map (·.path.positions) := List.mem_map_of_mem hw
  rw [Report.eq_of_map_check hcheck hpaths] at hmem
  generalize w.path.positions = steps at hmem hsteps
  revert hsteps
  fin_cases hmem <;> simp

theorem apart_assignBody : OneStatementApart assignBody nestedBody [] 0 := by
  have hpaths : ∀ {steps id id'}, Subtree.Outside (· = [0]) steps →
      assignBody.whole.follow? steps = some id → nestedBody.whole.follow? steps = some id' →
      id = ⟨5⟩ ∧ id' = ⟨0⟩ ∨ id = ⟨4⟩ ∧ id' = ⟨1⟩ ∨ id = ⟨3⟩ ∧ id' = ⟨2⟩ := by
    intro steps id id' houtside hid hid'
    rcases outside_assignBody hid (Subtree.outside_eq_iff.1 houtside) with rfl | rfl | rfl
    · exact .inl ⟨(Option.some.inj hid).symm, (Option.some.inj hid').symm⟩
    · exact .inr (.inl ⟨(Option.some.inj hid).symm, (Option.some.inj hid').symm⟩)
    · exact .inr (.inr ⟨(Option.some.inj hid).symm, (Option.some.inj hid').symm⟩)
  constructor
  case same =>
    intro steps id id' houtside hid hid'
    rcases hpaths houtside hid hid' with ⟨rfl, rfl⟩ | ⟨rfl, rfl⟩ | ⟨rfl, rfl⟩
    · exact .some (.block (.cons trivial (.cons trivial .nil)))
    · exact .some (.ret trivial .value)
    · exact .some (.var "x")
  case spans =>
    intro steps id id' houtside hid hid'
    rcases hpaths houtside hid hid' with ⟨rfl, rfl⟩ | ⟨rfl, rfl⟩ | ⟨rfl, rfl⟩ <;> rfl
  case inner => exact ⟨⟨5⟩, _, [⟨2⟩, ⟨4⟩], rfl, rfl, rfl, by decide⟩
  case enclosed =>
    intro id _ steps decl name init _ hdeclares
    exact absurd hdeclares (not_declares_assignBody decl name init)
  case enclosed_right =>
    intro id hid
    cases Option.some.inj hid
    exact Body.enclosed_of_isBlock ⟨_, [⟨4⟩], rfl, rfl⟩

/-- The store is reported in the first body only, the return in both. The `x` that is returned is as
safe as the one that is assigned to. -/
theorem closed_statement_unnoticed_at_assignment :
    ∃ report report', assignBody.check assignContext = .ok report ∧
      nestedBody.check assignContext = .ok report' ∧
      report.findings.map (·.path.positions) = [[0], [1]] ∧
      (report'.findings.filter fun finding => ¬ [0] <+: finding.path.positions).map
        (·.path.positions) = [[1]] ∧
      report.levelAt? assignBody [1, 0] = report'.levelAt? nestedBody [1, 0] ∧
      report.level? ⟨3⟩ = report.level? ⟨0⟩ := by
  have hvalid : nestedBody.validate assignContext.config.maxDepth = .ok () := by
    show nestedBody.validate 512 = .ok ()
    cbv
  obtain ⟨hbodies, htarget⟩ := closed_statement_unnoticed assignContext
  obtain ⟨report, report', hcheck, hcheck', hfindings, hlevels⟩ :=
    hbodies assignBody nestedBody [] 0 apart_assignBody validate_assignBody hvalid
  have hpaths : (assignBody.check assignContext).map (·.findings.map (·.path.positions)) =
      .ok [[0], [1]] := by cbv
  have hfound : report.findings.map (·.path.positions) = [[0], [1]] :=
    Report.eq_of_map_check hcheck hpaths
  refine ⟨report, report', hcheck, hcheck', hfound, ?_, hlevels [1, 0] (by decide), ?_⟩
  · have htwins : (report.findings.filter fun finding => ¬ [0] <+: finding.path.positions).map
        (·.path.positions) =
          (report'.findings.filter fun finding => ¬ [0] <+: finding.path.positions).map
            (·.path.positions) :=
      map_eq_of_rel hfindings fun htwin => congrArg Path.positions htwin.path_eq
    have houtside : (report.findings.filter fun finding => ¬ [0] <+: finding.path.positions).map
        (·.path.positions) =
          (report.findings.map (·.path.positions)).filter fun steps => ¬ [0] <+: steps := by
      rw [List.filter_map]
      rfl
    rw [← htwins, houtside, hfound]
    decide
  · have hsame : Subtree.SameBut (fun _ => False) ⟨assignBody, [0, 0], ⟨0⟩⟩
        ⟨assignBody, [1, 0], ⟨3⟩⟩ := by
      intro steps id id' _ hid hid'
      cases steps with
      | nil =>
        cases hid
        cases hid'
        exact .some (.var "x")
      | cons step steps =>
        obtain ⟨node, child, hnode, hchild, -⟩ := Body.follow?_cons_iff.1 hid
        cases hnode
        have hnone : ([] : List NodeId)[step]? = some child := hchild
        exact absurd hnone (by simp)
    refine htarget assignBody report [] ⟨5⟩ _ [⟨2⟩, ⟨4⟩] 0 ⟨2⟩ _ ⟨0⟩ ⟨1⟩ .value 1 [0] ⟨3⟩ hcheck rfl
      rfl rfl rfl rfl rfl (by decide) rfl hsame fun name _ hleft => ?_
    obtain ⟨left, hexports⟩ := hleft.exists_exports
    obtain ⟨_, decl, init, -, hdeclares, -⟩ := hexports.exists_open
    exact not_declares_assignBody decl name init hdeclares

end FrameEscape
