import FrameEscape.Proofs.Check.Report
import Mathlib.Data.List.Induction

/-!
# Names in scope

The names in scope at a node are said in terms of the tree alone. A node exports the names
declared below it that no block in between forgets (`Body.Exports`), and a name is visible at
the end of a path if something to the left of the path exports it (`Body.Visible`).

* **`Context.Run.mem_names_iff`**: a run adds the names that its nodes export.
* **`Context.Comes.mem_names_iff`**: the run comes to a node with the visible names in scope.
* **`Scope.Local`**: every name in scope stands for a local of this frame.
-/

namespace FrameEscape

/-! ## Exported and visible names -/

namespace Body

/-- The name is declared below the node or by it, and no block from there up to the node
forgets it. -/
inductive Exports (body : Body) (name : String) : NodeId → Prop where
  | declare {id node init} (hnode : body.node? id = some node)
      (hexpr : node.expr = .declare name init) : Exports body name id
  | child {id node child} (hnode : body.node? id = some node)
      (hopen : ¬ ∃ stmts, node.expr = .block stmts) (hchild : child ∈ node.expr.children)
      (hexports : Exports body name child) : Exports body name id

/-- Some node on the path has an earlier sibling that exports the name. -/
def Visible (body : Body) (name : String) (steps : List Nat) : Prop :=
  ∃ above i below parent node child, steps = above ++ i :: below ∧
    body.follow? body.root above = some parent ∧ body.node? parent = some node ∧
    child ∈ node.expr.children.take i ∧ body.Exports name child

variable {body : Body} {name : String}

theorem exports_iff {id : NodeId} {node : Node} (hnode : body.node? id = some node) :
    body.Exports name id ↔ (∃ init, node.expr = .declare name init) ∨
      (¬ ∃ stmts, node.expr = .block stmts) ∧
        ∃ child ∈ node.expr.children, body.Exports name child := by
  constructor
  · intro h
    cases h with
    | declare hnode' hexpr =>
      cases hnode.symm.trans hnode'
      exact .inl ⟨_, hexpr⟩
    | child hnode' hopen hchild hexports =>
      cases hnode.symm.trans hnode'
      exact .inr ⟨hopen, _, hchild, hexports⟩
  · rintro (⟨init, hexpr⟩ | ⟨hopen, child, hchild, hexports⟩)
    · exact .declare hnode hexpr
    · exact .child hnode hopen hchild hexports

theorem not_visible_root : ¬ body.Visible name [] := by
  rintro ⟨above, i, below, _, _, _, hsteps, -⟩
  exact absurd hsteps.symm (List.append_ne_nil_of_right_ne_nil _ (List.cons_ne_nil _ _))

/-- One step down the earlier siblings of the child come into view. -/
theorem visible_concat_iff {steps : List Nat} {id : NodeId} {node : Node} {i : Nat}
    (hsteps : body.follow? body.root steps = some id) (hnode : body.node? id = some node) :
    body.Visible name (steps ++ [i]) ↔ body.Visible name steps ∨
      ∃ child ∈ node.expr.children.take i, body.Exports name child := by
  constructor
  · rintro ⟨above, j, below, parent, node', child, heq, habove, hparent, hchild, hexports⟩
    cases below using List.reverseRecOn with
    | nil =>
      -- The last step is the one to the child.
      obtain ⟨rfl, hlast⟩ := List.append_inj' heq rfl
      cases hlast
      cases habove.symm.trans hsteps
      cases hparent.symm.trans hnode
      exact .inr ⟨child, hchild, hexports⟩
    | append_singleton below last =>
      rw [← List.cons_append, ← List.append_assoc] at heq
      obtain ⟨rfl, -⟩ := List.append_inj' heq rfl
      exact .inl ⟨above, j, below, parent, node', child, rfl, habove, hparent, hchild, hexports⟩
  · rintro (⟨above, j, below, parent, node', child, rfl, hrest⟩ | ⟨child, hchild, hexports⟩)
    · refine ⟨above, j, below ++ [i], parent, node', child, ?_, hrest⟩
      rw [List.append_assoc, List.cons_append]
    · exact ⟨steps, i, [], id, node, child, rfl, hsteps, hnode, hchild, hexports⟩

end Body

/-! ## The names that a run adds -/

theorem Expr.Alike.declare_iff {α β : Type} {expr : Expr α} {expr' : Expr β}
    (h : expr.Alike expr') {name : String} :
    (∃ init, expr = .declare name init) ↔ ∃ init, expr' = .declare name init := by
  cases h <;> simp

theorem Expr.Alike.block_iff {α β : Type} {expr : Expr α} {expr' : Expr β}
    (h : expr.Alike expr') : (∃ stmts, expr = .block stmts) ↔ ∃ stmts, expr' = .block stmts := by
  cases h <;> simp

theorem mem_names_scopeAfter_iff {inputs : Expr Resolved} {before inside : Scope}
    {name : String} :
    name ∈ (inputs.scopeAfter before inside).names ↔
      (∃ init, inputs = .declare name init) ∨
        (∃ stmts, inputs = .block stmts) ∧ name ∈ before.names ∨
        (¬ ∃ stmts, inputs = .block stmts) ∧ name ∈ inside.names := by
  cases inputs <;> simp [Expr.scopeAfter, Scope.names, Scope.declare, eq_comm]

namespace Context

variable {ctx : Context} {body : Body} {entries : List (List Nat × NodeId)}
  {before after : Scope} {values : List Resolved} {visits : List Visit} {name : String}

/-- A run adds the names that its nodes export. -/
theorem Run.mem_names_iff (h : ctx.Run body entries before values after visits) :
    name ∈ after.names ↔ name ∈ before.names ∨ ∃ e ∈ entries, body.Exports name e.2 := by
  induction h with
  | nil => simp
  | @cons steps id rest node inputs before inside _ _ _ _ hnode halike _ _ ihkids ihrest =>
    have hkids : name ∈ inside.names ↔ name ∈ before.names ∨
        ∃ child ∈ node.expr.children, body.Exports name child := by
      rw [ihkids, exists_mem_siblings_iff]
    have hself : name ∈ (inputs.scopeAfter before inside).names ↔
        name ∈ before.names ∨ body.Exports name id := by
      rw [mem_names_scopeAfter_iff, Body.exports_iff hnode, hkids,
        halike.declare_iff, halike.block_iff]
      -- A block restores the names before it; nothing else takes one away.
      by_cases hblock : ∃ stmts, inputs = .block stmts
      · simp only [hblock, true_and, not_true_eq_false, false_and, or_false]
        rw [or_comm]
      · simp only [hblock, false_and, not_false_eq_true, true_and, false_or]
        rw [or_left_comm]
    rw [ihrest, hself, or_assoc]
    simp

/-- A run of nodes that declare nothing leaves the scope as it is. -/
theorem Run.scope_eq (h : ctx.Run body entries before values after visits)
    (hnone : ∀ e ∈ entries, ∀ name, ¬ body.Exports name e.2) : after = before := by
  induction h with
  | nil => rfl
  | @cons steps id rest node inputs before inside _ _ _ _ hnode halike hkids _ ihkids ihrest =>
    have hid : ∀ name, ¬ body.Exports name id := hnone _ List.mem_cons_self
    rw [ihrest fun e he => hnone e (List.mem_cons_of_mem _ he)]
    -- A block restores the scope. Any other node declares what its children declare.
    by_cases hblock : ∃ stmts, node.expr = .block stmts
    · obtain ⟨stmts, rfl⟩ := halike.block_iff.1 hblock
      rfl
    · have hinside : inside = before := by
        refine ihkids fun e he name hexports => hid name ?_
        obtain ⟨step, hchild, -⟩ := mem_siblings_iff.1 he
        exact .child hnode hblock (List.mem_of_getElem? hchild) hexports
      subst hinside
      generalize hexpr : node.expr = expr at halike
      cases halike with
      | declare name => exact absurd (.declare hnode hexpr) (hid name)
      | _ => rfl

/-- The run comes to a node with the visible names in scope. -/
theorem Comes.mem_names_iff {steps : List Nat} {id : NodeId} {scope : Scope}
    (h : ctx.Comes body steps id scope) : name ∈ scope.names ↔ body.Visible name steps := by
  induction h with
  | root => simp [Scope.names, Body.not_visible_root]
  | child hcomes hnode _ hrun ih =>
    rw [hrun.mem_names_iff, exists_mem_siblings_iff, ih,
      Body.visible_concat_iff hcomes.follow? hnode]

/-- A variable has no children, so the names in scope are those that the run came with. -/
theorem Behind.mem_names_iff_of_var {R : NodeId → Resolved → Prop} {w : Visit} {steps : List Nat}
    {node : Node} {inside : Scope} {var : String}
    (h : ctx.Behind body R w steps node before inside (.var var)) :
    name ∈ inside.names ↔ body.Visible name steps := by
  obtain ⟨_, hkids⟩ := h.kids
  have hchildren : node.expr.children = [] := List.forall₂_nil_right_iff.1 h.rel.children
  rw [hchildren] at hkids
  cases hkids
  exact h.comes.mem_names_iff

end Context

/-! ## Locals -/

/-- Every name stands for a local of this frame, or is poisoned. -/
def Scope.Local (scope : Scope) : Prop := ∀ e ∈ scope, e.2.asLocal = e.2

theorem Resolved.asLocal_asLocal (value : Resolved) : value.asLocal.asLocal = value.asLocal := by
  cases value <;> rfl

theorem Scope.Local.scopeAfter {inputs : Expr Resolved} {before inside : Scope}
    (hbefore : before.Local) (hinside : inside.Local) :
    (inputs.scopeAfter before inside).Local := by
  cases inputs with
  | declare name init =>
    intro e he
    rcases List.mem_cons.1 he with rfl | he
    · exact Resolved.asLocal_asLocal init
    · exact hinside e he
  | block _ => exact hbefore
  | _ => exact hinside

namespace Context

variable {ctx : Context} {body : Body} {entries : List (List Nat × NodeId)}
  {before after : Scope} {values : List Resolved} {visits : List Visit}

theorem Run.isLocal (h : ctx.Run body entries before values after visits)
    (hbefore : before.Local) : after.Local := by
  induction h with
  | nil => exact hbefore
  | cons _ _ _ _ ihkids ihrest => exact ihrest (hbefore.scopeAfter (ihkids hbefore))

theorem Comes.isLocal {steps : List Nat} {id : NodeId} {scope : Scope}
    (h : ctx.Comes body steps id scope) : scope.Local := by
  induction h with
  | root => exact fun e he => absurd he List.not_mem_nil
  | child _ _ _ hrun ih => exact hrun.isLocal ih

end Context

/-! ## Variables -/

theorem Scope.get?_eq_none_iff {scope : Scope} {name : String} :
    scope.get? name = none ↔ name ∉ scope.names := by
  rw [Scope.get?, Scope.names, List.lookup_eq_none_iff, List.mem_map]
  constructor
  · rintro hnone ⟨e, he, rfl⟩
    exact absurd (hnone e he) (by simp)
  · intro hnone e he
    exact bne_iff_ne.2 fun heq => hnone ⟨e, he, heq.symm⟩

theorem Scope.mem_of_get? {scope : Scope} {name : String} {value : Resolved}
    (h : scope.get? name = some value) : (name, value) ∈ scope := by
  obtain ⟨_, _, rfl, -⟩ := List.lookup_eq_some_iff.1 h
  simp

namespace Report

variable {ctx : Context} {body : Body} {report : Report} {steps : List Nat} {id : NodeId}
  {node : Node} {name : String}

/-- A variable means the innermost of the visible declarations, which is a local, or else what
its name is bound to. -/
theorem exists_resolveVar (hcheck : body.check ctx = .ok report)
    (hsteps : body.follow? body.root steps = some id) (hnode : body.node? id = some node)
    (hexpr : node.expr = .var name) :
    ∃ scope : Scope, (∀ x, x ∈ scope.names ↔ body.Visible x steps) ∧ scope.Local ∧
      report.verdict? id = some (ctx.resolveVar scope name) := by
  obtain ⟨before, inside, inputs, hcomes, hrel, ⟨visits, hkids⟩, hverdict⟩ :=
    exists_resolve hcheck hsteps hnode hexpr
  cases hrel
  cases hkids
  exact ⟨before, fun x => hcomes.mem_names_iff, hcomes.isLocal, hverdict⟩

/-- A variable that a declaration captures is a local, or poisoned. -/
theorem value?_var_of_visible (hcheck : body.check ctx = .ok report)
    (hsteps : body.follow? body.root steps = some id) (hnode : body.node? id = some node)
    (hexpr : node.expr = .var name) (hvisible : body.Visible name steps) :
    ∃ value, report.value? id = some value ∧ value.asLocal = value := by
  obtain ⟨scope, hnames, hlocal, hverdict⟩ := exists_resolveVar hcheck hsteps hnode hexpr
  have hmem : name ∈ scope.names := (hnames name).2 hvisible
  cases hget : scope.get? name with
  | none => exact absurd hmem (Scope.get?_eq_none_iff.1 hget)
  | some value =>
    refine ⟨value, ?_, hlocal _ (Scope.mem_of_get? hget)⟩
    rw [value?, hverdict, Context.resolveVar, hget]
    rfl

/-- A variable that no declaration captures means what it is bound to. -/
theorem value?_var_of_binding (hcheck : body.check ctx = .ok report)
    (hsteps : body.follow? body.root steps = some id) (hnode : body.node? id = some node)
    (hexpr : node.expr = .var name) (hvisible : ¬ body.Visible name steps) {binding : Binding}
    (hbinding : ctx.bindings.get? name = some binding) :
    report.value? id = some (.ofBinding binding) := by
  obtain ⟨scope, hnames, -, hverdict⟩ := exists_resolveVar hcheck hsteps hnode hexpr
  have hget : scope.get? name = none :=
    Scope.get?_eq_none_iff.2 fun hmem => hvisible ((hnames name).1 hmem)
  rw [value?, hverdict, Context.resolveVar, hget, hbinding]
  rfl

end Report

end FrameEscape
