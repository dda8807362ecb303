import FrameEscape.Proofs.Check.MixingSwitch
import FrameEscape.Proofs.Check.Statements

/-!
# Another name at one node

A node that looks a name up may be given another name. Nothing is evaluated differently before that,
so the node is resolved from the same values and the same names in scope as it was, with the new
name in place of the old one.

* **`Context.Run.respell`**: a run that stays away from the node is a run of the respelled body.
* **`Body.IsTree.respell`**: the respelled body is a tree if the body is.
* **`Report.verdict?_respell`**: the verdict of the node in the respelled body.
* **`Context.misses_or_judges`**: a problem at a node is a look-up that failed, of which there are a
  few by the kind of the node (`Context.Misses`), or what a check of known values found
  (`Config.Judges`).
* **`Context.Repairs.of_found`**: a name with which the node has none of them repairs it.
-/

namespace FrameEscape

/-- The expression with another name, if it looks one up. -/
def Expr.respell {α : Type} (expr : Expr α) (name : String) : Expr α :=
  match expr with
  | .alloc region (some _) => .alloc region (some name)
  | .var _ => .var name
  | .field base _ => .field base name
  | .call receiver _ args => .call receiver name args
  | .construct _ args => .construct name args
  | expr => expr

/-- The body with another name at a node, if the node looks one up. -/
def Body.respell (body : Body) (id : NodeId) (name : String) : Body :=
  { body with
    nodes := body.nodes.modify id.index fun node => { node with expr := node.expr.respell name } }

/-! ## One node -/

namespace Expr

variable {α : Type} (expr : Expr α) (name : String)

theorem children_respell : (expr.respell name).children = expr.children := by
  unfold respell
  split <;> rfl

theorem isPlace_respell : (expr.respell name).isPlace = expr.isPlace := by
  unfold respell
  split <;> rfl

theorem Alike.respell {β : Type} {expr : Expr α} {expr' : Expr β} (h : expr.Alike expr')
    (name : String) : (expr.respell name).Alike (expr'.respell name) := by
  cases h with
  | alloc region shape =>
    cases shape with
    | none => exact .alloc region none
    | some _ => exact .alloc region (some name)
  | var _ => exact .var name
  | field hbase _ => exact .field hbase name
  | call hreceiver _ hargs => exact .call hreceiver name hargs
  | construct _ hargs => exact .construct name hargs
  | literal => exact .literal
  | index hbase hposition access => exact .index hbase hposition access
  | slice hbase hargs => exact .slice hbase hargs
  | assign htarget hvalue mode => exact .assign htarget hvalue mode
  | declare declared hinit => exact .declare declared hinit
  | block hstmts => exact .block hstmts
  | ret hvalue mode => exact .ret hvalue mode

theorem eq_assign_of_respell {target value : α} {mode : Access}
    (h : expr.respell name = .assign target value mode) : expr = .assign target value mode := by
  unfold respell at h
  split at h
  case h_6 => exact h
  all_goals cases h

end Expr

namespace Body

variable {body : Body} {id : NodeId} {name : String}

theorem node?_respell (body : Body) (id : NodeId) (name : String) :
    (body.respell id name).node? id =
      (body.node? id).map fun node => { node with expr := node.expr.respell name } := by
  rw [node?, respell, Array.getElem?_modify, if_pos rfl]
  rfl

theorem node?_respell_of_ne (name : String) {other : NodeId} (hne : other ≠ id) :
    (body.respell id name).node? other = body.node? other := by
  have hindex : id.index ≠ other.index := fun h => hne (NodeId.index_injective h.symm)
  rw [node?, respell, Array.getElem?_modify, if_neg hindex]
  rfl

/-- The nodes of a respelled body have the children that they had. -/
theorem children_respell (body : Body) (id : NodeId) (name : String) (other : NodeId) :
    ((body.respell id name).node? other).map (·.expr.children) =
      (body.node? other).map (·.expr.children) := by
  by_cases hother : other = id
  · subst hother
    rw [node?_respell, Option.map_map]
    exact congrArg (Option.map · _) (funext fun node => node.expr.children_respell name)
  · rw [node?_respell_of_ne name hother]

theorem follow?_respell (body : Body) (id : NodeId) (name : String) (top : NodeId)
    (steps : List Nat) : (body.respell id name).follow? top steps = body.follow? top steps := by
  induction steps generalizing top with
  | nil => rfl
  | cons step steps ih =>
    -- The step to a child asks for the children of the node only.
    have hstep : ∀ body : Body, body.follow? top (step :: steps) =
        ((body.node? top).map (·.expr.children)).bind fun children =>
          children[step]?.bind (body.follow? · steps) := by
      intro body
      rw [follow?, Option.bind_map]
      rfl
    rw [hstep, hstep, children_respell]
    simp only [ih]

theorem contains_respell (body : Body) (id : NodeId) (name : String) (other : NodeId) :
    (body.respell id name).contains other = body.contains other := by
  have hchildren := congrArg Option.isSome (body.children_respell id name other)
  rwa [Option.isSome_map, Option.isSome_map, ← contains_eq_isSome,
    ← contains_eq_isSome] at hchildren

/-- A node of the respelled body is one of the body, perhaps with another name. -/
theorem exists_node_of_respell {mid : NodeId} {node' : Node}
    (hnode' : (body.respell id name).node? mid = some node') :
    ∃ node, body.node? mid = some node ∧
      (node'.expr = node.expr ∨ node'.expr = node.expr.respell name) := by
  by_cases hmid : mid = id
  · subst hmid
    rw [node?_respell, Option.map_eq_some_iff] at hnode'
    obtain ⟨node, hnode, rfl⟩ := hnode'
    exact ⟨node, hnode, .inr rfl⟩
  · exact ⟨node', (node?_respell_of_ne name hmid).symm.trans hnode', .inl rfl⟩

theorem exists_respell_of_node (body : Body) (id : NodeId) (name : String) {mid : NodeId}
    {node : Node} (hnode : body.node? mid = some node) :
    ∃ node', (body.respell id name).node? mid = some node' ∧
      (node'.expr = node.expr ∨ node'.expr = node.expr.respell name) := by
  have hcontains := body.contains_respell id name mid
  rw [contains_eq_isSome, contains_eq_isSome, hnode, Option.isSome_some,
    Option.isSome_iff_exists] at hcontains
  obtain ⟨node', hnode'⟩ := hcontains
  obtain ⟨old, hold, heq⟩ := exists_node_of_respell hnode'
  cases hnode.symm.trans hold
  exact ⟨node', hnode', heq⟩

/-- The children are where they were, and a target that denotes storage still does. -/
theorem IsTree.respell {limit : Nat} (htree : body.IsTree limit) :
    (body.respell id name).IsTree limit := by
  have hroot : (body.respell id name).root = body.root := rfl
  have hfollow := body.follow?_respell id name
  constructor
  case root_mem =>
    rw [hroot, contains_respell]
    exact htree.root_mem
  case children_mem =>
    rintro mid node' ⟨steps, hsteps⟩ hnode' child hchild
    obtain ⟨node, hnode, heq⟩ := exists_node_of_respell hnode'
    have hchild' : child ∈ node.expr.children := by
      rcases heq with heq | heq
      · rwa [heq] at hchild
      · rwa [heq, Expr.children_respell] at hchild
    rw [contains_respell]
    exact htree.children_mem mid node ⟨steps, (hfollow _ _).symm.trans hsteps⟩ hnode child hchild'
  case unique =>
    intro steps steps' mid hsteps hsteps'
    rw [hroot, hfollow] at hsteps hsteps'
    exact htree.unique steps steps' mid hsteps hsteps'
  case shallow =>
    intro steps mid hsteps
    rw [hroot, hfollow] at hsteps
    exact htree.shallow steps mid hsteps
  case places =>
    rintro mid node' target value mode ⟨steps, hsteps⟩ hnode' hassign
    obtain ⟨node, hnode, heq⟩ := exists_node_of_respell hnode'
    have hexpr : node.expr = .assign target value mode := by
      rcases heq with heq | heq
      · exact heq.symm.trans hassign
      · exact node.expr.eq_assign_of_respell name (heq.symm.trans hassign)
    obtain ⟨place, hplace, hdenotes⟩ := htree.places mid node target value mode
      ⟨steps, (hfollow _ _).symm.trans hsteps⟩ hnode hexpr
    obtain ⟨place', hplace', heq'⟩ := body.exists_respell_of_node id name hplace
    refine ⟨place', hplace', ?_⟩
    rcases heq' with heq' | heq'
    · rwa [heq']
    · rwa [heq', ← Expr.isPlace_iff, Expr.isPlace_respell, Expr.isPlace_iff]

end Body

/-! ## Runs -/

namespace Context

variable {ctx : Context} {body : Body} {id : NodeId} {name : String}
  {entries : List (List Nat × NodeId)} {before after : Scope} {values : List Resolved}
  {visits : List Visit}

theorem Run.respell (h : ctx.Run body entries before values after visits)
    (haway : ∀ e ∈ entries, ∀ steps, body.follow? e.2 steps ≠ some id) :
    ctx.Run (body.respell id name) entries before values after visits := by
  induction h with
  | nil => exact .nil _
  | @cons steps mid rest node _ _ _ _ _ _ _ hnode halike _ _ ihkids ihrest =>
    have hne : mid ≠ id := fun heq => haway _ List.mem_cons_self [] (congrArg some heq)
    have hnode' : (body.respell id name).node? mid = some node :=
      (Body.node?_respell_of_ne name hne).trans hnode
    refine .cons hnode' halike (ihkids fun e he more hmore => ?_)
      (ihrest fun e he => haway e (List.mem_cons_of_mem _ he))
    obtain ⟨i, hchild, -⟩ := mem_siblings_iff.1 he
    exact haway _ List.mem_cons_self (i :: more)
      (Body.follow?_cons_iff.2 ⟨node, e.2, hnode, hchild, hmore⟩)

/-- What is evaluated before the node does not contain it, so the run comes to the node, and to the
nodes above it, with the same names in scope. -/
theorem Comes.respell {limit : Nat} (htree : body.IsTree limit) {steps more : List Nat}
    {mid : NodeId} {scope : Scope} (h : ctx.Comes body steps mid scope)
    (hmore : body.follow? mid more = some id) :
    ctx.Comes (body.respell id name) steps mid scope := by
  induction h generalizing more with
  | root => exact .root
  | @child steps parent before node i child _ inside _ hcomes hnode hchild hrun ih =>
    have hbelow : body.follow? parent (i :: more) = some id :=
      Body.follow?_cons_iff.2 ⟨node, child, hnode, hchild, hmore⟩
    have hsingle : body.Single parent := htree.single_of_reaches ⟨steps, hcomes.follow?⟩
    have hne : parent ≠ id := by
      rintro rfl
      exact absurd (hsingle _ [] _ hbelow rfl) (List.cons_ne_nil _ _)
    refine .child (ih hbelow) ((Body.node?_respell_of_ne name hne).trans hnode) hchild
      (hrun.respell fun e he more' hmore' => ?_)
    obtain ⟨j, hleft, -⟩ := mem_siblings_iff.1 he
    rw [List.getElem?_take, Option.ite_none_right_eq_some] at hleft
    obtain ⟨hlt, hleft⟩ := hleft
    have hother : body.follow? parent (j :: more') = some id :=
      Body.follow?_cons_iff.2 ⟨node, e.2, hnode, hleft, hmore'⟩
    have hij : j = i := List.head_eq_of_cons_eq (hsingle _ _ _ hother hbelow)
    omega

end Context

/-- In the respelled body the node is resolved from the values and the names that it was resolved
from, with the new name. -/
theorem Report.verdict?_respell {ctx : Context} {body : Body} {report report' : Report}
    {name : String} {w : Visit} (hcheck : body.check ctx = .ok report)
    (hcheck' : (body.respell w.node name).check ctx = .ok report') {steps : List Nat} {node : Node}
    {before inside : Scope} {inputs : Expr Resolved} {R : NodeId → Resolved → Prop}
    (hbehind : ctx.Behind body R w steps node before inside inputs) :
    report'.verdict? w.node = some (ctx.resolve inside (inputs.respell name)) := by
  obtain ⟨htree, -⟩ := Context.run_of_check hcheck
  have hsteps : body.follow? body.root steps = some w.node := hbehind.comes.follow?
  have hsteps' : (body.respell w.node name).follow? body.root steps = some w.node :=
    (body.follow?_respell _ _ _ _).trans hsteps
  have hnode' : (body.respell w.node name).node? w.node =
      some { node with expr := node.expr.respell name } := by
    rw [Body.node?_respell, hbehind.node_eq]
    rfl
  obtain ⟨before', inside', inputs', hcomes', hrel', ⟨_, hkids'⟩, hverdict'⟩ :=
    exists_resolve hcheck' hsteps' hnode' rfl
  have hcomes : ctx.Comes (body.respell w.node name) steps w.node before :=
    hbehind.comes.respell htree (Body.follow?_nil _)
  obtain ⟨-, rfl⟩ := hcomes.unique hcomes'
  -- The children are evaluated as they were, as the node is not below them.
  obtain ⟨_, hkids⟩ := hbehind.kids
  have hsingle : body.Single w.node := htree.single_of_reaches ⟨steps, hsteps⟩
  have haway : ∀ e ∈ siblings steps 0 node.expr.children, ∀ more,
      body.follow? e.2 more ≠ some w.node := by
    intro e he more
    obtain ⟨i, hchild, -⟩ := mem_siblings_iff.1 he
    exact hsingle.not_below hbehind.node_eq (List.mem_of_getElem? hchild)
  have hmoved : ctx.Run (body.respell w.node name) (siblings steps 0 node.expr.children) before
      inputs.children inside _ := hkids.respell haway
  obtain ⟨hvalues, rfl⟩ := hmoved.unique hkids' (by
    rw [map_snd_siblings, map_snd_siblings, Expr.children_respell])
  -- The new name and the values of the children make up the inputs.
  have halike : (inputs.respell name).Alike inputs' :=
    (hbehind.rel.alike.respell name).join hrel'.alike
  have hchildren : (inputs.respell name).children = inputs'.children :=
    (inputs.children_respell name).trans hvalues
  rw [hverdict', halike.eq_of_children hchildren]

/-! ## Where problems come from -/

theorem kind_of_mixedArguments? {config : Config} {positions : List (Access × Resolved)}
    {problem : Problem} (h : config.mixedArguments? positions = some problem) :
    problem.kind = .mixedArguments := by
  have hmixed := Option.filter_eq_none_iff.1 (config.mixedArguments?_filter positions) problem h
  simpa [Problem.isUnmixed] using hmixed

/-- The checks of known values: what a call or an index mixes, what a store or a return lets out.
Each finds a problem at the node. -/
inductive Config.Judges (config : Config) : Expr Resolved → Problem → Prop where
  | call {receiver name args positions problem}
      (hmixed : config.mixedArguments? positions = some problem) :
    Judges config (.call receiver name args) problem
  | index {base position access positions problem}
      (hmixed : config.mixedArguments? positions = some problem) :
    Judges config (.index base position access) problem
  | assign {target value mode problem} (hstore : storeProblem? target value mode = some problem) :
    Judges config (.assign target value mode) problem
  | ret {value mode problem} (hreturn : returnProblem? value mode = some problem) :
    Judges config (.ret value mode) problem

theorem Config.Judges.not_failedLookup {config : Config} {inputs : Expr Resolved}
    {problem : Problem} (h : config.Judges inputs problem) : ¬ problem.FailedLookup := by
  rw [Problem.FailedLookup]
  cases h with
  | call hmixed | index hmixed => simp [kind_of_mixedArguments? hmixed]
  | assign hstore => simp [kind_of_storeProblem? hstore]
  | ret hreturn => rcases kind_of_returnProblem? hreturn with h | h <;> simp [h]

theorem Verdict.eq_error_of_ofExcept {α : Type} {found : Except Problem α} {f : α → Value}
    {problem : Problem} (h : (ofExcept (found.map f)).problem? = some problem) :
    found = .error problem := by
  cases found with
  | ok _ => cases h
  | error _ =>
    cases h
    rfl

namespace Context

variable {ctx : Context} {inside : Scope} {inputs : Expr Resolved} {problem : Problem}

/-- The look-ups that fail at a node, and the problem that each of them is. -/
inductive Misses (ctx : Context) (inside : Scope) : Expr Resolved → Problem → Prop where
  | var {name} (hscope : inside.get? name = none) (hbinding : ctx.bindings.get? name = none) :
      Misses ctx inside (.var name) (.unknownBinding name (ctx.namesInScope inside))
  | alloc {region name problem} (hshape : ctx.shape name = .error problem) :
      Misses ctx inside (.alloc region (some name)) problem
  | construct {name args problem} (hshape : ctx.shape name = .error problem) :
      Misses ctx inside (.construct name args) problem
  | field {base name problem} (hmember : ctx.member base name (·.field? name) = .error problem) :
      Misses ctx inside (.field (.known base) name) problem
  | call {receiver name args problem}
      (hmember : ctx.member receiver name (·.method? name) = .error problem) :
      Misses ctx inside (.call (.known receiver) name args) problem
  | index {base position access problem}
      (hmember : ctx.member base "[]" (·.indexer) = .error problem) :
      Misses ctx inside (.index (.known base) position access) problem

theorem Misses.failedLookup (h : ctx.Misses inside inputs problem) : problem.FailedLookup := by
  cases h with
  | var => exact .inl rfl
  | alloc hshape | construct hshape => exact failedLookup_of_shape hshape
  | field hmember | call hmember | index hmember => exact failedLookup_of_member hmember

theorem shape_eq_error_iff {name : String} :
    ctx.shape name = .error problem ↔
      ctx.shapes.get? name = none ∧ problem = .unknownShape name ctx.shapes.names := by
  unfold shape
  cases ctx.shapes.get? name <;> simp [eq_comm]

/-- A value has no members, or its shape is unknown, or the shape has no such member. -/
theorem member_eq_error {α : Type} {value : Value} {name : String} {find : Shape → Option α}
    (h : ctx.member value name find = .error problem) :
    (value.shape = none ∧ problem = .unknownMember "value without members" name []) ∨
      (∃ shapeName, ctx.shapes.get? shapeName = none ∧
        problem = .unknownShape shapeName ctx.shapes.names) ∨
      ∃ shapeName shape, value.shape = some shapeName ∧ ctx.shapes.get? shapeName = some shape ∧
        find shape = none ∧
        problem = .unknownMember shapeName name (Names.sort shape.memberNames) := by
  unfold member at h
  cases hname : value.shape with
  | none =>
    rw [hname] at h
    cases h
    exact .inl ⟨rfl, rfl⟩
  | some shapeName =>
    rw [hname] at h
    cases hshape : ctx.shape shapeName with
    | error problem' =>
      simp only [hshape] at h
      cases h
      exact .inr (.inl ⟨shapeName, shape_eq_error_iff.1 hshape⟩)
    | ok shape =>
      have hget : ctx.shapes.get? shapeName = some shape := by
        unfold Context.shape at hshape
        split at hshape <;> cases hshape
        assumption
      simp only [hshape] at h
      cases hfind : find shape with
      | some _ => simp [hfind] at h
      | none =>
        simp only [hfind] at h
        cases h
        exact .inr (.inr ⟨shapeName, shape, rfl, hget, hfind, rfl⟩)

theorem find_eq_none_of_member {α : Type} {value : Value} {name shapeName : String} {shape : Shape}
    {find : Shape → Option α} (hname : value.shape = some shapeName)
    (hshape : ctx.shapes.get? shapeName = some shape)
    (h : ctx.member value name find = .error problem) : find shape = none := by
  cases hfind : find shape with
  | none => rfl
  | some found => cases h.symm.trans (member_eq_ok_iff.2 ⟨shapeName, shape, hname, hshape, hfind⟩)

/-- The problem of a node is a look-up that failed, or what one of the other checks found. -/
theorem misses_or_judges (h : (ctx.resolve inside inputs).problem? = some problem) :
    ctx.Misses inside inputs problem ∨ ctx.config.Judges inputs problem := by
  cases inputs with
  | literal | declare | block => cases h
  | alloc region shape =>
    cases shape with
    | none => cases h
    | some name => exact .inl (.alloc (Verdict.eq_error_of_ofExcept h))
  | var name =>
    rw [resolve, resolveVar] at h
    split at h
    · cases h
    · split at h <;> cases h
      exact .inl (.var ‹_› ‹_›)
  | field base name =>
    cases base with
    | poisoned => cases h
    | known base => exact .inl (.field (Verdict.eq_error_of_ofExcept h))
  | call receiver name args =>
    cases receiver with
    | poisoned => cases h
    | known receiver =>
      rw [resolve, Resolved.andThen, resolveCall] at h
      split at h
      · cases h
        exact .inl (.call ‹_›)
      · exact .inr (.call h)
  | index base position access =>
    cases base with
    | poisoned => cases h
    | known base =>
      rw [resolve, Resolved.andThen, resolveIndex] at h
      split at h
      · cases h
        exact .inl (.index ‹_›)
      · exact .inr (.index h)
  | slice base args => cases base <;> cases h
  | assign target value mode => exact .inr (.assign h)
  | construct name args =>
    rw [resolve, resolveConstruct] at h
    split at h
    · cases h
      exact .inl (.construct ‹_›)
    · split at h <;> cases h
  | ret value mode => exact .inr (.ret h)

/-- The other checks report problems of other kinds. -/
theorem misses_of_resolve (h : (ctx.resolve inside inputs).problem? = some problem)
    (hfailed : problem.FailedLookup) : ctx.Misses inside inputs problem :=
  (misses_or_judges h).resolve_right fun hjudges => hjudges.not_failedLookup hfailed

variable {body : Body} {report : Report}

/-- Behind a problem that was reported are a node and the values of its children, at the end of
the path that is reported. -/
theorem behind_of_finding (hcheck : body.check ctx = .ok report) {finding : Finding}
    (hfinding : finding ∈ report.findings) :
    ∃ w node before inside inputs,
      ctx.Behind body (fun child value => report.value? child = some value) w
        finding.path.positions node before inside inputs ∧
      w.node = finding.node ∧ (ctx.resolve inside inputs).problem? = some finding.problem := by
  obtain ⟨w, hw, hid, hpath, -, hproblem⟩ := Report.mem_findings_iff.1 hfinding
  obtain ⟨steps, node, before, inside, inputs, hbehind⟩ := Report.exists_behind hcheck hw
  obtain ⟨hleads, -⟩ := Report.visit_located hcheck hw
  have hsteps : steps = finding.path.positions :=
    hpath ▸ (run_of_check hcheck).1.unique _ _ _ hbehind.comes.follow? hleads
  subst hsteps
  rw [hbehind.verdict_eq] at hproblem
  exact ⟨w, node, before, inside, inputs, hbehind, hid, hproblem⟩

/-- Behind a failed look-up that was reported is a miss, at the end of its path. -/
theorem misses_of_finding (hcheck : body.check ctx = .ok report) {finding : Finding}
    (hfinding : finding ∈ report.findings) (hfailed : finding.problem.FailedLookup) :
    ∃ w node before inside inputs,
      ctx.Behind body (fun child value => report.value? child = some value) w
        finding.path.positions node before inside inputs ∧
      w.node = finding.node ∧ ctx.Misses inside inputs finding.problem := by
  obtain ⟨w, node, before, inside, inputs, hbehind, hid, hproblem⟩ :=
    behind_of_finding hcheck hfinding
  exact ⟨w, node, before, inside, inputs, hbehind, hid, misses_of_resolve hproblem hfailed⟩

/-! ## Look-ups repaired -/

/-- With the name written at the node, the body is still checked and no look-up fails at the
node. -/
def Repairs (ctx : Context) (body : Body) (id : NodeId) (name : String) : Prop :=
  ∃ report, (body.respell id name).check ctx = .ok report ∧
    ∀ problem, report.Finds id problem → ¬ problem.FailedLookup

theorem Repairs.of_found (hcheck : body.check ctx = .ok report) {name : String} {w : Visit}
    {steps : List Nat} {node : Node} {before : Scope} {R : NodeId → Resolved → Prop}
    (hbehind : ctx.Behind body R w steps node before inside inputs)
    (hfound : ∀ problem, ¬ ctx.Misses inside (inputs.respell name) problem) :
    ctx.Repairs body w.node name := by
  obtain ⟨htree, -⟩ := run_of_check hcheck
  have htree' : (body.respell w.node name).IsTree ctx.config.maxDepth := htree.respell
  obtain ⟨report', _, _, hcheck', -⟩ := exists_check htree'
  have hverdict := Report.verdict?_respell hcheck hcheck' hbehind
  refine ⟨report', hcheck', fun problem hfinds hfailed => ?_⟩
  exact hfound problem (misses_of_resolve ((Report.finds_iff hcheck' hverdict).1 hfinds) hfailed)

theorem not_repairs {id : NodeId} {name : String} {finding : Finding}
    (hcheck : ((body.respell id name).check ctx).map (·.findings.find? (·.node == id)) =
      .ok (some finding)) (hfailed : finding.problem.FailedLookup) :
    ¬ ctx.Repairs body id name := by
  rintro ⟨report', hcheck', hnone⟩
  have hfind := Report.eq_of_map_check hcheck' hcheck
  have hid : finding.node = id := by simpa using List.find?_some hfind
  exact hnone _ ⟨finding, List.mem_of_find?_eq_some hfind, hid, rfl⟩ hfailed

end Context

end FrameEscape
