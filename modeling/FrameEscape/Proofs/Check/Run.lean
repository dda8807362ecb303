import FrameEscape.Check
import FrameEscape.Proofs.Body.Tree
import FrameEscape.Proofs.Expr

/-!
# Runs of the checker

`Context.evaluate` descends by a bound on the depth. `Context.Run` says the same without one,
as a relation: a list of nodes is evaluated from left to right, each after its children. It
has two rules, so what holds of every run is an induction with two cases.

* **`Context.run_evaluate`**: the evaluation of a node whose paths fit the bound is a run.
* **`Context.Run.unique`**: two runs of the same nodes from the same names have the same values.
* **`Context.Run.exists_visit_iff`**, **`Context.Run.nodup`**: a run visits the nodes below the
  listed ones, each once if nothing is shared.
* **`Context.Run.exists_visit_value`**: the values of a run are those of its visits.
* **`Context.Comes`**: the points that a run comes to, as reachable states: a node, the path
  to it and the names in scope before it.
-/

namespace FrameEscape

/-! ## Paths by child positions -/

/-- The path of some child positions. -/
def Path.ofSteps (steps : List Nat) : Path := ⟨steps.map UInt32.ofNat⟩

@[simp] theorem Path.ofSteps_nil : Path.ofSteps [] = Path.root := rfl

@[simp] theorem Path.ofSteps_concat (steps : List Nat) (step : Nat) :
    Path.ofSteps (steps ++ [step]) = (Path.ofSteps steps).child step := by
  simp [Path.ofSteps, Path.child]

/-- Nodes in a row, each with the child positions that lead to it: those of their parent and
one more, counted from `start`. -/
def siblings (steps : List Nat) (start : Nat) (ids : List NodeId) : List (List Nat × NodeId) :=
  (ids.zipIdx start).map fun e => (steps ++ [e.2], e.1)

@[simp] theorem siblings_nil (steps : List Nat) (start : Nat) : siblings steps start [] = [] := rfl

@[simp] theorem map_snd_siblings (steps : List Nat) (start : Nat) (ids : List NodeId) :
    (siblings steps start ids).map (·.2) = ids := by
  simp [siblings, Function.comp_def]

@[simp] theorem siblings_cons (steps : List Nat) (start : Nat) (id : NodeId)
    (ids : List NodeId) :
    siblings steps start (id :: ids) =
      (steps ++ [start], id) :: siblings steps (start + 1) ids := rfl

theorem siblings_append (steps : List Nat) (start : Nat) (ids ids' : List NodeId) :
    siblings steps start (ids ++ ids') =
      siblings steps start ids ++ siblings steps (start + ids.length) ids' := by
  simp [siblings, List.zipIdx_append]

theorem getElem?_siblings (steps : List Nat) (ids : List NodeId) (i : Nat) :
    (siblings steps 0 ids)[i]? = ids[i]?.map fun id => (steps ++ [i], id) := by
  simp [siblings, List.getElem?_map, Function.comp_def]

theorem mem_siblings_iff {steps : List Nat} {ids : List NodeId} {e : List Nat × NodeId} :
    e ∈ siblings steps 0 ids ↔ ∃ i, ids[i]? = some e.2 ∧ e.1 = steps ++ [i] := by
  obtain ⟨steps', id⟩ := e
  simp [siblings, List.mem_zipIdx_iff_getElem?, eq_comm, and_comm]

theorem exists_mem_siblings_iff {steps : List Nat} {start : Nat} {ids : List NodeId}
    {P : NodeId → Prop} :
    (∃ e ∈ siblings steps start ids, P e.2) ↔ ∃ id ∈ ids, P id := by
  conv_rhs => rw [← map_snd_siblings steps start ids]
  simp only [List.mem_map, exists_exists_and_eq_and]

theorem take_siblings (steps : List Nat) (start : Nat) (ids : List NodeId) (i : Nat) :
    (siblings steps start ids).take i = siblings steps start (ids.take i) := by
  induction ids generalizing start i with
  | nil => simp
  | cons id ids ih =>
    cases i with
    | zero => rfl
    | succ i => simp [ih]

/-! ## Evaluating a row of nodes -/

theorem mapFromM_cons {α β : Type} (f : Nat → α → Evaluation β) (start : Nat) (a : α)
    (rest : List α) (scope : Scope) :
    Expr.mapFromM f start (a :: rest) scope =
      let head := f start a scope
      let tail := Expr.mapFromM f (start + 1) rest head.scope
      ⟨head.result :: tail.result, tail.scope, head.visits ++ tail.visits⟩ := by
  simp [Expr.mapFromM, bind, pure]

theorem length_mapFromM {α β : Type} (f : Nat → α → Evaluation β) (start : Nat) (as : List α)
    (scope : Scope) : (Expr.mapFromM f start as scope).result.length = as.length := by
  induction as generalizing start scope with
  | nil => rfl
  | cons a rest ih =>
    rw [mapFromM_cons]
    simp [ih]

/-- Replacing the children of an expression changes nothing else, and is done in a row. -/
theorem mapIdxM_eq {α β : Type} (f : Nat → α → Evaluation β) (expr : Expr α) (scope : Scope) :
    expr.Alike (expr.mapIdxM f scope).result ∧
      Expr.mapFromM f 0 expr.children scope =
        ⟨(expr.mapIdxM f scope).result.children, (expr.mapIdxM f scope).scope,
          (expr.mapIdxM f scope).visits⟩ := by
  have hall : ∀ {start as scope}, List.Forall₂ (fun _ _ => True) as
      (Expr.mapFromM f start as scope).result := fun {start as scope} =>
    Expr.forall₂_true_of_length_eq (length_mapFromM f start as scope).symm
  cases expr with
  | literal => exact ⟨.literal, rfl⟩
  | alloc region shape => exact ⟨.alloc region shape, rfl⟩
  | var name => exact ⟨.var name, rfl⟩
  | field base name =>
    exact ⟨.field trivial name, by simp [Expr.mapIdxM, Expr.mapFromM, Expr.children, bind, pure]⟩
  | call receiver name args =>
    exact ⟨.call trivial name hall, by
      simp [Expr.mapIdxM, Expr.mapFromM, Expr.children, bind, pure]⟩
  | index base position access =>
    exact ⟨.index trivial trivial access, by
      simp [Expr.mapIdxM, Expr.mapFromM, Expr.children, bind, pure]⟩
  | slice base args =>
    exact ⟨.slice trivial hall, by
      simp [Expr.mapIdxM, Expr.mapFromM, Expr.children, bind, pure]⟩
  | assign target value mode =>
    exact ⟨.assign trivial trivial mode, by
      simp [Expr.mapIdxM, Expr.mapFromM, Expr.children, bind, pure]⟩
  | construct shape args =>
    exact ⟨.construct shape hall, by simp [Expr.mapIdxM, Expr.children, bind, pure]⟩
  | declare name init =>
    exact ⟨.declare name trivial, by
      simp [Expr.mapIdxM, Expr.mapFromM, Expr.children, bind, pure]⟩
  | block stmts => exact ⟨.block hall, by simp [Expr.mapIdxM, Expr.children, bind, pure]⟩
  | ret value mode =>
    exact ⟨.ret trivial mode, by simp [Expr.mapIdxM, Expr.mapFromM, Expr.children, bind, pure]⟩

/-! ## Runs -/

namespace Context

/-- The listed nodes are evaluated in order, from the names in scope before them; they have
the given values, and leave the names in scope after them and the visits made. -/
inductive Run (ctx : Context) (body : Body) :
    List (List Nat × NodeId) → Scope → List Resolved → Scope → List Visit → Prop where
  | nil (scope : Scope) : Run ctx body [] scope [] scope []
  | cons {steps id rest node inputs before inside after values visits visits'}
      (hnode : body.node? id = some node) (halike : node.expr.Alike inputs)
      (hkids : Run ctx body (siblings steps 0 node.expr.children) before inputs.children inside
        visits)
      (hrest : Run ctx body rest (inputs.scopeAfter before inside) values after visits') :
      Run ctx body ((steps, id) :: rest) before ((ctx.resolve inside inputs).value :: values)
        after (visits ++ ⟨id, .ofSteps steps, node.span, ctx.resolve inside inputs⟩ :: visits')

/-- The evaluation of one node is a run of its own. -/
theorem Run.single {ctx : Context} {body : Body} {steps : List Nat} {id : NodeId} {node : Node}
    {inputs : Expr Resolved} {before inside : Scope} {visits : List Visit}
    (hnode : body.node? id = some node) (halike : node.expr.Alike inputs)
    (hkids : ctx.Run body (siblings steps 0 node.expr.children) before inputs.children inside
      visits) :
    ctx.Run body [(steps, id)] before [(ctx.resolve inside inputs).value]
      (inputs.scopeAfter before inside)
      (visits ++ [⟨id, .ofSteps steps, node.span, ctx.resolve inside inputs⟩]) :=
  .cons hnode halike hkids (.nil _)

variable {ctx : Context} {body : Body} {entries entries' : List (List Nat × NodeId)}
  {before middle after : Scope} {values values' : List Resolved} {visits visits' : List Visit}

theorem Run.append (h : ctx.Run body entries before values middle visits)
    (h' : ctx.Run body entries' middle values' after visits') :
    ctx.Run body (entries ++ entries') before (values ++ values') after (visits ++ visits') := by
  induction h with
  | nil => exact h'
  | cons hnode halike hkids _ _ ih =>
    rw [List.cons_append, List.cons_append, List.append_assoc, List.cons_append]
    exact .cons hnode halike hkids (ih h')

/-! ## Evaluation is a run -/

/-- Children evaluated in a row make up a run if each of them does. -/
theorem run_children (steps : List Nat) (f : Nat → NodeId → Evaluation Resolved)
    (ids : List NodeId) (start : Nat) (before : Scope)
    (hf : ∀ id ∈ ids, ∀ position scope, ctx.Run body [(steps ++ [position], id)] scope
      [(f position id scope).result] (f position id scope).scope (f position id scope).visits) :
    ctx.Run body (siblings steps start ids) before (Expr.mapFromM f start ids before).result
      (Expr.mapFromM f start ids before).scope (Expr.mapFromM f start ids before).visits := by
  induction ids generalizing start before with
  | nil => exact .nil before
  | cons id ids ih =>
    rw [mapFromM_cons, siblings_cons]
    have htail := ih (start + 1) (f start id before).scope
      (fun id' hid' => hf id' (List.mem_cons_of_mem _ hid'))
    exact (hf id List.mem_cons_self start before).append htail

/-- The evaluation of a node is a run, if the bound on the depth lets it reach all that is
below the node. Induction on the bound. -/
theorem run_evaluate (ctx : Context) (body : Body) (depth : Nat) (steps : List Nat)
    (id : NodeId) (before : Scope) (hfits : body.Fits depth id) :
    ctx.Run body [(steps, id)] before
      [(ctx.evaluate body depth (.ofSteps steps) id before).result]
      (ctx.evaluate body depth (.ofSteps steps) id before).scope
      (ctx.evaluate body depth (.ofSteps steps) id before).visits := by
  induction depth generalizing steps id before with
  | zero => exact absurd (hfits [] id rfl).1 (Nat.not_lt_zero _)
  | succ depth ih =>
    -- The bound is not used up and the node is there, so neither way out is taken.
    obtain ⟨node, hnode⟩ := hfits.exists_node
    obtain ⟨halike, hrow⟩ := mapIdxM_eq
      (fun position child => ctx.evaluate body depth ((Path.ofSteps steps).child position) child)
      node.expr before
    have hkids := run_children steps
      (fun position child => ctx.evaluate body depth ((Path.ofSteps steps).child position) child)
      node.expr.children 0 before (fun child hchild position scope => by
        simpa using ih (steps ++ [position]) child scope (hfits.child hnode hchild))
    rw [hrow] at hkids
    simp only [evaluate, hnode]
    exact .single hnode halike hkids

/-- A body that is not accepted has no report. -/
theorem check_rejected {mistake : Malformed}
    (h : body.validate ctx.config.maxDepth = .error mistake) :
    body.check ctx = .error mistake := by
  unfold Body.check
  rw [h]

/-- A tree has a report, and the visits in it are those of a run from the root. -/
theorem exists_check (h : body.IsTree ctx.config.maxDepth) :
    ∃ report value scope, body.check ctx = .ok report ∧
      ctx.Run body [([], body.root)] [] [value] scope report.visits := by
  have hrun := run_evaluate ctx body (ctx.config.maxDepth + 1) [] body.root [] h.fits
  unfold Body.check
  rw [h.validate]
  exact ⟨_, _, _, rfl, hrun⟩

theorem run_of_check {report : Report} (h : body.check ctx = .ok report) :
    body.IsTree ctx.config.maxDepth ∧
      ∃ value scope, ctx.Run body [([], body.root)] [] [value] scope report.visits := by
  have htree : body.IsTree ctx.config.maxDepth := by
    apply Body.isTree_of_validate
    unfold Body.check at h
    split at h
    · exact absurd h (by simp)
    next hvalidate => exact hvalidate
  obtain ⟨report', value, scope, hcheck, hrun⟩ := exists_check htree
  cases h.symm.trans hcheck
  exact ⟨htree, value, scope, hrun⟩

/-! ## Runs come apart, and are determined -/

/-- The run of one node is that of its children and then a visit to it. -/
theorem Run.exists_kids {steps : List Nat} {id : NodeId}
    (h : ctx.Run body [(steps, id)] before values after visits) :
    ∃ node inputs inside kidVisits, body.node? id = some node ∧ node.expr.Alike inputs ∧
      ctx.Run body (siblings steps 0 node.expr.children) before inputs.children inside
        kidVisits ∧
      values = [(ctx.resolve inside inputs).value] ∧ after = inputs.scopeAfter before inside ∧
      visits = kidVisits ++ [⟨id, .ofSteps steps, node.span, ctx.resolve inside inputs⟩] := by
  cases h with
  | cons hnode halike hkids hrest =>
    cases hrest
    exact ⟨_, _, _, _, hnode, halike, hkids, rfl, rfl, rfl⟩

/-- The value of a node comes from its children, run from the names before it. -/
theorem Run.exists_inputs {steps : List Nat} {id : NodeId} {node : Node} {expr : Expr NodeId}
    {value : Resolved} (h : ctx.Run body [(steps, id)] before [value] after visits)
    (hnode : body.node? id = some node) (hexpr : node.expr = expr) :
    ∃ inputs inside kidVisits, expr.Alike inputs ∧
      ctx.Run body (siblings steps 0 expr.children) before inputs.children inside kidVisits ∧
      (ctx.resolve inside inputs).value = value := by
  obtain ⟨node', inputs, inside, kidVisits, hnode', halike, hkids, hvalue, -⟩ := h.exists_kids
  cases hnode.symm.trans hnode'
  subst hexpr
  exact ⟨inputs, inside, kidVisits, halike, hkids, (List.head_eq_of_cons_eq hvalue).symm⟩

theorem Run.exists_value {e : List Nat × NodeId}
    (h : ctx.Run body [e] before values after visits) : ∃ value, values = [value] := by
  cases h with
  | cons _ _ _ hrest =>
    cases hrest
    exact ⟨_, rfl⟩

theorem Run.exists_split (h : ctx.Run body (entries ++ entries') before values after visits) :
    ∃ front back middle frontVisits backVisits, values = front ++ back ∧
      ctx.Run body entries before front middle frontVisits ∧
      ctx.Run body entries' middle back after backVisits := by
  induction entries generalizing before values visits with
  | nil => exact ⟨[], values, before, [], visits, rfl, .nil before, h⟩
  | cons e entries ih =>
    cases h with
    | cons hnode halike hkids hrest =>
      obtain ⟨front, back, middle, _, _, rfl, hfront, hback⟩ := ih hrest
      exact ⟨_, back, middle, _, _, rfl, .cons hnode halike hkids hfront, hback⟩

theorem Run.exists_pair {e e' : List Nat × NodeId}
    (h : ctx.Run body [e, e'] before values after visits) :
    ∃ value value' middle visits visits', values = [value, value'] ∧
      ctx.Run body [e] before [value] middle visits ∧
      ctx.Run body [e'] middle [value'] after visits' := by
  have hsplit : ctx.Run body ([e] ++ [e']) before values after visits := h
  obtain ⟨front, back, middle, _, _, rfl, hfront, hback⟩ := hsplit.exists_split
  obtain ⟨value, rfl⟩ := hfront.exists_value
  obtain ⟨value', rfl⟩ := hback.exists_value
  exact ⟨value, value', middle, _, _, rfl, hfront, hback⟩

/-- What a run leaves behind depends on the nodes and on the names in scope, not on the paths.
Induction on one run, in step with the other. -/
theorem Run.unique (h : ctx.Run body entries before values after visits) {after' : Scope}
    (h' : ctx.Run body entries' before values' after' visits')
    (hids : entries.map (·.2) = entries'.map (·.2)) : values = values' ∧ after = after' := by
  induction h generalizing entries' values' after' visits' with
  | nil =>
    cases h' with
    | nil => exact ⟨rfl, rfl⟩
    | cons => exact absurd hids (by simp)
  | cons hnode halike _ _ ihkids ihrest =>
    cases h' with
    | nil => exact absurd hids (by simp)
    | cons hnode' halike' hkids' hrest' =>
      obtain ⟨hid, hrest⟩ := List.cons.inj hids
      cases hid
      cases hnode.symm.trans hnode'
      obtain ⟨hinputs, rfl⟩ := ihkids hkids' (by simp)
      cases (halike.join halike').eq_of_children hinputs
      obtain ⟨rfl, rfl⟩ := ihrest hrest' hrest
      exact ⟨rfl, rfl⟩

/-! ## The nodes that a run visits -/

/-- A run visits what the listed nodes lead to, by the paths that lead there. -/
theorem Run.exists_visit_iff (h : ctx.Run body entries before values after visits)
    {target : NodeId} {path : Path} :
    (∃ w ∈ visits, w.node = target ∧ w.path = path) ↔
      ∃ e ∈ entries, ∃ steps, body.follow? e.2 steps = some target ∧
        path = .ofSteps (e.1 ++ steps) := by
  induction h with
  | nil => simp
  | @cons steps id rest node inputs _ _ _ _ kidVisits _ hnode _ _ _ ihkids ihrest =>
    have hself : body.follow? id [] = some target ∧ path = .ofSteps (steps ++ []) ↔
        id = target ∧ Path.ofSteps steps = path := by
      simp [eq_comm]
    have hbelow : (∃ w ∈ kidVisits, w.node = target ∧ w.path = path) ↔
        ∃ step more, body.follow? id (step :: more) = some target ∧
          path = .ofSteps (steps ++ step :: more) := by
      rw [ihkids]
      constructor
      · rintro ⟨⟨steps', child⟩, he, more, hmore, hpath⟩
        obtain ⟨step, hchild, rfl⟩ := mem_siblings_iff.1 he
        refine ⟨step, more, Body.follow?_cons_iff.2 ⟨node, child, hnode, hchild, hmore⟩, ?_⟩
        rw [hpath, List.append_assoc, List.singleton_append]
      · rintro ⟨step, more, hsteps, hpath⟩
        obtain ⟨node', child, hnode', hchild, hmore⟩ := Body.follow?_cons_iff.1 hsteps
        cases hnode.symm.trans hnode'
        refine ⟨(steps ++ [step], child), mem_siblings_iff.2 ⟨step, hchild, rfl⟩, more, hmore, ?_⟩
        rw [hpath, List.append_assoc, List.singleton_append]
    -- A path from the node is empty, or goes through a child.
    have hnodes : (∃ more, body.follow? id more = some target ∧
        path = .ofSteps (steps ++ more)) ↔
        (∃ w ∈ kidVisits, w.node = target ∧ w.path = path) ∨
          id = target ∧ Path.ofSteps steps = path := by
      rw [hbelow, ← hself]
      constructor
      · rintro ⟨more, hmore⟩
        cases more with
        | nil => exact .inr hmore
        | cons step more => exact .inl ⟨step, more, hmore⟩
      · rintro (⟨step, more, hmore⟩ | hmore)
        · exact ⟨step :: more, hmore⟩
        · exact ⟨[], hmore⟩
    simp only [List.mem_append, List.mem_cons, or_and_right, exists_or, exists_eq_left, ihrest,
      hnodes, or_assoc]

/-- Each visit of a run is of a node that is not shared. -/
theorem Run.nodup (h : ctx.Run body entries before values after visits)
    (hsingle : ∀ e ∈ entries, body.Single e.2)
    (hapart : entries.Pairwise fun e e' => body.Apart e.2 e'.2) :
    visits.Pairwise fun w w' => w.node ≠ w'.node := by
  induction h with
  | nil => exact .nil
  | @cons steps id rest node inputs _ _ _ _ kidVisits restVisits hnode _ hkids hrest ihkids
      ihrest =>
    have hid : body.Single id := hsingle _ List.mem_cons_self
    obtain ⟨hhead, htail⟩ := List.pairwise_cons.1 hapart
    -- What a part of the run visits lies below a node listed for it.
    have hkid : ∀ w ∈ kidVisits, ∃ child ∈ node.expr.children, ∃ more,
        body.follow? child more = some w.node := by
      intro w hw
      obtain ⟨⟨_, child⟩, he, more, hmore, -⟩ := hkids.exists_visit_iff.1 ⟨w, hw, rfl, rfl⟩
      obtain ⟨step, hchild, -⟩ := mem_siblings_iff.1 he
      exact ⟨child, List.mem_of_getElem? hchild, more, hmore⟩
    have hlater : ∀ w ∈ restVisits, ∃ e ∈ rest, ∃ more,
        body.follow? e.2 more = some w.node := by
      intro w hw
      obtain ⟨e, he, more, hmore, -⟩ := hrest.exists_visit_iff.1 ⟨w, hw, rfl, rfl⟩
      exact ⟨e, he, more, hmore⟩
    refine List.pairwise_append.2 ⟨?_, List.pairwise_cons.2 ⟨?_, ?_⟩, ?_⟩
    · apply ihkids
      · intro e he
        obtain ⟨step, hchild, -⟩ := mem_siblings_iff.1 he
        exact hid.child hnode (List.mem_of_getElem? hchild)
      · have hpairs := hid.pairwise_children hnode
        rwa [← map_snd_siblings steps 0 node.expr.children, List.pairwise_map] at hpairs
    · intro w hw heq
      obtain ⟨e, he, more, hmore⟩ := hlater w hw
      exact hhead e he [] more w.node (congrArg some heq) hmore
    · exact ihrest (fun e he => hsingle e (List.mem_cons_of_mem _ he)) htail
    · intro w hw w' hw' heq
      obtain ⟨child, hchild, more, hmore⟩ := hkid w hw
      rcases List.mem_cons.1 hw' with rfl | hw'
      · exact hid.not_below hnode hchild (hmore.trans (congrArg some heq))
      · obtain ⟨e, he, more', hmore'⟩ := hlater w' hw'
        exact (hhead e he).child hnode hchild more more' w.node hmore
          (hmore'.trans (congrArg some heq.symm))

/-! ## The values of a run -/

/-- One of the visits is to the node and has the value. -/
def VisitValue (visits : List Visit) (id : NodeId) (value : Resolved) : Prop :=
  ∃ w ∈ visits, w.node = id ∧ w.verdict.value = value

theorem VisitValue.mono {id : NodeId} {value : Resolved} (h : VisitValue visits id value)
    (hsub : visits ⊆ visits') : VisitValue visits' id value := by
  obtain ⟨w, hw, hvisit⟩ := h
  exact ⟨w, hsub hw, hvisit⟩

/-- The value of each listed node is that of a visit to it. -/
theorem Run.exists_visit_value (h : ctx.Run body entries before values after visits) :
    List.Forall₂ (fun e value => VisitValue visits e.2 value) entries values := by
  induction h with
  | nil => exact .nil
  | cons hnode halike hkids hrest _ ih =>
    refine .cons ⟨_, List.mem_append_right _ List.mem_cons_self, rfl, rfl⟩ ?_
    exact ih.imp fun _ _ hvalue => hvalue.mono fun v hv =>
      List.mem_append_right _ (List.mem_cons_of_mem _ hv)

/-- The points that a run from the root comes to: a node, the child positions that lead to it
and the names in scope before it. A child is come to when those before it have been run. -/
inductive Comes (ctx : Context) (body : Body) : List Nat → NodeId → Scope → Prop where
  | root : Comes ctx body [] body.root []
  | child {steps id before node i child values inside visits}
      (hcomes : Comes ctx body steps id before) (hnode : body.node? id = some node)
      (hchild : node.expr.children[i]? = some child)
      (hrun : Run ctx body (siblings steps 0 (node.expr.children.take i)) before values inside
        visits) :
      Comes ctx body (steps ++ [i]) child inside

/-- The path leads to the node. -/
theorem Comes.follow? {steps : List Nat} {id : NodeId} {scope : Scope}
    (h : ctx.Comes body steps id scope) : body.follow? body.root steps = some id := by
  induction h with
  | root => rfl
  | child _ hnode hchild _ ih => exact Body.follow?_child ih hnode hchild

/-- What is behind a visit: the run came to its node, and evaluated the children of the node
to the inputs of the verdict. `R` says which values belong to which children. -/
structure Behind (ctx : Context) (body : Body) (R : NodeId → Resolved → Prop) (w : Visit)
    (steps : List Nat) (node : Node) (before inside : Scope) (inputs : Expr Resolved) : Prop where
  node_eq : body.node? w.node = some node
  comes : ctx.Comes body steps w.node before
  rel : node.expr.Rel R inputs
  kids : ∃ visits, ctx.Run body (siblings steps 0 node.expr.children) before inputs.children
    inside visits
  verdict_eq : w.verdict = ctx.resolve inside inputs
  path_eq : w.path = .ofSteps steps
  span_eq : w.span = node.span

theorem Behind.imp {R S : NodeId → Resolved → Prop} {w : Visit} {steps : List Nat} {node : Node}
    {before inside : Scope} {inputs : Expr Resolved}
    (h : ctx.Behind body R w steps node before inside inputs)
    (himp : ∀ id value, R id value → S id value) :
    ctx.Behind body S w steps node before inside inputs :=
  { h with rel := h.rel.of_children (h.rel.children.imp himp) }

/-- Each visit of a run has something behind it, if the run comes to each listed node. -/
theorem Run.exists_behind (h : ctx.Run body entries before values after visits)
    (hcomes : ∀ k e values scope visits, entries[k]? = some e →
      ctx.Run body (entries.take k) before values scope visits → ctx.Comes body e.1 e.2 scope)
    {w : Visit} (hw : w ∈ visits) :
    ∃ steps node before inside inputs,
      ctx.Behind body (VisitValue visits) w steps node before inside inputs := by
  induction h with
  | nil => exact absurd hw List.not_mem_nil
  | @cons steps id rest node inputs before inside _ _ kidVisits restVisits hnode halike hkids
      hrest ihkids ihrest =>
    have hid : ctx.Comes body steps id before := hcomes 0 (steps, id) _ _ _ rfl (.nil before)
    rcases List.mem_append.1 hw with hw | hw
    · -- The run comes to each child when those before it are done.
      have hkid : ∀ k e values scope visits, (siblings steps 0 node.expr.children)[k]? = some e →
          ctx.Run body ((siblings steps 0 node.expr.children).take k) before values scope visits →
          ctx.Comes body e.1 e.2 scope := by
        intro k e values scope visits he hrun
        rw [getElem?_siblings, Option.map_eq_some_iff] at he
        obtain ⟨child, hchild, rfl⟩ := he
        rw [take_siblings] at hrun
        exact .child hid hnode hchild hrun
      obtain ⟨_, _, _, _, _, hbehind⟩ := ihkids hkid hw
      exact ⟨_, _, _, _, _, hbehind.imp fun _ _ hvalue => hvalue.mono (List.subset_append_left _ _)⟩
    · rcases List.mem_cons.1 hw with rfl | hw
      · refine ⟨steps, node, before, inside, inputs, hnode, hid, ?_, ⟨_, hkids⟩, rfl, rfl, rfl⟩
        refine halike.of_children ?_
        have hvalues := hkids.exists_visit_value
        rw [← map_snd_siblings steps 0 node.expr.children, List.forall₂_map_left_iff]
        exact hvalues.imp fun _ _ hvalue => hvalue.mono (List.subset_append_left _ _)
      · obtain ⟨_, _, _, _, _, hbehind⟩ := ihrest (fun k e values scope visits he hrun =>
          hcomes (k + 1) e _ _ _ (by simpa using he) (.cons hnode halike hkids hrun)) hw
        exact ⟨_, _, _, _, _, hbehind.imp fun _ _ hvalue => hvalue.mono fun v hv =>
          List.mem_append_right _ (List.mem_cons_of_mem _ hv)⟩

end Context

end FrameEscape
