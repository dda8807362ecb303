import FrameEscape.Body.Validate
import FrameEscape.Proofs.Body.Paths

/-!
# Validation accepts exactly the trees

The walk of a body keeps a list of nodes to visit and a mark for each node it has seen. Its
verdict is compared with a description that knows neither: `Body.IsTree` speaks of the paths
from the root only.

* **`Body.Clear`**: the loop invariant. Nothing below the listed nodes is too deep, seen
  before, shared or mistaken.
* **`Body.clear_cons_iff`**: one step of the walk neither loses nor invents such a fault.
* **`Body.validate_eq_ok_iff`**: the headline.
-/

namespace FrameEscape

/-! ## Places -/

/-- The nodes that denote storage, by their kinds. -/
inductive Expr.Denotes {α : Type} : Expr α → Prop where
  | var (name : String) : Denotes (.var name)
  | field (base : α) (name : String) : Denotes (.field base name)
  | index (base position : α) (access : Access) : Denotes (.index base position access)

theorem Expr.isPlace_iff {α : Type} (expr : Expr α) : expr.isPlace = true ↔ expr.Denotes := by
  constructor
  · intro h
    cases expr <;> first | constructor | simp [Expr.isPlace] at h
  · rintro (_ | _ | _) <;> rfl

/-! ## Ids -/

theorem NodeId.index_injective : Function.Injective NodeId.index := by
  rintro ⟨value⟩ ⟨value'⟩ h
  exact congrArg NodeId.mk (UInt32.toNat_inj.1 h)

namespace Body

variable {body : Body}

/-! ## Trees -/

/-- The nodes that the root reaches make up a tree of at most `limit` levels below the root,
which assigns to places only. -/
structure IsTree (body : Body) (limit : Nat) : Prop where
  root_mem : body.contains body.root = true
  children_mem : ∀ id node, body.Reaches id → body.node? id = some node →
    ∀ child ∈ node.expr.children, body.contains child = true
  unique : ∀ steps steps' id, body.follow? body.root steps = some id →
    body.follow? body.root steps' = some id → steps = steps'
  shallow : ∀ steps id, body.follow? body.root steps = some id → steps.length ≤ limit
  places : ∀ id node target value mode, body.Reaches id → body.node? id = some node →
    node.expr = .assign target value mode →
    ∃ place, body.node? target = some place ∧ place.expr.Denotes

/-! ## Mistakes of one node -/

theorem mistake?_eq_none_iff {id : NodeId} {expr : Expr NodeId} :
    body.mistake? id expr = none ↔
      (∀ child ∈ expr.children, body.contains child = true) ∧
        ∀ target value mode, expr = .assign target value mode →
          ∃ place, body.node? target = some place ∧ place.expr.Denotes := by
  unfold mistake?
  cases hfind : expr.children.find? (!body.contains ·) with
  | some child =>
    have hmem : child ∈ expr.children := List.mem_of_find?_eq_some hfind
    have hmissing : body.contains child = false := by simpa using List.find?_some hfind
    simp only [reduceCtorEq, false_iff, not_and]
    intro hall
    rw [hall child hmem] at hmissing
    exact absurd hmissing (by decide)
  | none =>
    have hall : ∀ child ∈ expr.children, body.contains child = true := by
      simpa using List.find?_eq_none.1 hfind
    cases expr with
    | assign target value mode =>
      have htarget : body.contains target = true := hall target (by simp [Expr.children])
      rw [contains_eq_isSome] at htarget
      obtain ⟨place, hplace⟩ := Option.isSome_iff_exists.1 htarget
      simp only [hplace, Option.bind_some, Expr.assign.injEq, and_imp]
      refine ⟨fun h => ⟨hall, ?_⟩, fun h => ?_⟩
      · rintro _ _ _ rfl rfl rfl
        refine ⟨place, hplace, (Expr.isPlace_iff _).1 ?_⟩
        split at h
        · assumption
        · exact absurd h (by simp)
      · obtain ⟨place', hplace', hdenotes⟩ := h.2 target value mode rfl rfl rfl
        cases hplace.symm.trans hplace'
        rw [if_pos ((Expr.isPlace_iff _).2 hdenotes)]
    | _ => simpa using hall

/-! ## The invariant of the walk -/

/-- The node is part of the body and has not been seen. -/
def Unseen (seen : Vector Bool body.size) (id : NodeId) : Prop :=
  ∃ h : id.index < body.size, seen[id.index] = false

/-- Nothing below the listed nodes, each with its distance from the root, lies too deep, has
been seen, can be reached in two ways or makes a mistake by itself. -/
structure Clear (body : Body) (limit : Nat) (todo : List (NodeId × Nat))
    (seen : Vector Bool body.size) : Prop where
  shallow : ∀ e ∈ todo, ∀ steps id, body.follow? e.1 steps = some id →
    e.2 + steps.length ≤ limit
  fresh : ∀ e ∈ todo, ∀ steps id, body.follow? e.1 steps = some id → Unseen seen id
  faultless : ∀ e ∈ todo, ∀ steps id node, body.follow? e.1 steps = some id →
    body.node? id = some node → body.mistake? id node.expr = none
  single : ∀ e ∈ todo, body.Single e.1
  apart : todo.Pairwise fun e e' => body.Apart e.1 e'.1

theorem unseen_set_iff {seen : Vector Bool body.size} {id id' : NodeId}
    (hid : id.index < body.size) :
    Unseen (seen.set id.index true) id' ↔ Unseen seen id' ∧ id' ≠ id := by
  unfold Unseen
  simp only [Vector.getElem_set]
  by_cases h : id = id'
  · simp [h]
  · simp [NodeId.index_injective.ne h, Ne.symm h]

variable {limit : Nat} {seen : Vector Bool body.size} {id : NodeId} {node : Node}
  {depth : Nat} {rest : List (NodeId × Nat)}

/-- The children of a node, as the walk lists them. -/
theorem mem_below_iff {children : List NodeId} {e : NodeId × Nat} :
    e ∈ children.map (·, depth + 1) ↔ e.1 ∈ children ∧ e.2 = depth + 1 := by
  obtain ⟨child, level⟩ := e
  simp [eq_comm]

theorem Clear.step (h : body.Clear limit ((id, depth) :: rest) seen)
    (hnode : body.node? id = some node) (hid : id.index < body.size) :
    body.Clear limit (node.expr.children.map (·, depth + 1) ++ rest)
      (seen.set id.index true) := by
  have hsingle : body.Single id := h.single (id, depth) List.mem_cons_self
  obtain ⟨hhead, htail⟩ := List.pairwise_cons.1 h.apart
  -- What holds below the node holds below each of its children.
  have hbelow : ∀ {child steps target}, child ∈ node.expr.children →
      body.follow? child steps = some target →
      ∃ step, body.follow? id (step :: steps) = some target := by
    intro child steps target hchild hsteps
    obtain ⟨step, hstep⟩ := List.mem_iff_getElem?.1 hchild
    exact ⟨step, follow?_cons_iff.2 ⟨node, child, hnode, hstep, hsteps⟩⟩
  constructor
  case shallow =>
    intro e he steps target hsteps
    rcases List.mem_append.1 he with he | he
    · obtain ⟨hchild, hdepth⟩ := mem_below_iff.1 he
      obtain ⟨step, hstep⟩ := hbelow hchild hsteps
      have hle := h.shallow (id, depth) List.mem_cons_self _ target hstep
      simp only [List.length_cons] at hle
      omega
    · exact h.shallow e (List.mem_cons_of_mem _ he) steps target hsteps
  case fresh =>
    intro e he steps target hsteps
    rw [unseen_set_iff hid]
    rcases List.mem_append.1 he with he | he
    · obtain ⟨hchild, -⟩ := mem_below_iff.1 he
      obtain ⟨step, hstep⟩ := hbelow hchild hsteps
      refine ⟨h.fresh (id, depth) List.mem_cons_self _ target hstep, ?_⟩
      -- A path from a child back to the node would be a cycle.
      rintro rfl
      exact hsingle.not_below hnode hchild hsteps
    · refine ⟨h.fresh e (List.mem_cons_of_mem _ he) steps target hsteps, ?_⟩
      rintro rfl
      exact hhead e he [] steps target rfl hsteps
  case faultless =>
    intro e he steps target node' hsteps
    rcases List.mem_append.1 he with he | he
    · obtain ⟨hchild, -⟩ := mem_below_iff.1 he
      obtain ⟨step, hstep⟩ := hbelow hchild hsteps
      exact h.faultless (id, depth) List.mem_cons_self _ target node' hstep
    · exact h.faultless e (List.mem_cons_of_mem _ he) steps target node' hsteps
  case single =>
    intro e he
    rcases List.mem_append.1 he with he | he
    · exact hsingle.child hnode (mem_below_iff.1 he).1
    · exact h.single e (List.mem_cons_of_mem _ he)
  case apart =>
    refine List.pairwise_append.2 ⟨?_, htail, ?_⟩
    · exact List.pairwise_map.2 (hsingle.pairwise_children hnode)
    · intro e he e' he'
      exact (hhead e' he').child hnode (mem_below_iff.1 he).1

theorem Clear.of_step (hid : id.index < body.size)
    (h : body.Clear limit (node.expr.children.map (·, depth + 1) ++ rest)
      (seen.set id.index true))
    (hnode : body.node? id = some node) (hdepth : depth ≤ limit) (hseen : seen[id.index] = false)
    (hfaultless : body.mistake? id node.expr = none) :
    body.Clear limit ((id, depth) :: rest) seen := by
  obtain ⟨hchildren, htail, happ⟩ := List.pairwise_append.1 h.apart
  have hmem : ∀ {child}, child ∈ node.expr.children →
      (child, depth + 1) ∈ node.expr.children.map (·, depth + 1) ++ rest := by
    intro child hchild
    exact List.mem_append_left _ (List.mem_map_of_mem hchild)
  -- A path from the node is empty or a path from one of its children.
  have hcases : ∀ {steps target}, body.follow? id steps = some target →
      steps = [] ∧ id = target ∨ ∃ child ∈ node.expr.children, ∃ steps',
        body.follow? child steps' = some target ∧ steps.length = steps'.length + 1 := by
    intro steps target hsteps
    cases steps with
    | nil => exact .inl ⟨rfl, Option.some.inj hsteps⟩
    | cons step steps =>
      obtain ⟨node', child, hnode', hchild, hsteps⟩ := follow?_cons_iff.1 hsteps
      cases hnode.symm.trans hnode'
      exact .inr ⟨child, List.mem_of_getElem? hchild, steps, hsteps, rfl⟩
  have hfresh : ∀ e ∈ node.expr.children.map (·, depth + 1) ++ rest, ∀ steps target,
      body.follow? e.1 steps = some target → Unseen seen target ∧ target ≠ id :=
    fun e he steps target hsteps => (unseen_set_iff hid).1 (h.fresh e he steps target hsteps)
  constructor
  case shallow =>
    intro e he steps target hsteps
    rcases List.mem_cons.1 he with rfl | he
    · rcases hcases hsteps with ⟨rfl, -⟩ | ⟨child, hchild, steps', hsteps', hlength⟩
      · simpa using hdepth
      · have hle := h.shallow _ (hmem hchild) steps' target hsteps'
        simp only at hle ⊢
        omega
    · exact h.shallow e (List.mem_append_right _ he) steps target hsteps
  case fresh =>
    intro e he steps target hsteps
    rcases List.mem_cons.1 he with rfl | he
    · rcases hcases hsteps with ⟨-, rfl⟩ | ⟨child, hchild, steps', hsteps', -⟩
      · exact ⟨hid, hseen⟩
      · exact (hfresh _ (hmem hchild) steps' target hsteps').1
    · exact (hfresh e (List.mem_append_right _ he) steps target hsteps).1
  case faultless =>
    intro e he steps target node' hsteps hnode'
    rcases List.mem_cons.1 he with rfl | he
    · rcases hcases hsteps with ⟨-, rfl⟩ | ⟨child, hchild, steps', hsteps', -⟩
      · cases hnode.symm.trans hnode'
        exact hfaultless
      · exact h.faultless _ (hmem hchild) steps' target node' hsteps' hnode'
    · exact h.faultless e (List.mem_append_right _ he) steps target node' hsteps hnode'
  case single =>
    intro e he
    rcases List.mem_cons.1 he with rfl | he
    · refine single_of_children hnode (fun child hchild => h.single _ (hmem hchild))
        (by simpa only [List.pairwise_map] using hchildren) fun child hchild steps hsteps => ?_
      exact (hfresh _ (hmem hchild) steps id hsteps).2 rfl
    · exact h.single e (List.mem_append_right _ he)
  case apart =>
    refine List.pairwise_cons.2 ⟨fun e he steps steps' target hsteps hsteps' => ?_, htail⟩
    rcases hcases hsteps with ⟨-, rfl⟩ | ⟨child, hchild, steps'', hsteps'', -⟩
    · exact (hfresh e (List.mem_append_right _ he) steps' id hsteps').2 rfl
    · exact happ _ (List.mem_map_of_mem hchild) e he steps'' steps' target hsteps'' hsteps'

/-- One step of the walk: a node that may be visited is replaced by its children. -/
theorem clear_cons_iff (hid : id.index < body.size) (hnode : body.node? id = some node)
    (hdepth : depth ≤ limit) (hseen : seen[id.index] = false)
    (hfaultless : body.mistake? id node.expr = none) :
    body.Clear limit ((id, depth) :: rest) seen ↔
      body.Clear limit (node.expr.children.map (·, depth + 1) ++ rest)
        (seen.set id.index true) :=
  ⟨fun h => h.step hnode hid, fun h => h.of_step hid hnode hdepth hseen hfaultless⟩

/-- The walk accepts what is clear below the listed nodes. Induction on its recursion, with
`clear_cons_iff` where a node is visited. -/
theorem walk_eq_ok_iff (todo : List (NodeId × Nat)) (seen : Vector Bool body.size)
    (htodo : ∀ e ∈ todo, body.contains e.1 = true) :
    body.walk limit todo seen = .ok () ↔ body.Clear limit todo seen := by
  fun_induction walk body limit todo seen with
  | case1 seen =>
    refine iff_of_true rfl ⟨?_, ?_, ?_, ?_, .nil⟩ <;> simp
  | case2 seen id depth rest hdeep =>
    refine iff_of_false (by simp) fun h => ?_
    have hle := h.shallow _ List.mem_cons_self [] id rfl
    simp only [List.length_nil] at hle
    omega
  | case3 seen id depth rest hdeep hid hseen =>
    refine iff_of_false (by simp) fun h => ?_
    obtain ⟨_, hunseen⟩ := h.fresh _ List.mem_cons_self [] id rfl
    rw [hunseen] at hseen
    exact absurd hseen (by decide)
  | case4 seen id depth rest hdeep hid hseen expr mistake hmistake =>
    refine iff_of_false (by simp) fun h => ?_
    have hnone := h.faultless _ List.mem_cons_self [] id _ rfl (Array.getElem?_eq_getElem hid)
    exact absurd (hmistake.symm.trans hnone) (by simp)
  | case5 seen id depth rest hdeep hid hseen expr hmistake ih =>
    -- The only case that goes on: the children take the place of the node.
    have hchildren := (mistake?_eq_none_iff.1 hmistake).1
    rw [ih ?_]
    · exact (clear_cons_iff hid (Array.getElem?_eq_getElem hid) (Nat.le_of_not_lt hdeep)
        (Bool.eq_false_iff.2 hseen) hmistake).symm
    · intro e he
      rcases List.mem_append.1 he with he | he
      · exact hchildren e.1 (mem_below_iff.1 he).1
      · exact htodo e (List.mem_cons_of_mem _ he)
  | case6 seen id depth rest hdeep hid ih =>
    -- A missing node is never listed.
    have hmem := htodo _ List.mem_cons_self
    exact absurd (of_decide_eq_true hmem) hid

/-! ## The invariant at the root -/

theorem IsTree.contains_of_follow? {limit : Nat} (h : body.IsTree limit) {steps : List Nat}
    {id : NodeId} (hsteps : body.follow? body.root steps = some id) :
    body.contains id = true := by
  rcases List.eq_nil_or_concat steps with rfl | ⟨init, step, rfl⟩
  · cases hsteps
    exact h.root_mem
  · rw [List.concat_eq_append, follow?_append] at hsteps
    obtain ⟨mid, hmid, hstep⟩ := Option.bind_eq_some_iff.1 hsteps
    obtain ⟨node, child, hnode, hchild, heq⟩ := follow?_cons_iff.1 hstep
    cases heq
    exact h.children_mem mid node ⟨init, hmid⟩ hnode id (List.mem_of_getElem? hchild)

theorem IsTree.clear {limit : Nat} (h : body.IsTree limit) :
    body.Clear limit [(body.root, 0)] (Vector.replicate body.size false) := by
  constructor
  case shallow =>
    intro e he steps id hsteps
    cases List.mem_singleton.1 he
    simpa using h.shallow steps id hsteps
  case fresh =>
    intro e he steps id hsteps
    cases List.mem_singleton.1 he
    exact ⟨of_decide_eq_true (h.contains_of_follow? hsteps), Vector.getElem_replicate _⟩
  case faultless =>
    intro e he steps id node hsteps hnode
    cases List.mem_singleton.1 he
    refine mistake?_eq_none_iff.2 ⟨h.children_mem id node ⟨steps, hsteps⟩ hnode, ?_⟩
    intro target value mode hassign
    exact h.places id node target value mode ⟨steps, hsteps⟩ hnode hassign
  case single =>
    intro e he steps steps' target hsteps hsteps'
    cases List.mem_singleton.1 he
    exact h.unique steps steps' target hsteps hsteps'
  case apart => exact List.pairwise_singleton _ _

theorem Clear.isTree {limit : Nat} {seen : Vector Bool body.size}
    (hroot : body.contains body.root = true)
    (h : body.Clear limit [(body.root, 0)] seen) : body.IsTree limit := by
  have hfaultless : ∀ id node, body.Reaches id → body.node? id = some node →
      body.mistake? id node.expr = none := by
    intro id node hid hnode
    obtain ⟨steps, hsteps⟩ := hid
    exact h.faultless _ List.mem_cons_self steps id node hsteps hnode
  constructor
  case root_mem => exact hroot
  case children_mem =>
    intro id node hid hnode
    exact (mistake?_eq_none_iff.1 (hfaultless id node hid hnode)).1
  case unique => exact h.single _ List.mem_cons_self
  case shallow =>
    intro steps id hsteps
    simpa using h.shallow _ List.mem_cons_self steps id hsteps
  case places =>
    intro id node target value mode hid hnode hassign
    exact (mistake?_eq_none_iff.1 (hfaultless id node hid hnode)).2 target value mode hassign

theorem IsTree.validate {limit : Nat} (h : body.IsTree limit) :
    body.validate limit = .ok () := by
  unfold Body.validate
  rw [if_pos h.root_mem, walk_eq_ok_iff _ _ (by simpa using h.root_mem)]
  exact h.clear

theorem isTree_of_validate {limit : Nat} (h : body.validate limit = .ok ()) :
    body.IsTree limit := by
  unfold Body.validate at h
  split at h
  next hroot =>
    rw [walk_eq_ok_iff _ _ (by simpa using hroot)] at h
    exact h.isTree hroot
  · exact absurd h (by simp)

/-! ## Bounded descent -/

/-- A descent from the node by fewer than `depth` steps meets all that is below it, and no
missing node. -/
def Fits (body : Body) (depth : Nat) (id : NodeId) : Prop :=
  ∀ steps target, body.follow? id steps = some target →
    steps.length < depth ∧ body.contains target = true

theorem IsTree.fits {limit : Nat} (h : body.IsTree limit) : body.Fits (limit + 1) body.root :=
  fun steps id hsteps =>
    ⟨Nat.lt_succ_of_le (h.shallow steps id hsteps), h.contains_of_follow? hsteps⟩

theorem Fits.exists_node {depth : Nat} {id : NodeId} (h : body.Fits depth id) :
    ∃ node, body.node? id = some node := by
  have hmem := (h [] id rfl).2
  rw [contains_eq_isSome] at hmem
  exact Option.isSome_iff_exists.1 hmem

theorem Fits.child {depth : Nat} {id child : NodeId} {node : Node}
    (h : body.Fits (depth + 1) id) (hnode : body.node? id = some node)
    (hchild : child ∈ node.expr.children) : body.Fits depth child := by
  obtain ⟨step, hstep⟩ := List.mem_iff_getElem?.1 hchild
  intro steps target hsteps
  obtain ⟨hlength, hmem⟩ :=
    h (step :: steps) target (follow?_cons_iff.2 ⟨node, child, hnode, hstep, hsteps⟩)
  exact ⟨Nat.lt_of_succ_lt_succ hlength, hmem⟩

theorem Fits.of_children {depth : Nat} {id : NodeId} {node : Node}
    (hnode : body.node? id = some node)
    (hchildren : ∀ child ∈ node.expr.children, body.Fits depth child) :
    body.Fits (depth + 1) id := by
  intro steps target hsteps
  cases steps with
  | nil =>
    cases hsteps
    exact ⟨Nat.succ_pos depth, by rw [contains_eq_isSome, hnode]; rfl⟩
  | cons step steps =>
    obtain ⟨node', child, hnode', hchild, hrest⟩ := follow?_cons_iff.1 hsteps
    cases hnode.symm.trans hnode'
    obtain ⟨hlength, hmem⟩ := hchildren child (List.mem_of_getElem? hchild) steps target hrest
    exact ⟨Nat.succ_lt_succ hlength, hmem⟩

/-! ## The headline -/

/-- **Validation accepts exactly the trees.** Whatever the nodes of a body refer to, the walk
ends, and it accepts the body if and only if `Body.IsTree` holds of it. -/
theorem validate_eq_ok_iff (body : Body) (limit : Nat) :
    body.validate limit = .ok () ↔ body.IsTree limit :=
  ⟨isTree_of_validate, IsTree.validate⟩

end Body

end FrameEscape
