import FrameEscape.Proofs.Body.Tree
import Mathlib

/-!
# Validation is a descent in pre-order

The walk of a body keeps its own list of nodes to visit, so that it need not recurse into a body
that runs in a circle. It agrees with the recursion that one would write for a tree.

* **`Body.descend`**: that recursion. A node is checked, and then its children are visited from left
  to right, while the list of the nodes seen so far is handed on. The limit on the depth is what
  ends it.
* **`Body.walk_eq_foldlM`**: the walk of some listed nodes is the descent into one after the other.
* **`Body.FaultAt`**: what is wrong at the end of a path, said of the paths from the root only.
  Paths are compared by `<`, the order of lists of numbers. It is pre-order: a path comes before
  those that go on from it, and these before the paths further to the right.
* **`Body.outcome_descend`**: a descent stops at the first path that has a fault.
-/

namespace FrameEscape

/-! ## Pre-order of paths -/

section PreOrder

variable {steps earlier : List Nat} {i : Nat}

/-- What comes before the first child of a node: the node, and what comes before it. -/
theorem lt_concat_zero_iff : earlier < steps ++ [0] ↔ earlier < steps ∨ earlier = steps := by
  induction steps generalizing earlier with
  | nil => cases earlier <;> simp [List.cons_lt_cons_iff]
  | cons step steps ih =>
    cases earlier with
    | nil => simp
    | cons first rest =>
      simp only [List.cons_append, List.cons_lt_cons_iff, ih, List.cons.injEq]
      tauto

/-- What comes before the next child of a node: what is below the child, and what comes before
that. -/
theorem lt_concat_succ_iff :
    earlier < steps ++ [i + 1] ↔ earlier < steps ++ [i] ∨ steps ++ [i] <+: earlier := by
  induction steps generalizing earlier with
  | nil =>
    cases earlier with
    | nil => simp
    | cons first rest =>
      simp only [List.nil_append, List.cons_lt_cons_iff, List.not_lt_nil, and_false, or_false,
        List.cons_prefix_cons, List.nil_prefix, and_true]
      omega
  | cons step steps ih =>
    cases earlier with
    | nil => simp
    | cons first rest =>
      simp only [List.cons_append, List.cons_lt_cons_iff, ih, List.cons_prefix_cons]
      tauto

/-- What comes before a child is below the node, or comes before the node. -/
theorem lt_or_isPrefix_of_lt_concat (h : earlier < steps ++ [i]) :
    earlier < steps ∨ steps <+: earlier := by
  induction i with
  | zero =>
    rcases lt_concat_zero_iff.1 h with h | rfl
    · exact .inl h
    · exact .inr (List.prefix_refl _)
  | succ i ih =>
    rcases lt_concat_succ_iff.1 h with h | h
    · exact ih h
    · exact .inr ((List.prefix_append steps [i]).trans h)

/-- A node, and what comes before it, comes before its children. -/
theorem lt_concat_of_lt_or_eq (h : earlier < steps ∨ earlier = steps) :
    earlier < steps ++ [i] := by
  induction i with
  | zero => exact lt_concat_zero_iff.2 h
  | succ i ih => exact lt_concat_succ_iff.2 (.inl ih)

end PreOrder

namespace Body

variable {body : Body} {limit : Nat}

/-! ## The recursive walk -/

/-- The first child that is not in the body. -/
def missingChild? (body : Body) (expr : Expr NodeId) : Option NodeId :=
  expr.children.find? fun child => (body.node? child).isNone

/-- The kind of the target of an assignment, if it is not a place. -/
def misplaced? (body : Body) : Expr NodeId → Option String
  | .assign target _ _ =>
    (body.node? target).bind fun place =>
      if place.expr.isPlace then none else some place.expr.describe
  | _ => none

/-- The first check that a node at this distance from the root fails, where `seen` are the nodes
visited before it. -/
def fault? (body : Body) (limit depth : Nat) (id : NodeId) (seen : List NodeId) :
    Option Malformed :=
  if limit < depth then some (.tooDeep id limit)
  else if id ∈ seen then some (.sharedNode id)
  else
    (body.node? id).bind fun node =>
      match body.missingChild? node.expr with
      | some child => some (.danglingChild id child)
      | none => (body.misplaced? node.expr).map (.notAPlace id ·)

/-- The children of a node, of which one that is not in the body has none. -/
def childrenOf (body : Body) (id : NodeId) : List NodeId :=
  (body.node? id).elim [] (·.expr.children)

theorem le_of_fault?_eq_none {depth : Nat} {id : NodeId} {seen : List NodeId}
    (h : body.fault? limit depth id seen = none) : depth ≤ limit := by
  unfold fault? at h
  split at h
  · cases h
  next hdeep => exact Nat.le_of_not_lt hdeep

/-- Check a node, and then visit its children from left to right. The nodes seen so far are handed
on from one node to the next. -/
def descend (body : Body) (limit depth : Nat) (id : NodeId) (seen : List NodeId) :
    Except Malformed (List NodeId) :=
  match hfault : body.fault? limit depth id seen with
  | some mistake => .error mistake
  | none =>
    (body.childrenOf id).foldlM (fun seen child => body.descend limit (depth + 1) child seen)
      (id :: seen)
termination_by limit + 1 - depth
decreasing_by
  have hle : depth ≤ limit := le_of_fault?_eq_none hfault
  omega

/-- Validation by descent from the root. -/
def validateByDescent (body : Body) (limit : Nat) : Except Malformed Unit :=
  match body.node? body.root with
  | none => .error (.missingRoot body.root body.size)
  | some _ => (body.descend limit 0 body.root []).map fun _ => ()

/-! ## The walk is that descent -/

theorem mistake?_eq (id : NodeId) (expr : Expr NodeId) :
    body.mistake? id expr =
      match body.missingChild? expr with
      | some child => some (.danglingChild id child)
      | none => (body.misplaced? expr).map (.notAPlace id ·) := by
  have hmissing : (fun child => !body.contains child) =
      fun child => (body.node? child).isNone := by
    funext child
    rw [contains_eq_isSome, Option.not_isSome]
  unfold mistake? missingChild?
  rw [hmissing]
  cases expr.children.find? fun child => (body.node? child).isNone with
  | some child => rfl
  | none =>
    cases expr with
    | assign target value mode =>
      simp only [misplaced?, Option.map_bind]
      refine congrArg (Option.bind _) (funext fun place => ?_)
      cases hplace : place.expr.isPlace <;> simp [hplace]
    | _ => rfl

/-- The marks of the walk are on the nodes in the list. -/
def Marks (seen : Vector Bool body.size) (visited : List NodeId) : Prop :=
  ∀ id (h : id.index < body.size), seen[id.index] = true ↔ id ∈ visited

theorem Marks.set {seen : Vector Bool body.size} {visited : List NodeId} (h : Marks seen visited)
    {id : NodeId} (hid : id.index < body.size) :
    Marks (seen.set id.index true) (id :: visited) := by
  intro id' hid'
  rw [Vector.getElem_set, List.mem_cons, ← h id' hid']
  by_cases heq : id = id'
  · simp [heq]
  · simp [NodeId.index_injective.ne heq, Ne.symm heq]

theorem descend_of_fault {depth : Nat} {id : NodeId} {seen : List NodeId} {mistake : Malformed}
    (h : body.fault? limit depth id seen = some mistake) :
    body.descend limit depth id seen = .error mistake := by
  rw [descend]
  split
  next heq =>
    cases h.symm.trans heq
    rfl
  next heq => cases h.symm.trans heq

theorem descend_of_no_fault {depth : Nat} {id : NodeId} {seen : List NodeId}
    (h : body.fault? limit depth id seen = none) :
    body.descend limit depth id seen =
      (body.childrenOf id).foldlM
        (fun seen child => body.descend limit (depth + 1) child seen) (id :: seen) := by
  rw [descend]
  split
  next heq => cases h.symm.trans heq
  next => rfl

/-- The walk of the listed nodes descends into one after the other. Induction on the recursion of
the walk: where it puts the children of a node before the rest of the list, the descent goes through
the children before it comes to the rest. -/
theorem walk_eq_foldlM (todo : List (NodeId × Nat)) (seen : Vector Bool body.size)
    (visited : List NodeId) (hmarks : Marks seen visited)
    (htodo : ∀ e ∈ todo, body.contains e.1 = true) :
    body.walk limit todo seen =
      (todo.foldlM (fun visited e => body.descend limit e.2 e.1 visited) visited).map
        fun _ => () := by
  fun_induction walk body limit todo seen generalizing visited with
  | case1 seen => rfl
  | case2 seen id depth rest hdeep =>
    have hfault : body.fault? limit depth id visited = some (.tooDeep id limit) := if_pos hdeep
    rw [List.foldlM_cons, descend_of_fault hfault]
    rfl
  | case3 seen id depth rest hdeep hid hseen =>
    have hfault : body.fault? limit depth id visited = some (.sharedNode id) := by
      rw [fault?, if_neg hdeep, if_pos ((hmarks id hid).1 hseen)]
    rw [List.foldlM_cons, descend_of_fault hfault]
    rfl
  | case4 seen id depth rest hdeep hid hseen expr mistake hmistake =>
    have hnode : body.node? id = some body.nodes[id.index] := Array.getElem?_eq_getElem hid
    have hfault : body.fault? limit depth id visited = some mistake := by
      rw [fault?, if_neg hdeep, if_neg fun h => hseen ((hmarks id hid).2 h), hnode]
      exact (mistake?_eq id expr).symm.trans hmistake
    rw [List.foldlM_cons, descend_of_fault hfault]
    rfl
  | case5 seen id depth rest hdeep hid hseen expr hmistake ih =>
    have hnode : body.node? id = some body.nodes[id.index] := Array.getElem?_eq_getElem hid
    have hfault : body.fault? limit depth id visited = none := by
      rw [fault?, if_neg hdeep, if_neg fun h => hseen ((hmarks id hid).2 h), hnode]
      exact (mistake?_eq id expr).symm.trans hmistake
    have hchildren : body.childrenOf id = expr.children := by
      rw [childrenOf, hnode]
      rfl
    have hcontains := (mistake?_eq_none_iff.1 hmistake).1
    rw [ih (id :: visited) (hmarks.set hid) fun e he => ?_]
    · rw [List.foldlM_append, List.foldlM_map, List.foldlM_cons, descend_of_no_fault hfault,
        hchildren]
    · rcases List.mem_append.1 he with he | he
      · exact hcontains e.1 (mem_below_iff.1 he).1
      · exact htodo e (List.mem_cons_of_mem _ he)
  | case6 seen id depth rest hdeep hid ih =>
    -- A missing node is never listed.
    have hmem := htodo _ List.mem_cons_self
    exact absurd (of_decide_eq_true hmem) hid

theorem validate_eq_validateByDescent (body : Body) (limit : Nat) :
    body.validate limit = body.validateByDescent limit := by
  unfold validate validateByDescent
  cases hroot : body.node? body.root with
  | none => rw [contains_eq_isSome, hroot, if_neg (by simp)]
  | some node =>
    have hmem : body.contains body.root = true := by rw [contains_eq_isSome, hroot]; rfl
    have hmarks : Marks (Vector.replicate body.size false) [] := fun id hid => by simp
    rw [if_pos hmem, walk_eq_foldlM _ _ [] hmarks (by simpa using hmem)]
    simp

/-! ## Faults at the ends of paths -/

/-- The node at the end of the path is within the limit, and no path before leads to it. -/
structure ComesFirst (body : Body) (limit : Nat) (steps : List Nat) (id : NodeId) : Prop where
  leads : body.follow? body.root steps = some id
  shallow : steps.length ≤ limit
  first : ∀ earlier < steps, body.follow? body.root earlier ≠ some id

/-- What is wrong with the node at the end of the path: the first of these that it is. It lies one
step too deep; a path before leads to it as well; it has a child that is missing, of which the
first is named; it assigns to something that is not a place. -/
inductive FaultAt (body : Body) (limit : Nat) (steps : List Nat) : Malformed → Prop where
  | tooDeep {id} (hleads : body.follow? body.root steps = some id)
      (hdeep : steps.length = limit + 1) : FaultAt body limit steps (.tooDeep id limit)
  | sharedNode {id earlier} (hleads : body.follow? body.root steps = some id)
      (hshallow : steps.length ≤ limit) (hearlier : earlier < steps)
      (hagain : body.follow? body.root earlier = some id) :
      FaultAt body limit steps (.sharedNode id)
  | danglingChild {id node front child back} (hcomes : body.ComesFirst limit steps id)
      (hnode : body.node? id = some node) (hchildren : node.expr.children = front ++ child :: back)
      (hfront : ∀ other ∈ front, body.contains other = true)
      (hmissing : body.contains child = false) :
      FaultAt body limit steps (.danglingChild id child)
  | notAPlace {id node target value mode place} (hcomes : body.ComesFirst limit steps id)
      (hnode : body.node? id = some node)
      (hcontains : ∀ child ∈ node.expr.children, body.contains child = true)
      (hassign : node.expr = .assign target value mode) (hplace : body.node? target = some place)
      (hnot : ¬ place.expr.Denotes) :
      FaultAt body limit steps (.notAPlace id place.expr.describe)

/-- It is what is wrong at the end of a path, and nothing is wrong at the end of those before. -/
def FirstFault (body : Body) (limit : Nat) (mistake : Malformed) : Prop :=
  ∃ steps, body.FaultAt limit steps mistake ∧
    ∀ earlier < steps, ∀ other, ¬ body.FaultAt limit earlier other

/-! ## The first fault -/

/-- The paths in `done` have been gone through: the nodes seen are those at their ends, and nothing
is wrong at the end of any of them. -/
structure Passed (body : Body) (limit : Nat) (done : List Nat → Prop) (seen : List NodeId) :
    Prop where
  mem_iff : ∀ id, id ∈ seen ↔ ∃ steps, done steps ∧ body.follow? body.root steps = some id
  faultless : ∀ steps, done steps → ∀ mistake, ¬ body.FaultAt limit steps mistake

/-- The paths in `done` have been gone through, or the first fault has been found. -/
def Outcome (body : Body) (limit : Nat) (done : List Nat → Prop) :
    Except Malformed (List NodeId) → Prop
  | .ok seen => body.Passed limit done seen
  | .error mistake => body.FirstFault limit mistake

theorem Outcome.bind {done done' : List Nat → Prop} {first : Except Malformed (List NodeId)}
    {next : List NodeId → Except Malformed (List NodeId)} (h : body.Outcome limit done first)
    (hnext : ∀ seen, body.Passed limit done seen → body.Outcome limit done' (next seen)) :
    body.Outcome limit done' (first >>= next) := by
  cases first with
  | error mistake => exact h
  | ok seen => exact hnext seen h

theorem FaultAt.exists_node {steps : List Nat} {mistake : Malformed}
    (h : body.FaultAt limit steps mistake) : ∃ id, body.follow? body.root steps = some id := by
  cases h with
  | tooDeep hleads | sharedNode hleads => exact ⟨_, hleads⟩
  | danglingChild hcomes | notAPlace hcomes => exact ⟨_, hcomes.leads⟩

/-- Paths that lead nowhere do not count. -/
theorem Passed.congr {done done' : List Nat → Prop} {seen : List NodeId}
    (h : body.Passed limit done seen)
    (hiff : ∀ steps id, body.follow? body.root steps = some id → (done steps ↔ done' steps)) :
    body.Passed limit done' seen := by
  constructor
  case mem_iff =>
    intro id
    rw [h.mem_iff]
    exact exists_congr fun steps => and_congr_left fun hsteps => hiff steps id hsteps
  case faultless =>
    intro steps hdone mistake hfault
    obtain ⟨id, hsteps⟩ := hfault.exists_node
    exact h.faultless steps ((hiff steps id hsteps).2 hdone) mistake hfault

theorem Outcome.congr {done done' : List Nat → Prop} {result : Except Malformed (List NodeId)}
    (h : body.Outcome limit done result)
    (hiff : ∀ steps id, body.follow? body.root steps = some id → (done steps ↔ done' steps)) :
    body.Outcome limit done' result := by
  cases result with
  | error mistake => exact h
  | ok seen => exact Passed.congr h hiff

variable {steps : List Nat} {id : NodeId} {seen : List NodeId}

theorem missingChild?_eq_some_iff {expr : Expr NodeId} {child : NodeId} :
    body.missingChild? expr = some child ↔ body.contains child = false ∧
      ∃ front back, expr.children = front ++ child :: back ∧
        ∀ other ∈ front, body.contains other = true := by
  simp [missingChild?, List.find?_eq_some_iff_append, contains_eq_isSome]

theorem missingChild?_eq_none_iff {expr : Expr NodeId} :
    body.missingChild? expr = none ↔ ∀ child ∈ expr.children, body.contains child = true := by
  simp [missingChild?, contains_eq_isSome, Option.isSome_iff_ne_none]

theorem misplaced?_eq_some_iff {expr : Expr NodeId} {found : String} :
    body.misplaced? expr = some found ↔ ∃ target value mode place,
      expr = .assign target value mode ∧ body.node? target = some place ∧
        ¬ place.expr.Denotes ∧ found = place.expr.describe := by
  cases expr with
  | assign target value mode =>
    have hplace : ∀ place : Node,
        (if place.expr.isPlace then none else some place.expr.describe) = some found ↔
          ¬ place.expr.Denotes ∧ found = place.expr.describe := by
      intro place
      rw [← Expr.isPlace_iff]
      cases place.expr.isPlace <;> simp [eq_comm]
    simp only [misplaced?, Option.bind_eq_some_iff, hplace]
    constructor
    · rintro ⟨place, hnode, hnot⟩
      exact ⟨target, value, mode, place, rfl, hnode, hnot⟩
    · rintro ⟨_, _, _, place, heq, hnode, hnot⟩
      cases heq
      exact ⟨place, hnode, hnot⟩
  | _ => simp [misplaced?]

/-- What is wrong at the end of a path is what the checks find, when they are made after those of
the paths before. -/
theorem FaultAt.fault?_eq {mistake : Malformed} (h : body.FaultAt limit steps mistake)
    (hpassed : body.Passed limit (· < steps) seen)
    (hleads : body.follow? body.root steps = some id) :
    body.fault? limit steps.length id seen = some mistake := by
  -- The first two checks let a node pass that a path comes to first.
  have hfirst : body.ComesFirst limit steps id →
      ¬ limit < steps.length ∧ id ∉ seen := by
    intro hcomes
    refine ⟨Nat.not_lt.2 hcomes.shallow, fun hmem => ?_⟩
    obtain ⟨earlier, hearlier, hagain⟩ := (hpassed.mem_iff id).1 hmem
    exact hcomes.first earlier hearlier hagain
  cases h with
  | tooDeep hleads' hdeep =>
    cases hleads.symm.trans hleads'
    exact if_pos (by omega)
  | sharedNode hleads' hshallow hearlier hagain =>
    cases hleads.symm.trans hleads'
    have hmem : id ∈ seen := (hpassed.mem_iff id).2 ⟨_, hearlier, hagain⟩
    rw [fault?, if_neg (Nat.not_lt.2 hshallow), if_pos hmem]
  | danglingChild hcomes hnode hchildren hfront hmissing =>
    cases hleads.symm.trans hcomes.leads
    obtain ⟨hdeep, hseen⟩ := hfirst hcomes
    have hchild := missingChild?_eq_some_iff.2 ⟨hmissing, _, _, hchildren, hfront⟩
    rw [fault?, if_neg hdeep, if_neg hseen, hnode, Option.bind_some, hchild]
  | notAPlace hcomes hnode hcontains hassign hplace hnot =>
    cases hleads.symm.trans hcomes.leads
    obtain ⟨hdeep, hseen⟩ := hfirst hcomes
    have hnone := missingChild?_eq_none_iff.2 hcontains
    have hfound := misplaced?_eq_some_iff.2 ⟨_, _, _, _, hassign, hplace, hnot, rfl⟩
    rw [fault?, if_neg hdeep, if_neg hseen, hnode, Option.bind_some, hnone, hfound]
    rfl

/-- What the checks find is wrong at the end of the path. -/
theorem faultAt_of_fault? {mistake : Malformed}
    (h : body.fault? limit steps.length id seen = some mistake)
    (hpassed : body.Passed limit (· < steps) seen)
    (hleads : body.follow? body.root steps = some id) (hlength : steps.length ≤ limit + 1) :
    body.FaultAt limit steps mistake := by
  unfold fault? at h
  split at h
  next hdeep =>
    cases h
    exact .tooDeep hleads (by omega)
  next hdeep =>
    split at h
    next hseen =>
      cases h
      obtain ⟨earlier, hearlier, hagain⟩ := (hpassed.mem_iff id).1 hseen
      exact .sharedNode hleads (Nat.le_of_not_lt hdeep) hearlier hagain
    next hseen =>
      have hcomes : body.ComesFirst limit steps id :=
        ⟨hleads, Nat.le_of_not_lt hdeep, fun earlier hearlier hagain =>
          hseen ((hpassed.mem_iff id).2 ⟨earlier, hearlier, hagain⟩)⟩
      obtain ⟨node, hnode, hcheck⟩ := Option.bind_eq_some_iff.1 h
      cases hchild : body.missingChild? node.expr with
      | some child =>
        rw [hchild] at hcheck
        cases hcheck
        obtain ⟨hmissing, front, back, hchildren, hfront⟩ := missingChild?_eq_some_iff.1 hchild
        exact .danglingChild hcomes hnode hchildren hfront hmissing
      | none =>
        rw [hchild] at hcheck
        obtain ⟨found, hfound, rfl⟩ := Option.map_eq_some_iff.1 hcheck
        obtain ⟨target, value, mode, place, hassign, hplace, hnot, rfl⟩ :=
          misplaced?_eq_some_iff.1 hfound
        exact .notAPlace hcomes hnode (missingChild?_eq_none_iff.1 hchild) hassign hplace hnot

/-- A node that passes the checks is seen, and its first child is next. -/
theorem Passed.enter (h : body.Passed limit (· < steps) seen)
    (hleads : body.follow? body.root steps = some id)
    (hfault : body.fault? limit steps.length id seen = none) :
    body.Passed limit (· < steps ++ [0]) (id :: seen) := by
  constructor
  case mem_iff =>
    intro target
    simp only [List.mem_cons, h.mem_iff, lt_concat_zero_iff]
    constructor
    · rintro (rfl | ⟨path, hlt, hpath⟩)
      · exact ⟨steps, .inr rfl, hleads⟩
      · exact ⟨path, .inl hlt, hpath⟩
    · rintro ⟨path, hlt | rfl, hpath⟩
      · exact .inr ⟨path, hlt, hpath⟩
      · exact .inl (Option.some.inj (hpath.symm.trans hleads))
  case faultless =>
    intro path hlt mistake hwrong
    rcases lt_concat_zero_iff.1 hlt with hlt | rfl
    · exact h.faultless path hlt mistake hwrong
    · exact absurd (hfault.symm.trans (hwrong.fault?_eq h hleads)) (by simp)

theorem contains_of_fault?_eq_none {depth : Nat} {node : Node}
    (hfault : body.fault? limit depth id seen = none) (hnode : body.node? id = some node) :
    ∀ child ∈ node.expr.children, body.contains child = true := by
  unfold fault? at hfault
  split at hfault
  · cases hfault
  · split at hfault
    · cases hfault
    · rw [hnode, Option.bind_some] at hfault
      split at hfault
      · cases hfault
      next hnone => exact missingChild?_eq_none_iff.1 hnone

/-- Children that are visited from left to right. -/
theorem outcome_children {visit : List NodeId → NodeId → Except Malformed (List NodeId)}
    (front : List NodeId) {ids : List NodeId}
    (hvisit : ∀ i child seen, (front ++ ids)[i]? = some child →
      body.Passed limit (· < steps ++ [i]) seen →
      body.Outcome limit (· < steps ++ [i + 1]) (visit seen child))
    (hpassed : body.Passed limit (· < steps ++ [front.length]) seen) :
    body.Outcome limit (· < steps ++ [(front ++ ids).length]) (ids.foldlM visit seen) := by
  induction ids generalizing front seen with
  | nil =>
    rw [List.append_nil]
    exact hpassed
  | cons id ids ih =>
    rw [List.foldlM_cons]
    refine (hvisit front.length id seen (by simp) hpassed).bind fun seen' hpassed' => ?_
    have hrest : body.Outcome limit (· < steps ++ [(front ++ [id] ++ ids).length])
        (ids.foldlM visit seen') :=
      ih (front ++ [id]) (by simpa using hvisit) (by simpa using hpassed')
    simpa using hrest

/-- The paths up to the last child of a node are those up to the node and the paths below it. -/
theorem lt_concat_iff_of_leads {node : Node} {earlier : List Nat} {target : NodeId}
    (hleads : body.follow? body.root steps = some id) (hnode : body.node? id = some node)
    (hearlier : body.follow? body.root earlier = some target) :
    earlier < steps ++ [node.expr.children.length] ↔ earlier < steps ∨ steps <+: earlier := by
  refine ⟨lt_or_isPrefix_of_lt_concat, ?_⟩
  rintro (hlt | ⟨more, rfl⟩)
  · exact lt_concat_of_lt_or_eq (.inl hlt)
  cases more with
  | nil => exact lt_concat_of_lt_or_eq (.inr (List.append_nil steps))
  | cons step more =>
    rw [follow?_append, hleads, Option.bind_some] at hearlier
    obtain ⟨node', child, hnode', hchild, -⟩ := follow?_cons_iff.1 hearlier
    cases hnode.symm.trans hnode'
    obtain ⟨hlt, -⟩ := List.getElem?_eq_some_iff.1 hchild
    exact List.append_left_lt (List.cons_lt_cons_iff.2 (.inl hlt))

/-- A descent into a node goes through all that is below it, or stops at the first fault. Induction
on what is left of the limit. -/
theorem outcome_descend (hleads : body.follow? body.root steps = some id)
    (hid : body.contains id = true) (hlength : steps.length ≤ limit + 1)
    (hpassed : body.Passed limit (· < steps) seen) :
    body.Outcome limit (fun path => path < steps ∨ steps <+: path)
      (body.descend limit steps.length id seen) := by
  induction hleft : limit + 1 - steps.length generalizing steps id seen with
  | zero =>
    -- The node lies too deep, and is not descended into.
    have hfault : body.fault? limit steps.length id seen = some (.tooDeep id limit) :=
      if_pos (by omega)
    rw [descend_of_fault hfault]
    exact ⟨steps, faultAt_of_fault? hfault hpassed hleads hlength, hpassed.faultless⟩
  | succ left ih =>
    cases hfault : body.fault? limit steps.length id seen with
    | some mistake =>
      rw [descend_of_fault hfault]
      exact ⟨steps, faultAt_of_fault? hfault hpassed hleads hlength, hpassed.faultless⟩
    | none =>
      rw [contains_eq_isSome] at hid
      obtain ⟨node, hnode⟩ := Option.isSome_iff_exists.1 hid
      have hchildren : body.childrenOf id = node.expr.children := by
        rw [childrenOf, hnode]
        rfl
      have hcontains := contains_of_fault?_eq_none hfault hnode
      rw [descend_of_no_fault hfault, hchildren]
      refine (outcome_children [] (fun i child seen' hchild hpassed' => ?_)
        (hpassed.enter hleads hfault)).congr fun path target => lt_concat_iff_of_leads hleads hnode
      -- What is gone through with a child is what comes before the next one.
      have hleadsChild := follow?_child hleads hnode hchild
      have hmem := hcontains child (List.mem_of_getElem? hchild)
      have hdepth : (steps ++ [i]).length = steps.length + 1 := by
        rw [List.length_append, List.length_singleton]
      have hle := le_of_fault?_eq_none hfault
      have hnext := ih hleadsChild hmem (by omega) hpassed' (by omega)
      rw [hdepth] at hnext
      exact hnext.congr fun path _ _ => lt_concat_succ_iff.symm

/-! ## The headline -/

/-- **Validation is a descent in pre-order.** The walk has the result of the recursion, and the
mistake that it reports, unless the root is missing, is what is wrong at the end of the first path
that has something wrong at its end. -/
theorem validate_eq_descent (body : Body) (limit : Nat) :
    body.validate limit = body.validateByDescent limit ∧
      ∀ mistake, body.validate limit = .error mistake →
        (body.node? body.root = none ∧ mistake = .missingRoot body.root body.size) ∨
          body.FirstFault limit mistake := by
  refine ⟨validate_eq_validateByDescent body limit, fun mistake h => ?_⟩
  rw [validate_eq_validateByDescent, validateByDescent] at h
  cases hroot : body.node? body.root with
  | none =>
    rw [hroot] at h
    cases h
    exact .inl ⟨rfl, rfl⟩
  | some node =>
    rw [hroot] at h
    have hmem : body.contains body.root = true := by rw [contains_eq_isSome, hroot]; rfl
    have hstart : body.Passed limit (· < []) [] := ⟨by simp, fun path hlt => by simp at hlt⟩
    have houtcome : body.Outcome limit (fun path => path < [] ∨ [] <+: path)
        (body.descend limit 0 body.root []) :=
      outcome_descend rfl hmem (Nat.zero_le _) hstart
    cases hresult : body.descend limit 0 body.root [] with
    | ok seen =>
      rw [hresult] at h
      cases h
    | error mistake' =>
      rw [hresult] at h
      cases h
      rw [hresult] at houtcome
      exact .inr houtcome

/-- A block in itself. Before that it stores a value that is missing into a literal. -/
def faultyBody : Body where
  name := "faulty"
  nodes := #[⟨.literal, .zero⟩, ⟨.assign ⟨0⟩ ⟨9⟩ .value, .zero⟩, ⟨.block [⟨1⟩, ⟨2⟩], .zero⟩]
  root := ⟨2⟩

/-- The first of its faults is that the value is missing. -/
theorem validate_eq_descent_at_store :
    faultyBody.validate 4 = .error (.danglingChild ⟨1⟩ ⟨9⟩) ∧
      faultyBody.FirstFault 4 (.danglingChild ⟨1⟩ ⟨9⟩) := by
  have hvalidate : faultyBody.validate 4 = .error (.danglingChild ⟨1⟩ ⟨9⟩) := by cbv
  refine ⟨hvalidate, ((validate_eq_descent faultyBody 4).2 _ hvalidate).resolve_left ?_⟩
  rintro ⟨hroot, -⟩
  exact absurd hroot (by decide)

end Body

end FrameEscape
