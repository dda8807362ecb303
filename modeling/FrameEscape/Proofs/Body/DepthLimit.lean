import FrameEscape.Proofs.Body.Descent

/-!
# A limit that hides nothing

A limit on the depth can keep the walk from a defect that lies deeper. It cannot if it is no less
than the number of nodes: the walk has seen a node for each step that it is away from the root, so
before it goes too deep it has run out of nodes that it has not seen.

* **`Body.Defect`**: what makes a body malformed, whatever the limit is, said of the paths from its
  root.
* **`Body.walk_ne_tooDeep`**: the loop invariant. No listed node is further from the root than nodes
  have been seen.
* **`Body.limit_hides_no_defect`**: the headline.
-/

namespace FrameEscape

namespace Body

variable {body : Body} {limit : Nat} {mistake : Malformed}

/-! ## Defects -/

/-- What is wrong with the nodes that the root reaches: the root or a child is missing, two paths
lead to one node, or an assignment's target is not a place. -/
inductive Defect (body : Body) : Malformed → Prop where
  | missingRoot (hroot : body.node? body.root = none) :
      Defect body (.missingRoot body.root body.size)
  | danglingChild {id node child} (hid : body.Reaches id) (hnode : body.node? id = some node)
      (hchild : child ∈ node.expr.children) (hmissing : body.node? child = none) :
      Defect body (.danglingChild id child)
  | sharedNode {id steps steps'} (hsteps : body.follow? body.root steps = some id)
      (hsteps' : body.follow? body.root steps' = some id) (hne : steps ≠ steps') :
      Defect body (.sharedNode id)
  | notAPlace {id node target value mode place} (hid : body.Reaches id)
      (hnode : body.node? id = some node) (hassign : node.expr = .assign target value mode)
      (hplace : body.node? target = some place) (hnot : ¬ place.expr.Denotes) :
      Defect body (.notAPlace id place.expr.describe)

/-- Some node that the root reaches lies below itself. -/
def Cyclic (body : Body) : Prop :=
  ∃ id steps, body.Reaches id ∧ steps ≠ [] ∧ body.follow? id steps = some id

/-- A cycle makes its nodes shared: a path to one of them may go round once more. -/
theorem Cyclic.exists_defect (h : body.Cyclic) : ∃ mistake, body.Defect mistake := by
  obtain ⟨id, steps, ⟨front, hfront⟩, hne, hround⟩ := h
  refine ⟨_, .sharedNode hfront (follow?_trans hfront hround) fun heq => hne ?_⟩
  exact List.self_eq_append_right.1 heq

theorem Defect.not_isTree (h : body.Defect mistake) : ¬ body.IsTree limit := by
  intro htree
  cases h with
  | missingRoot hroot =>
    have hmem := htree.root_mem
    rw [contains_eq_isSome, hroot] at hmem
    cases hmem
  | danglingChild hid hnode hchild hmissing =>
    have hmem := htree.children_mem _ _ hid hnode _ hchild
    rw [contains_eq_isSome, hmissing] at hmem
    cases hmem
  | sharedNode hsteps hsteps' hne => exact hne (htree.unique _ _ _ hsteps hsteps')
  | notAPlace hid hnode hassign hplace hnot =>
    obtain ⟨place', hplace', hdenotes⟩ := htree.places _ _ _ _ _ hid hnode hassign
    cases hplace.symm.trans hplace'
    exact hnot hdenotes

/-! ## What is reported is there -/

/-- What is wrong at the end of a path is a defect, or that the path is too long. -/
theorem FaultAt.tooDeep_or_defect {steps : List Nat} (h : body.FaultAt limit steps mistake) :
    (∃ node, mistake = .tooDeep node limit) ∨ body.Defect mistake := by
  have hnone : ∀ {id}, body.contains id = false → body.node? id = none := by
    intro id hid
    rw [contains_eq_isSome] at hid
    exact Option.isNone_iff_eq_none.1 (by simpa using hid)
  cases h with
  | tooDeep => exact .inl ⟨_, rfl⟩
  | sharedNode hleads _ hearlier hagain =>
    exact .inr (.sharedNode hleads hagain fun heq => List.lt_irrefl _ (heq ▸ hearlier))
  | danglingChild hcomes hnode hchildren _ hmissing =>
    have hchild := hchildren ▸ List.mem_append_right _ List.mem_cons_self
    exact .inr (.danglingChild ⟨_, hcomes.leads⟩ hnode hchild (hnone hmissing))
  | notAPlace hcomes hnode _ hassign hplace hnot =>
    exact .inr (.notAPlace ⟨_, hcomes.leads⟩ hnode hassign hplace hnot)

/-- What a rejected body is rejected for is wrong with it. -/
theorem tooDeep_or_defect_of_validate (h : body.validate limit = .error mistake) :
    (∃ node, mistake = .tooDeep node limit) ∨ body.Defect mistake := by
  rw [validate_eq_validateByDescent, validateByDescent] at h
  cases hroot : body.node? body.root with
  | none =>
    rw [hroot] at h
    cases h
    exact .inr (.missingRoot hroot)
  | some node =>
    rw [hroot] at h
    have hmem : body.contains body.root = true := by rw [contains_eq_isSome, hroot]; rfl
    have hstart : body.Passed limit (· < []) [] := ⟨by simp, fun path hlt => by simp at hlt⟩
    have houtcome : body.Outcome limit _ (body.descend limit 0 body.root []) :=
      outcome_descend rfl hmem (Nat.zero_le _) hstart
    cases hresult : body.descend limit 0 body.root [] with
    | ok seen =>
      rw [hresult] at h
      cases h
    | error mistake' =>
      rw [hresult] at h houtcome
      cases h
      obtain ⟨steps, hfault, -⟩ : body.FirstFault limit mistake := houtcome
      exact hfault.tooDeep_or_defect

/-! ## The walk does not go too deep -/

theorem mistake?_ne_tooDeep {id node : NodeId} {expr : Expr NodeId} {bound : Nat} :
    body.mistake? id expr ≠ some (.tooDeep node bound) := by
  intro h
  rw [mistake?_eq] at h
  split at h
  · cases h
  · obtain ⟨found, -, heq⟩ := Option.map_eq_some_iff.1 h
    cases heq

theorem count_set_unseen {seen : Vector Bool body.size} {i : Nat} (hi : i < body.size)
    (hseen : seen[i] = false) : (seen.set i true).count true = seen.count true + 1 := by
  rw [Vector.count_set, hseen, if_neg (by decide), if_pos (by decide), Nat.sub_zero]

/-- The walk never goes too deep if there are no more nodes than the limit. Induction on its
recursion: the children of a node are one step further from the root than the node, and by then one
more node has been seen. -/
theorem walk_ne_tooDeep (hlimit : body.size ≤ limit) (todo : List (NodeId × Nat))
    (seen : Vector Bool body.size) (hdepth : ∀ e ∈ todo, e.2 ≤ seen.count true) (node : NodeId)
    (bound : Nat) : body.walk limit todo seen ≠ .error (.tooDeep node bound) := by
  fun_induction walk body limit todo seen with
  | case1 seen => simp
  | case2 seen id depth rest hdeep =>
    have hle : depth ≤ seen.count true := hdepth _ List.mem_cons_self
    have hcount : seen.count true ≤ body.size := Vector.count_le_size
    omega
  | case3 seen id depth rest hdeep hid hseen => simp
  | case4 seen id depth rest hdeep hid hseen expr mistake hmistake =>
    rintro ⟨⟩
    exact mistake?_ne_tooDeep hmistake
  | case5 seen id depth rest hdeep hid hseen expr hmistake ih =>
    have hcount := count_set_unseen hid (Bool.eq_false_iff.2 hseen)
    refine ih fun e he => ?_
    rw [hcount]
    rcases List.mem_append.1 he with he | he
    · have hle : depth ≤ seen.count true := hdepth _ List.mem_cons_self
      rw [(mem_below_iff.1 he).2]
      omega
    · have hle := hdepth e (List.mem_cons_of_mem _ he)
      omega
  | case6 seen id depth rest hdeep hid ih =>
    exact ih fun e he => hdepth e (List.mem_cons_of_mem _ he)

theorem validate_ne_tooDeep (hlimit : body.size ≤ limit) (node : NodeId) (bound : Nat) :
    body.validate limit ≠ .error (.tooDeep node bound) := by
  unfold validate
  split
  · exact walk_ne_tooDeep hlimit _ _ (by simp) node bound
  · simp

theorem defect_of_validate (hlimit : body.size ≤ limit)
    (h : body.validate limit = .error mistake) : body.Defect mistake := by
  rcases tooDeep_or_defect_of_validate h with ⟨node, rfl⟩ | hdefect
  · exact absurd h (validate_ne_tooDeep hlimit node limit)
  · exact hdefect

/-- A body with a defect is rejected, for a defect that it has. -/
theorem Defect.exists_validate (h : body.Defect mistake) (hlimit : body.size ≤ limit) :
    ∃ mistake, body.validate limit = .error mistake ∧ body.Defect mistake := by
  cases hvalidate : body.validate limit with
  | ok => exact absurd (isTree_of_validate hvalidate) h.not_isTree
  | error found => exact ⟨found, rfl, defect_of_validate hlimit hvalidate⟩

/-! ## The headline -/

/-- **The limit hides no defect of a small body.** If a body has no more nodes than the limit, it
is never rejected for its depth. What it is rejected for is a defect that it has, and it is rejected
if it has any, as every body does that runs in a circle. -/
theorem limit_hides_no_defect (hlimit : body.size ≤ limit) :
    (∀ node bound, body.validate limit ≠ .error (.tooDeep node bound)) ∧
      (∀ mistake, body.validate limit = .error mistake → body.Defect mistake) ∧
      ((∃ defect, body.Defect defect) →
        ∃ mistake, body.validate limit = .error mistake ∧ body.Defect mistake) ∧
      (body.Cyclic → ∃ mistake, body.validate limit = .error mistake ∧ body.Defect mistake) := by
  refine ⟨validate_ne_tooDeep hlimit, fun mistake => defect_of_validate hlimit, ?_, ?_⟩
  · rintro ⟨defect, hdefect⟩
    exact hdefect.exists_validate hlimit
  · intro hcyclic
    obtain ⟨defect, hdefect⟩ := hcyclic.exists_defect
    exact hdefect.exists_validate hlimit

/-- Three blocks, each in the one before, the first in the last. -/
def ringBody : Body where
  name := "ring"
  nodes := #[⟨.block [⟨1⟩], .zero⟩, ⟨.block [⟨2⟩], .zero⟩, ⟨.block [⟨0⟩], .zero⟩]
  root := ⟨0⟩

theorem cyclic_ringBody : ringBody.Cyclic :=
  ⟨⟨0⟩, [0, 0, 0], ⟨[], rfl⟩, List.cons_ne_nil _ _, by decide⟩

/-- With a limit of three, the ring is found to be one. A limit of two would have hidden it. -/
theorem limit_hides_no_defect_at_ring :
    ringBody.size ≤ 3 ∧ ringBody.validate 2 = .error (.tooDeep ⟨0⟩ 2) ∧
      ∃ mistake, ringBody.validate 3 = .error mistake ∧ ringBody.Defect mistake :=
  have hsize : ringBody.size ≤ 3 := by decide
  ⟨hsize, by cbv, (limit_hides_no_defect hsize).2.2.2 cyclic_ringBody⟩

end Body

end FrameEscape
