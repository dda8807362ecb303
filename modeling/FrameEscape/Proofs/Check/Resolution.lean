import FrameEscape.Proofs.Check.Order
import FrameEscape.Proofs.Check.Scoping
import Mathlib

/-!
# Names resolve lexically

Which declaration a variable means is said by the tree and the order of its nodes: it is the
last one, of those of its name that are done before the variable, whose block encloses the
variable (`ResolvesTo`). The checker knows no tree. It puts a name in scope at a declaration and
forgets the names of a block at its end. The two agree (`names_resolve_lexically`).

* **`Scope.Tracks`**: the invariant of a run. The names in scope are those of the declarations
  that are done and in no block that is done, the latest first.
* **`Scope.Tracks.step`**: one node keeps it, once its children have been visited.
* **`Context.Run.exists_tracks_at`**: a run comes to each of its visits with it.
* **`Report.inForce_iff`**: a declaration is in no block that is done before a variable if and
  only if the block nearest to it encloses the variable.
-/

namespace FrameEscape

/-! ## Declarations and the blocks around them -/

namespace Body

/-- The node declares the name, with the value of `init`. -/
def Declares (body : Body) (id : NodeId) (name : String) (init : NodeId) : Prop :=
  ∃ node, body.node? id = some node ∧ node.expr = .declare name init

/-- The node is a block. -/
def IsBlock (body : Body) (id : NodeId) : Prop :=
  ∃ node stmts, body.node? id = some node ∧ node.expr = .block stmts

/-- The first node is part of the tree, and the second lies below it. -/
def Encloses (body : Body) (outer inner : NodeId) : Prop :=
  body.Reaches outer ∧ body.Above outer inner

/-- The node is a block, and every other block around `id` is around it too. -/
structure NearestBlock (body : Body) (block id : NodeId) : Prop where
  isBlock : body.IsBlock block
  encloses : body.Encloses block id
  nearest : ∀ other, body.IsBlock other → body.Encloses other id →
    other = block ∨ body.Encloses other block

variable {body : Body} {id init init' : NodeId} {name name' : String} {node : Node}

theorem Declares.unique (h : body.Declares id name init) (h' : body.Declares id name' init') :
    name = name' ∧ init = init' := by
  obtain ⟨node, hnode, hexpr⟩ := h
  obtain ⟨node', hnode', hexpr'⟩ := h'
  cases hnode.symm.trans hnode'
  cases hexpr.symm.trans hexpr'
  exact ⟨rfl, rfl⟩

theorem declares_iff (hnode : body.node? id = some node) :
    body.Declares id name init ↔ node.expr = .declare name init := by
  constructor
  · rintro ⟨node', hnode', hexpr⟩
    cases hnode.symm.trans hnode'
    exact hexpr
  · intro hexpr
    exact ⟨node, hnode, hexpr⟩

theorem isBlock_iff (hnode : body.node? id = some node) :
    body.IsBlock id ↔ ∃ stmts, node.expr = .block stmts := by
  constructor
  · rintro ⟨node', stmts, hnode', hexpr⟩
    cases hnode.symm.trans hnode'
    exact ⟨stmts, hexpr⟩
  · rintro ⟨stmts, hexpr⟩
    exact ⟨node, stmts, hnode, hexpr⟩

/-- Of two nodes around a third one is around the other. -/
theorem Encloses.linear {limit : Nat} (htree : body.IsTree limit) {outer outer' : NodeId}
    (h : body.Encloses outer id) (h' : body.Encloses outer' id) :
    outer = outer' ∨ body.Encloses outer outer' ∨ body.Encloses outer' outer := by
  obtain ⟨⟨steps, hsteps⟩, step, more, hmore⟩ := h
  obtain ⟨⟨steps', hsteps'⟩, step', more', hmore'⟩ := h'
  have hpath : body.follow? body.root (steps ++ step :: more) = some id :=
    Body.follow?_trans hsteps hmore
  have hpath' : body.follow? body.root (steps' ++ step' :: more') = some id :=
    Body.follow?_trans hsteps' hmore'
  -- There is one path to the third node, and both lie on it.
  have hone : steps ++ step :: more = steps' ++ step' :: more' :=
    htree.unique _ _ id hpath hpath'
  rcases List.append_eq_append_iff.1 hone with ⟨between, rfl, -⟩ | ⟨between, rfl, -⟩
  · rw [Body.follow?_append, hsteps] at hsteps'
    cases between with
    | nil => exact .inl (Option.some.inj hsteps')
    | cons last rest => exact .inr (.inl ⟨⟨steps, hsteps⟩, last, rest, hsteps'⟩)
  · rw [Body.follow?_append, hsteps'] at hsteps
    cases between with
    | nil => exact .inl (Option.some.inj hsteps).symm
    | cons last rest => exact .inr (.inr ⟨⟨steps', hsteps'⟩, last, rest, hsteps⟩)

end Body

/-! ## The invariant -/

/-- The declaration is done, and no block around it is. -/
structure InForce (body : Body) (visits : List Visit) (decl : NodeId) : Prop where
  done : ∃ w ∈ visits, w.node = decl
  declares : ∃ name init, body.Declares decl name init
  kept : ∀ w ∈ visits, body.IsBlock w.node → ¬ body.Above w.node decl

/-- An entry of a scope comes from a declaration, whose value has been visited. -/
def EntryOf (body : Body) (visits : List Visit) (decl : NodeId) (entry : String × Resolved) :
    Prop :=
  ∃ init value, body.Declares decl entry.1 init ∧ Context.VisitValue visits init value ∧
    entry.2 = value.asLocal

/-- After the visits, the scope holds the declarations in force, the latest first. -/
structure Scope.Tracks (body : Body) (visits : List Visit) (decls : List NodeId)
    (scope : Scope) : Prop where
  entries : List.Forall₂ (EntryOf body visits) decls scope
  latest : decls.reverse.Sublist (visits.map (·.node))
  mem_iff : ∀ decl, decl ∈ decls ↔ InForce body visits decl

/-- The listed nodes are yet to come: they share nothing with each other or with what has been
visited, and there is no sharing below them. -/
structure Ahead (body : Body) (made : List Visit) (entries : List (List Nat × NodeId)) :
    Prop where
  single : ∀ e ∈ entries, body.Single e.2
  apart : entries.Pairwise fun e e' => body.Apart e.2 e'.2
  fresh : ∀ w ∈ made, ∀ e ∈ entries, body.Apart w.node e.2

variable {ctx : Context} {body : Body} {made visits : List Visit} {id : NodeId} {node : Node}
  {steps : List Nat} {rest entries : List (List Nat × NodeId)} {decls : List NodeId}
  {before inside after : Scope} {values : List Resolved} {w : Visit}

theorem EntryOf.mono {decl : NodeId} {entry : String × Resolved}
    (h : EntryOf body made decl entry) (hsub : made ⊆ visits) : EntryOf body visits decl entry := by
  obtain ⟨init, value, hdeclares, hvalue, hentry⟩ := h
  exact ⟨init, value, hdeclares, hvalue.mono hsub, hentry⟩

theorem Ahead.kids (h : Ahead body made ((steps, id) :: rest))
    (hnode : body.node? id = some node) :
    Ahead body made (siblings steps 0 node.expr.children) := by
  have hid : body.Single id := h.single _ List.mem_cons_self
  refine ⟨?_, ?_, ?_⟩
  · intro e he
    obtain ⟨step, hchild, -⟩ := mem_siblings_iff.1 he
    exact hid.child hnode (List.mem_of_getElem? hchild)
  · have hpairs := hid.pairwise_children hnode
    rwa [← map_snd_siblings steps 0 node.expr.children, List.pairwise_map] at hpairs
  · intro w hw e he
    obtain ⟨step, hchild, -⟩ := mem_siblings_iff.1 he
    have hapart : body.Apart w.node id := h.fresh w hw _ List.mem_cons_self
    exact (hapart.symm.child hnode (List.mem_of_getElem? hchild)).symm

/-- Once a node is done with what is below it, the nodes after it are still ahead. -/
theorem Ahead.next (h : Ahead body made ((steps, id) :: rest)) (hw : w.node = id)
    (hvisits : ∀ target, (∃ u ∈ visits, u.node = target) → body.Above id target) :
    Ahead body (made ++ visits ++ [w]) rest := by
  obtain ⟨hhead, htail⟩ := List.pairwise_cons.1 h.apart
  refine ⟨fun e he => h.single e (List.mem_cons_of_mem _ he), htail, ?_⟩
  intro u hu e he
  rcases List.mem_append.1 hu with hu | hu
  · rcases List.mem_append.1 hu with hu | hu
    · exact h.fresh u hu e (List.mem_cons_of_mem _ he)
    · exact (hhead e he).below (hvisits _ ⟨u, hu, rfl⟩)
  · rw [List.mem_singleton.1 hu, hw]
    exact hhead e he

/-! ## One node -/

theorem inForce_concat_iff {decl : NodeId} (hnode : body.node? w.node = some node)
    (hblock : ¬ ∃ stmts, node.expr = .block stmts)
    (hdeclare : ¬ ∃ name init, node.expr = .declare name init) :
    InForce body (visits ++ [w]) decl ↔ InForce body visits decl := by
  constructor
  · rintro ⟨⟨u, hu, rfl⟩, hdeclares, hkept⟩
    refine ⟨⟨u, ?_, rfl⟩, hdeclares, fun v hv => hkept v (List.mem_append_left _ hv)⟩
    rcases List.mem_append.1 hu with hu | hu
    · exact hu
    · cases List.mem_singleton.1 hu
      obtain ⟨name, init, hdecl⟩ := hdeclares
      exact absurd ⟨name, init, (Body.declares_iff hnode).1 hdecl⟩ hdeclare
  · rintro ⟨⟨u, hu, rfl⟩, hdeclares, hkept⟩
    refine ⟨⟨u, List.mem_append_left _ hu, rfl⟩, hdeclares, fun v hv hv' => ?_⟩
    rcases List.mem_append.1 hv with hv | hv
    · exact hkept v hv hv'
    · cases List.mem_singleton.1 hv
      exact absurd ((Body.isBlock_iff hnode).1 hv') hblock

theorem inForce_concat_declare_iff {decl init : NodeId} {name : String}
    (hdecl : body.Declares w.node name init) (hopen : ∀ u ∈ visits, ¬ body.Above u.node w.node)
    (hself : ¬ body.Above w.node w.node) :
    InForce body (visits ++ [w]) decl ↔ decl = w.node ∨ InForce body visits decl := by
  have hblock : ¬ body.IsBlock w.node := by
    rintro ⟨node, stmts, hnode, hexpr⟩
    have hdeclare := (Body.declares_iff hnode).1 hdecl
    exact absurd (hexpr.symm.trans hdeclare) (by simp)
  constructor
  · rintro ⟨⟨u, hu, rfl⟩, hdeclares, hkept⟩
    rcases List.mem_append.1 hu with hu | hu
    · exact .inr ⟨⟨u, hu, rfl⟩, hdeclares, fun v hv => hkept v (List.mem_append_left _ hv)⟩
    · exact .inl (congrArg Visit.node (List.mem_singleton.1 hu))
  · rintro (rfl | ⟨⟨u, hu, rfl⟩, hdeclares, hkept⟩)
    · refine ⟨⟨w, by simp, rfl⟩, ⟨name, init, hdecl⟩, fun v hv _ => ?_⟩
      rcases List.mem_append.1 hv with hv | hv
      · exact hopen v hv
      · rw [List.mem_singleton.1 hv]
        exact hself
    · refine ⟨⟨u, List.mem_append_left _ hu, rfl⟩, hdeclares, fun v hv hv' => ?_⟩
      rcases List.mem_append.1 hv with hv | hv
      · exact hkept v hv hv'
      · cases List.mem_singleton.1 hv
        exact absurd hv' hblock

theorem inForce_concat_block_iff {decl : NodeId} (hblock : body.IsBlock w.node)
    (hvisits : ∀ target, (∃ u ∈ visits, u.node = target) ↔ body.Above w.node target)
    (hfresh : ∀ u ∈ made, body.Apart u.node w.node) :
    InForce body (made ++ visits ++ [w]) decl ↔ InForce body made decl := by
  constructor
  · rintro ⟨⟨u, hu, rfl⟩, hdeclares, hkept⟩
    have hkept' : ¬ body.Above w.node u.node := hkept w (by simp) hblock
    refine ⟨⟨u, ?_, rfl⟩, hdeclares, fun v hv => hkept v (by simp [hv])⟩
    rcases List.mem_append.1 hu with hu | hu
    · exact (List.mem_append.1 hu).resolve_right fun hu => hkept' ((hvisits _).1 ⟨u, hu, rfl⟩)
    · cases List.mem_singleton.1 hu
      obtain ⟨node, stmts, hnode, hexpr⟩ := hblock
      obtain ⟨name, init, hdecl⟩ := hdeclares
      have hdeclare := (Body.declares_iff hnode).1 hdecl
      exact absurd (hexpr.symm.trans hdeclare) (by simp)
  · rintro ⟨⟨u, hu, rfl⟩, hdeclares, hkept⟩
    have hnot : ¬ body.Above w.node u.node := by
      rintro ⟨step, more, hmore⟩
      exact hfresh u hu [] (step :: more) u.node rfl hmore
    refine ⟨⟨u, by simp [hu], rfl⟩, hdeclares, fun v hv hv' => ?_⟩
    rcases List.mem_append.1 hv with hv | hv
    · rcases List.mem_append.1 hv with hv | hv
      · exact hkept v hv hv'
      · exact fun habove => hnot (((hvisits _).1 ⟨v, hv, rfl⟩).trans habove)
    · rw [List.mem_singleton.1 hv]
      exact hnot

/-- A node whose children have been visited keeps the invariant: a declaration comes to be in
force, and what a block declares no longer is. -/
theorem Scope.Tracks.step {declsBefore declsInside : List NodeId} {inputs : Expr Resolved}
    (hnode : body.node? w.node = some node) (halike : node.expr.Alike inputs)
    (hkids : ctx.Run body (siblings steps 0 node.expr.children) before inputs.children inside
      visits)
    (hbefore : Scope.Tracks body made declsBefore before)
    (hinside : Scope.Tracks body (made ++ visits) declsInside inside)
    (hsingle : body.Single w.node) (hfresh : ∀ u ∈ made, body.Apart u.node w.node) :
    ∃ declsAfter, Scope.Tracks body (made ++ visits ++ [w]) declsAfter
      (inputs.scopeAfter before inside) := by
  have hvisits : ∀ target, (∃ u ∈ visits, u.node = target) ↔ body.Above w.node target :=
    fun _ => hkids.exists_kid_iff hnode
  have hsub : made ++ visits ⊆ made ++ visits ++ [w] := List.subset_append_left _ _
  have hkeep : (¬ ∃ stmts, node.expr = .block stmts) →
      (¬ ∃ name init, node.expr = .declare name init) →
      Scope.Tracks body (made ++ visits ++ [w]) declsInside inside := by
    intro hblock hdeclare
    refine ⟨hinside.entries.imp fun _ _ hentry => hentry.mono hsub, ?_, fun decl => ?_⟩
    · rw [List.map_append]
      exact hinside.latest.trans (List.sublist_append_left _ _)
    · rw [hinside.mem_iff, inForce_concat_iff hnode hblock hdeclare]
  generalize hexpr : node.expr = expr at *
  cases halike with
  | @declare init value name =>
    have hdecl : body.Declares w.node name init := ⟨node, hnode, hexpr⟩
    refine ⟨w.node :: declsInside, ?_, ?_, fun decl => ?_⟩
    · have hinit : Context.VisitValue visits init value :=
        (List.forall₂_cons.1 hkids.exists_visit_value).1
      refine .cons ⟨init, value, hdecl, hinit.mono ?_, rfl⟩
        (hinside.entries.imp fun _ _ hentry => hentry.mono hsub)
      exact fun u hu => by simp [hu]
    · rw [List.reverse_cons, List.map_append]
      exact hinside.latest.append (List.Sublist.refl _)
    · have hopen : ∀ u ∈ made ++ visits, ¬ body.Above u.node w.node := by
        intro u hu habove
        rcases List.mem_append.1 hu with hu | hu
        · obtain ⟨step, more, hmore⟩ := habove
          exact hfresh u hu (step :: more) [] w.node hmore rfl
        · exact hsingle.not_above (((hvisits _).1 ⟨u, hu, rfl⟩).trans habove)
      rw [inForce_concat_declare_iff hdecl hopen hsingle.not_above, List.mem_cons,
        hinside.mem_iff]
  | block =>
    refine ⟨declsBefore, ?_, ?_, fun decl => ?_⟩
    · refine hbefore.entries.imp fun _ _ hentry => hentry.mono fun u hu => ?_
      exact hsub (List.mem_append_left _ hu)
    · rw [List.append_assoc, List.map_append]
      exact hbefore.latest.trans (List.sublist_append_left _ _)
    · rw [hbefore.mem_iff,
        inForce_concat_block_iff ⟨node, _, hnode, hexpr⟩ hvisits hfresh]
  | _ => exact ⟨declsInside, hkeep (by simp) (by simp)⟩

/-! ## Runs -/

namespace Context

/-- A run keeps the invariant. Induction on the run, with what has been visited before it. -/
theorem Run.exists_tracks (h : ctx.Run body entries before values after visits)
    (hahead : Ahead body made entries) (hbefore : Scope.Tracks body made decls before) :
    ∃ declsAfter, Scope.Tracks body (made ++ visits) declsAfter after := by
  induction h generalizing made decls with
  | nil => exact ⟨decls, by rwa [List.append_nil]⟩
  | @cons steps id rest node inputs before inside _ _ kidVisits restVisits hnode halike hkids _
      ihkids ihrest =>
    have hvisits : ∀ target, (∃ u ∈ kidVisits, u.node = target) ↔ body.Above id target :=
      fun _ => hkids.exists_kid_iff hnode
    obtain ⟨declsInside, hinside⟩ := ihkids (hahead.kids hnode) hbefore
    obtain ⟨declsNext, hnext⟩ := Scope.Tracks.step
      (w := ⟨id, .ofSteps steps, node.span, ctx.resolve inside inputs⟩) hnode halike hkids hbefore
      hinside (hahead.single _ List.mem_cons_self)
      fun u hu => hahead.fresh u hu _ List.mem_cons_self
    obtain ⟨declsAfter, hafter⟩ :=
      ihrest (hahead.next rfl fun target => (hvisits target).1) hnext
    refine ⟨declsAfter, ?_⟩
    simpa only [List.append_assoc, List.singleton_append] using hafter

/-- The run comes to each visit with the invariant. -/
theorem Run.exists_tracks_at (h : ctx.Run body entries before values after visits)
    (hahead : Ahead body made entries) (hbefore : Scope.Tracks body made decls before)
    (hw : w ∈ visits) :
    ∃ earlier later declsInside inside node inputs, visits = earlier ++ w :: later ∧
      Scope.Tracks body (made ++ earlier) declsInside inside ∧
      body.node? w.node = some node ∧ node.expr.Alike inputs ∧
      w.verdict = ctx.resolve inside inputs := by
  induction h generalizing made decls with
  | nil => exact absurd hw List.not_mem_nil
  | @cons steps id rest node inputs before inside _ _ kidVisits restVisits hnode halike hkids _
      ihkids ihrest =>
    have hvisits : ∀ target, (∃ u ∈ kidVisits, u.node = target) ↔ body.Above id target :=
      fun _ => hkids.exists_kid_iff hnode
    obtain ⟨declsInside, hinside⟩ := hkids.exists_tracks (hahead.kids hnode) hbefore
    rcases List.mem_append.1 hw with hw | hw
    · obtain ⟨earlier, later, declsAt, scope, node', inputs', rfl, htracks, hrest⟩ :=
        ihkids (hahead.kids hnode) hbefore hw
      refine ⟨earlier, later ++ ⟨id, .ofSteps steps, node.span, ctx.resolve inside inputs⟩ ::
        restVisits, declsAt, scope, node', inputs', ?_, htracks, hrest⟩
      simp only [List.append_assoc, List.cons_append]
    · rcases List.mem_cons.1 hw with rfl | hw
      · exact ⟨kidVisits, restVisits, declsInside, inside, node, inputs, rfl, hinside, hnode,
          halike, rfl⟩
      · obtain ⟨declsNext, hnext⟩ := Scope.Tracks.step
          (w := ⟨id, .ofSteps steps, node.span, ctx.resolve inside inputs⟩) hnode halike hkids
          hbefore hinside (hahead.single _ List.mem_cons_self)
          fun u hu => hahead.fresh u hu _ List.mem_cons_self
        obtain ⟨earlier, later, declsAt, scope, node', inputs', rfl, htracks, hrest⟩ :=
          ihrest (hahead.next rfl fun target => (hvisits target).1) hnext hw
        refine ⟨kidVisits ++ ⟨id, .ofSteps steps, node.span, ctx.resolve inside inputs⟩ ::
          earlier, later, declsAt, scope, node', inputs', ?_, ?_, hrest⟩
        · simp only [List.append_assoc, List.cons_append]
        · simpa only [List.append_assoc, List.singleton_append] using htracks

end Context

/-! ## What a variable means -/

/-- The declaration of the name is done before the variable, and the block nearest to it, if
there is one, encloses the variable. -/
structure Captures (body : Body) (report : Report) (name : String) (decl var : NodeId) : Prop where
  declares : ∃ init, body.Declares decl name init
  before : report.Before decl var
  encloses : ∀ block, body.NearestBlock block decl → body.Encloses block var

/-- Of the declarations that capture the variable, the one that is done last has the value of
`init`. -/
def ResolvesTo (body : Body) (report : Report) (name : String) (var init : NodeId) : Prop :=
  ∃ decl, body.Declares decl name init ∧ Captures body report name decl var ∧
    ∀ other, Captures body report name other var → other = decl ∨ report.Before other decl

namespace Report

variable {report : Report} {name : String}

theorem exists_tracks_at (hcheck : body.check ctx = .ok report) (hw : w ∈ report.visits) :
    ∃ earlier later decls inside node inputs, report.visits = earlier ++ w :: later ∧
      Scope.Tracks body earlier decls inside ∧ body.node? w.node = some node ∧
      node.expr.Alike inputs ∧ w.verdict = ctx.resolve inside inputs := by
  obtain ⟨htree, value, scope, hrun⟩ := Context.run_of_check hcheck
  have hahead : Ahead body [] [([], body.root)] := by
    refine ⟨fun e he => ?_, List.pairwise_singleton _ _, by simp⟩
    cases List.mem_singleton.1 he
    exact htree.unique
  have hnone : Scope.Tracks body [] [] [] := by
    refine ⟨.nil, .slnil, fun decl => ⟨fun h => absurd h List.not_mem_nil, fun h => ?_⟩⟩
    obtain ⟨u, hu, -⟩ := h.done
    exact absurd hu List.not_mem_nil
  exact hrun.exists_tracks_at hahead hnone hw

/-- The block that is done first, of those around a node, is the nearest. -/
theorem exists_nearestBlock (hcheck : body.check ctx = .ok report) {block : NodeId}
    (hblock : body.IsBlock block) (hencloses : body.Encloses block id) :
    ∃ nearest, body.NearestBlock nearest id := by
  classical
  have htree := (Context.run_of_check hcheck).1
  obtain ⟨u, hu, rfl⟩ := exists_visit hcheck hencloses.1
  have hsome : (report.visits.find? fun v =>
      decide (body.IsBlock v.node ∧ body.Encloses v.node id)).isSome := by
    rw [List.find?_isSome]
    exact ⟨u, hu, decide_eq_true ⟨hblock, hencloses⟩⟩
  obtain ⟨v, hv⟩ := Option.isSome_iff_exists.1 hsome
  obtain ⟨hdecide, earlier, later, hsplit, hfirst⟩ := List.find?_eq_some_iff_append.1 hv
  obtain ⟨hblock', hencloses'⟩ := of_decide_eq_true hdecide
  refine ⟨v.node, hblock', hencloses', fun other hother houter => ?_⟩
  rcases houter.linear htree hencloses' with heq | habove | habove
  · exact .inl heq
  · exact .inr habove
  · -- A block inside the first one is done before it.
    obtain ⟨w, hw, rfl⟩ :=
      (before_iff hcheck hsplit).1 (before_of_above hcheck habove.1 habove.2)
    have hnot := hfirst w hw
    simp only [Bool.not_eq_true', decide_eq_false_iff_not] at hnot
    exact absurd ⟨hother, houter⟩ hnot

/-- For a declaration done before a node that is not a block, to be in force there is for the
nearest block around it to enclose the node. -/
theorem inForce_iff (hcheck : body.check ctx = .ok report) {earlier later : List Visit}
    (hsplit : report.visits = earlier ++ w :: later) (hblock : ¬ body.IsBlock w.node)
    {decl : NodeId} :
    InForce body earlier decl ∧ (∃ init, body.Declares decl name init) ↔
      Captures body report name decl w.node := by
  have hbefore : ∀ {first}, report.Before first w.node ↔ ∃ u ∈ earlier, u.node = first :=
    before_iff hcheck hsplit
  constructor
  · rintro ⟨hforce, hdeclares⟩
    have hdecl : report.Before decl w.node := hbefore.2 hforce.done
    refine ⟨hdeclares, hdecl, fun block hnearest => ?_⟩
    obtain ⟨hisBlock, ⟨hreach, habove⟩, -⟩ := hnearest
    refine ⟨hreach, ?_⟩
    -- The block is not done before the variable, so the variable comes between it and the
    -- declaration.
    rcases before_trichotomy hcheck hreach (hdecl.reaches hcheck).2 with hdone | heq | hlater
    · obtain ⟨u, hu, rfl⟩ := hbefore.1 hdone
      exact absurd habove (hforce.kept u hu hisBlock)
    · exact absurd (heq ▸ hisBlock) hblock
    · exact above_of_between hcheck hreach habove hdecl hlater
  · rintro ⟨hdeclares, hdecl, hencloses⟩
    have hdeclares' := hdeclares
    obtain ⟨init, hinit⟩ := hdeclares'
    refine ⟨⟨hbefore.1 hdecl, ⟨name, init, hinit⟩, fun u hu hisBlock habove => ?_⟩, hdeclares⟩
    -- A block around the declaration is around the variable too, and done after it.
    have hreach : body.Reaches u.node := ((hbefore.2 ⟨u, hu, rfl⟩).reaches hcheck).1
    obtain ⟨nearest, hnearest⟩ := exists_nearestBlock hcheck hisBlock ⟨hreach, habove⟩
    have hvar : body.Above u.node w.node := by
      rcases hnearest.nearest u.node hisBlock ⟨hreach, habove⟩ with heq | houter
      · exact heq ▸ (hencloses nearest hnearest).2
      · exact houter.2.trans (hencloses nearest hnearest).2
    exact absurd (hbefore.2 ⟨u, hu, rfl⟩) ((before_of_above hcheck hreach hvar).asymm hcheck)

end Report

section LookUp

variable {scope : Scope} {name : String}

/-- The entry found is that of the latest declaration of the name. -/
theorem exists_entry_of_get? {value : Resolved} (h : List.Forall₂ (EntryOf body visits) decls scope)
    (hget : scope.get? name = some value) :
    ∃ later decl earlier init source, decls = later ++ decl :: earlier ∧
      body.Declares decl name init ∧ Context.VisitValue visits init source ∧
      value = source.asLocal ∧ ∀ other ∈ later, ¬ ∃ init, body.Declares other name init := by
  unfold Scope.get? at hget
  induction h with
  | nil => exact absurd hget (by simp)
  | @cons decl entry decls scope hentry _ ih =>
    obtain ⟨init, source, hdecl, hvalue, hlocal⟩ := hentry
    rw [NameTable.lookup_cons_ite] at hget
    split at hget
    next heq =>
      refine ⟨[], decl, decls, init, source, rfl, heq ▸ hdecl, hvalue, ?_, by simp⟩
      rw [← hlocal]
      exact (Option.some.inj hget).symm
    next hne =>
      obtain ⟨later, decl', earlier, init', source', rfl, hrest, hvalue', heq, hnone⟩ := ih hget
      refine ⟨decl :: later, decl', earlier, init', source', rfl, hrest, hvalue', heq, ?_⟩
      intro other hother
      rcases List.mem_cons.1 hother with rfl | hother
      · rintro ⟨init'', hdecl'⟩
        exact hne (hdecl'.unique hdecl).1
      · exact hnone other hother

theorem not_declares_of_get? (h : List.Forall₂ (EntryOf body visits) decls scope)
    (hget : scope.get? name = none) {decl : NodeId} (hmem : decl ∈ decls) :
    ¬ ∃ init, body.Declares decl name init := by
  unfold Scope.get? at hget
  induction h with
  | nil => exact absurd hmem List.not_mem_nil
  | @cons decl' entry decls scope hentry _ ih =>
    obtain ⟨init, source, hdecl, -, -⟩ := hentry
    rw [NameTable.lookup_cons_ite] at hget
    split at hget
    · exact absurd hget (by simp)
    next hne =>
      rcases List.mem_cons.1 hmem with rfl | hmem
      · rintro ⟨init', hdecl'⟩
        exact hne (hdecl'.unique hdecl).1
      · exact ih hget hmem

end LookUp

namespace Report

variable {report : Report} {name : String}

/-- A variable means the last declaration that captures it. If there is none, its name is not
in scope. -/
theorem resolvesTo_or_free (hcheck : body.check ctx = .ok report) (hid : body.Reaches id)
    (hnode : body.node? id = some node) (hexpr : node.expr = .var name) :
    (∃ init source, ResolvesTo body report name id init ∧ report.value? init = some source ∧
        report.verdict? id = some (.ok source.asLocal)) ∨
      (¬ ∃ decl, Captures body report name decl id) ∧
        ∃ scope : Scope, scope.get? name = none ∧
          report.verdict? id = some (ctx.resolveVar scope name) := by
  obtain ⟨w, hw, rfl⟩ := exists_visit hcheck hid
  obtain ⟨earlier, later, decls, scope, node', inputs, hsplit, htracks, hnode', halike, hverdict⟩ :=
    exists_tracks_at hcheck hw
  cases hnode.symm.trans hnode'
  have hblock : ¬ body.IsBlock w.node := by
    rw [Body.isBlock_iff hnode, hexpr]
    simp
  have hcaptures : ∀ {decl}, Captures body report name decl w.node ↔
      decl ∈ decls ∧ ∃ init, body.Declares decl name init := by
    intro decl
    rw [← inForce_iff hcheck hsplit hblock, htracks.mem_iff]
  have hresolve : w.verdict = ctx.resolveVar scope name := by
    rw [hexpr] at halike
    cases halike
    exact hverdict
  have hreport : report.verdict? w.node = some (ctx.resolveVar scope name) :=
    hresolve ▸ verdict?_of_mem hcheck hw
  have hvisits : earlier ⊆ report.visits := hsplit ▸ List.subset_append_left _ _
  cases hget : scope.get? name with
  | none =>
    refine .inr ⟨?_, scope, hget, hreport⟩
    rintro ⟨decl, hdecl⟩
    obtain ⟨hmem, hdeclares⟩ := hcaptures.1 hdecl
    exact not_declares_of_get? htracks.entries hget hmem hdeclares
  | some value =>
    obtain ⟨newer, decl, older, init, source, rfl, hdecl, hvalue, rfl, hnone⟩ :=
      exists_entry_of_get? htracks.entries hget
    refine .inl ⟨init, source, ⟨decl, hdecl, ?_, fun other hother => ?_⟩, ?_, ?_⟩
    · exact hcaptures.2 ⟨by simp, init, hdecl⟩
    · obtain ⟨hmem, hdeclares⟩ := hcaptures.1 hother
      rcases List.mem_append.1 hmem with hmem | hmem
      · exact absurd hdeclares (hnone other hmem)
      · rcases List.mem_cons.1 hmem with rfl | hmem
        · exact .inl rfl
        · -- The scope has the latest first, so an older declaration is done before.
          right
          have hpair : [other, decl].Sublist (newer ++ decl :: older).reverse := by
            refine pair_sublist_iff.2 ⟨older.reverse, newer.reverse, by simp, ?_⟩
            exact List.mem_reverse.2 hmem
          have hearlier : (earlier.map (·.node)).Sublist (report.visits.map (·.node)) := by
            rw [hsplit, List.map_append]
            exact List.sublist_append_left _ _
          exact (hpair.trans htracks.latest).trans hearlier
    · obtain ⟨u, hu, rfl, rfl⟩ := hvalue.mono hvisits
      rw [value?, verdict?_of_mem hcheck hu]
      rfl
    · rw [hreport, Context.resolveVar, hget]

theorem resolvesTo_unique (hcheck : body.check ctx = .ok report) {var init init' : NodeId}
    (h : ResolvesTo body report name var init) (h' : ResolvesTo body report name var init') :
    init = init' := by
  obtain ⟨decl, hdecl, hcaptures, hlast⟩ := h
  obtain ⟨decl', hdecl', hcaptures', hlast'⟩ := h'
  have heq : decl' = decl := by
    rcases hlast decl' hcaptures' with heq | hbefore
    · exact heq
    · rcases hlast' decl hcaptures with heq | hbefore'
      · exact heq.symm
      · exact absurd hbefore' (hbefore.asymm hcheck)
  subst heq
  exact (hdecl.unique hdecl').2

/-- A variable that resolves to a declaration has its value, as a local. -/
theorem verdict?_of_resolvesTo (hcheck : body.check ctx = .ok report) (hid : body.Reaches id)
    (hnode : body.node? id = some node) (hexpr : node.expr = .var name) {init : NodeId}
    (h : ResolvesTo body report name id init) :
    ∃ source, report.value? init = some source ∧
      report.verdict? id = some (.ok source.asLocal) := by
  rcases resolvesTo_or_free hcheck hid hnode hexpr with
    ⟨init', source, h', hsource, hverdict⟩ | ⟨hfree, -⟩
  · cases resolvesTo_unique hcheck h h'
    exact ⟨source, hsource, hverdict⟩
  · obtain ⟨decl, -, hcaptures, -⟩ := h
    exact absurd ⟨decl, hcaptures⟩ hfree

end Report

/-! ## The headline -/

/-- **Names resolve lexically.** If declarations capture a variable, it resolves to one of them,
and it has the value of that one's initialiser as a local, poisoned if that is poisoned. If none
does, it has the value that its name is bound to. The name is reported as unknown if and only if
there is neither. -/
theorem names_resolve_lexically {report : Report} (hcheck : body.check ctx = .ok report)
    (hid : body.Reaches id) (hnode : body.node? id = some node) {name : String}
    (hexpr : node.expr = .var name) :
    ((∃ decl, Captures body report name decl id) → ∃ init, ResolvesTo body report name id init) ∧
      (∀ init, ResolvesTo body report name id init →
        ∃ source, report.value? init = some source ∧
          report.value? id = some source.asLocal) ∧
      ((¬ ∃ decl, Captures body report name decl id) → ∀ binding,
        ctx.bindings.get? name = some binding →
          report.value? id = some (.ofBinding binding)) ∧
      ((∃ finding ∈ report.findings, finding.node = id ∧
          ∃ inScope, finding.problem = .unknownBinding name inScope) ↔
        (¬ ∃ decl, Captures body report name decl id) ∧ ctx.bindings.get? name = none) := by
  rw [Report.exists_finding_iff hcheck
    (P := fun problem => ∃ inScope, problem = .unknownBinding name inScope)]
  rcases Report.resolvesTo_or_free hcheck hid hnode hexpr with
    ⟨init, source, hresolves, -, hverdict⟩ | ⟨hfree, scope, hget, hverdict⟩
  · have hcaptured : ∃ decl, Captures body report name decl id := by
      obtain ⟨decl, -, hcaptures, -⟩ := hresolves
      exact ⟨decl, hcaptures⟩
    refine ⟨fun _ => ⟨init, hresolves⟩, fun init' hinit' => ?_, fun hfree => ?_, ?_⟩
    · obtain ⟨source', hsource', hverdict'⟩ :=
        Report.verdict?_of_resolvesTo hcheck hid hnode hexpr hinit'
      exact ⟨source', hsource', by rw [Report.value?, hverdict']; rfl⟩
    · exact absurd hcaptured hfree
    · refine iff_of_false ?_ fun h => h.1 hcaptured
      rintro ⟨verdict, problem, hverdict', hproblem, -⟩
      cases hverdict.symm.trans hverdict'
      exact absurd hproblem (by simp [Verdict.ok])
  · refine ⟨fun hcaptured => absurd hcaptured hfree, fun init' hinit' => ?_,
      fun _ binding hbinding => ?_, ?_⟩
    · obtain ⟨decl, -, hcaptures, -⟩ := hinit'
      exact absurd ⟨decl, hcaptures⟩ hfree
    · rw [Report.value?, hverdict, Context.resolveVar, hget, hbinding]
      rfl
    · rw [hverdict, Context.resolveVar, hget]
      cases hbinding : ctx.bindings.get? name with
      | none => exact iff_of_true ⟨_, _, rfl, rfl, _, rfl⟩ ⟨hfree, rfl⟩
      | some binding =>
        refine iff_of_false ?_ fun h => absurd h.2 (by simp)
        rintro ⟨verdict, problem, hverdict', hproblem, -⟩
        cases hverdict'
        exact absurd hproblem (by simp [Verdict.ok])

/-- `{ let p = stackalloc; let p = alloc; return p[..] }`. -/
def shadowBody : Body where
  name := "shadow"
  nodes := #[⟨.alloc .stack none, .zero⟩, ⟨.declare "p" ⟨0⟩, .zero⟩, ⟨.alloc .heap none, .zero⟩,
    ⟨.declare "p" ⟨2⟩, .zero⟩, ⟨.var "p", .zero⟩, ⟨.slice ⟨4⟩ [], .zero⟩,
    ⟨.ret ⟨5⟩ .value, .zero⟩, ⟨.block [⟨1⟩, ⟨3⟩, ⟨6⟩], .zero⟩]
  root := ⟨7⟩

/-- The name is that of a parameter by reference as well. -/
def shadowContext : Context where
  bindings := .ofList [("p", ⟨.refScoped, true, none⟩)]
  shapes := .ofList []
  config := {}

def shadowReport : Report where
  body := "shadow"
  visits := [
    ⟨⟨0⟩, ⟨[0, 0]⟩, .zero, .ok (.known (.temporary .stackOnly none))⟩,
    ⟨⟨1⟩, ⟨[0]⟩, .zero, .ok (.known .unit)⟩,
    ⟨⟨2⟩, ⟨[1, 0]⟩, .zero, .ok (.known (.temporary .heap none))⟩,
    ⟨⟨3⟩, ⟨[1]⟩, .zero, .ok (.known .unit)⟩,
    ⟨⟨4⟩, ⟨[2, 0, 0]⟩, .zero, .ok (.known ⟨.heap, none, .frame⟩)⟩,
    ⟨⟨5⟩, ⟨[2, 0]⟩, .zero, .ok (.known (.temporary .heap none))⟩,
    ⟨⟨6⟩, ⟨[2]⟩, .zero, .ok (.known .unit)⟩,
    ⟨⟨7⟩, ⟨[]⟩, .zero, .ok (.known .unit)⟩]

theorem check_shadow : shadowBody.check shadowContext = .ok shadowReport := by cbv

/-- The variable means the second declaration. -/
theorem resolvesTo_shadow : ResolvesTo shadowBody shadowReport "p" ⟨4⟩ ⟨2⟩ := by
  have hdecl : shadowBody.Declares ⟨3⟩ "p" ⟨2⟩ := ⟨_, rfl, rfl⟩
  have hbefore : shadowReport.Before ⟨3⟩ ⟨4⟩ := by unfold Report.Before; decide
  have hroot : shadowBody.Encloses ⟨7⟩ ⟨4⟩ := ⟨⟨[], rfl⟩, 2, [0, 0], rfl⟩
  refine ⟨⟨3⟩, hdecl, ⟨⟨⟨2⟩, hdecl⟩, hbefore, fun block hnearest => ?_⟩, fun other hother => ?_⟩
  · -- The only block is the root.
    obtain ⟨w, hw, rfl⟩ := Report.exists_visit check_shadow hnearest.encloses.1
    obtain ⟨node, stmts, hnode, hexpr⟩ := hnearest.isBlock
    simp only [shadowReport, List.mem_cons, List.not_mem_nil, or_false] at hw
    rcases hw with rfl | rfl | rfl | rfl | rfl | rfl | rfl | rfl
    all_goals first | exact hroot | (cases hnode; cases hexpr)
  · obtain ⟨init, hother'⟩ := hother.declares
    have hmem : other ∈ [⟨0⟩, ⟨1⟩, ⟨2⟩, ⟨3⟩] :=
      mem_of_pair_sublist (by decide) hother.before
    simp only [List.mem_cons, List.not_mem_nil, or_false] at hmem
    rcases hmem with rfl | rfl | rfl | rfl
    · cases (Body.declares_iff rfl).1 hother'
    · exact .inr (by unfold Report.Before; decide)
    · cases (Body.declares_iff rfl).1 hother'
    · exact .inl rfl

theorem names_resolve_lexically_at_redeclaration :
    ∃ report, shadowBody.check shadowContext = .ok report ∧
      report.value? ⟨4⟩ = some (.known ⟨.heap, none, .frame⟩) := by
  have hvar : shadowBody.Reaches ⟨4⟩ := ⟨[2, 0, 0], rfl⟩
  obtain ⟨-, hvalue, -⟩ := names_resolve_lexically check_shadow hvar rfl rfl
  obtain ⟨source, hsource, hlocal⟩ := hvalue _ resolvesTo_shadow
  cases hsource
  exact ⟨_, check_shadow, hlocal⟩

end FrameEscape
