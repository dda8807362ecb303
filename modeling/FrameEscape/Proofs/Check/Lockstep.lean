import FrameEscape.Proofs.Check.Report

/-!
# Two runs over one body

Two contexts give two runs over the nodes of one body. `Lockstep` asks three things of a
relation of values and one of verdicts, about one node at a time: related inputs have related
verdicts. `LockstepOn` asks this of some expressions only, for bodies made of those. The runs then
go through the same visits with related verdicts (`Run.lockstepOn`), and so do the reports
(`Lockstep.exists_check`).
-/

namespace FrameEscape

/-- The scopes declare the same names, with related values. -/
def Scope.Rel (R : Resolved → Resolved → Prop) (scope scope' : Scope) : Prop :=
  List.Forall₂ (fun e e' => e.1 = e'.1 ∧ R e.2 e'.2) scope scope'

/-- The visits are of the same node at the same place, with related verdicts. -/
structure Visit.Rel (V : Verdict → Verdict → Prop) (w w' : Visit) : Prop where
  node_eq : w.node = w'.node
  path_eq : w.path = w'.path
  span_eq : w.span = w'.span
  verdict : V w.verdict w'.verdict

/-- Whatever the node, related inputs have related verdicts in the two contexts. -/
structure Lockstep (R : Resolved → Resolved → Prop) (V : Verdict → Verdict → Prop)
    (ctx ctx' : Context) : Prop where
  value : ∀ {verdict verdict'}, V verdict verdict' → R verdict.value verdict'.value
  asLocal : ∀ {value value'}, R value value' → R value.asLocal value'.asLocal
  resolve : ∀ {scope scope' inputs inputs'}, Scope.Rel R scope scope' → inputs.Rel R inputs' →
    V (ctx.resolve scope inputs) (ctx'.resolve scope' inputs')

/-- `Lockstep` for the nodes whose expressions have the property. -/
structure LockstepOn (G : Expr NodeId → Prop) (R : Resolved → Resolved → Prop)
    (V : Verdict → Verdict → Prop) (ctx ctx' : Context) : Prop where
  value : ∀ {verdict verdict'}, V verdict verdict' → R verdict.value verdict'.value
  asLocal : ∀ {value value'}, R value value' → R value.asLocal value'.asLocal
  resolve : ∀ {expr scope scope' inputs inputs'}, G expr → expr.Alike inputs →
    Scope.Rel R scope scope' → inputs.Rel R inputs' →
    V (ctx.resolve scope inputs) (ctx'.resolve scope' inputs')

/-- The expressions of the node and of all that is below it have the property. -/
def Body.Throughout (body : Body) (id : NodeId) (G : Expr NodeId → Prop) : Prop :=
  ∀ steps target node, body.follow? id steps = some target → body.node? target = some node →
    G node.expr

/-! ## Lists and options that are related element by element -/

section Lists

variable {α β γ δ : Type} {P : α → β → Prop} {Q : γ → δ → Prop} {as : List α} {bs : List β}

theorem rel_option_rfl (a? : Option α) : Option.Rel Eq a? a? := by
  cases a? with
  | none => exact .none
  | some a => exact .some rfl

theorem rel_optionMap {a? : Option α} {b? : Option β} {f : α → γ} {g : β → δ}
    (h : Option.Rel P a? b?) (hfg : ∀ {a b}, P a b → Q (f a) (g b)) :
    Option.Rel Q (a?.map f) (b?.map g) := by
  cases h with
  | some hab => exact .some (hfg hab)
  | none => exact .none

theorem rel_getD {a? : Option α} {b? : Option β} {a : α} {b : β} (h : Option.Rel P a? b?)
    (hdefault : P a b) : P (a?.getD a) (b?.getD b) := by
  cases h with
  | some hab => exact hab
  | none => exact hdefault

theorem isSome_eq_of_rel {a? : Option α} {b? : Option β} (h : Option.Rel P a? b?) :
    a?.isSome = b?.isSome := by
  cases h <;> rfl

theorem optionMap_eq_of_rel {a? : Option α} {b? : Option β} {f : α → γ} {g : β → γ}
    (h : Option.Rel P a? b?) (hfg : ∀ {a b}, P a b → f a = g b) : a?.map f = b?.map g := by
  cases h with
  | some hab => exact congrArg some (hfg hab)
  | none => rfl

theorem exists_some_of_rel {a? : Option α} {b? : Option β} {a : α} (h : Option.Rel P a? b?)
    (ha : a? = some a) : ∃ b, b? = some b ∧ P a b := by
  subst ha
  cases h with
  | some hab => exact ⟨_, rfl, hab⟩

theorem rel_option_imp {Q : α → β → Prop} {a? : Option α} {b? : Option β}
    (h : Option.Rel P a? b?) (hPQ : ∀ {a b}, P a b → Q a b) : Option.Rel Q a? b? := by
  cases h with
  | some hab => exact .some (hPQ hab)
  | none => exact .none

theorem rel_option_flip {Q : β → α → Prop} {a? : Option α} {b? : Option β}
    (h : Option.Rel P a? b?) (hPQ : ∀ {a b}, P a b → Q b a) : Option.Rel Q b? a? := by
  cases h with
  | some hab => exact .some (hPQ hab)
  | none => exact .none

theorem rel_getElem? (h : List.Forall₂ P as bs) (i : Nat) : Option.Rel P as[i]? bs[i]? := by
  induction h generalizing i with
  | nil => exact .none
  | cons hab _ ih =>
    cases i with
    | zero => exact .some hab
    | succ i => exact ih i

theorem rel_getLast? (h : List.Forall₂ P as bs) : Option.Rel P as.getLast? bs.getLast? := by
  rw [List.getLast?_eq_getElem?, List.getLast?_eq_getElem?, h.length_eq]
  exact rel_getElem? h _

theorem rel_find? {p : α → Bool} {q : β → Bool} (h : List.Forall₂ P as bs)
    (hpq : ∀ {a b}, P a b → p a = q b) : Option.Rel P (as.find? p) (bs.find? q) := by
  induction h with
  | nil => exact .none
  | @cons a b _ _ hab _ ih =>
    rw [List.find?_cons, List.find?_cons, hpq hab]
    cases q b with
    | true => exact .some hab
    | false => exact ih

theorem map_eq_of_rel {f : α → γ} {g : β → γ} (h : List.Forall₂ P as bs)
    (hfg : ∀ {a b}, P a b → f a = g b) : as.map f = bs.map g := by
  induction h with
  | nil => rfl
  | cons hab _ ih => rw [List.map_cons, List.map_cons, hfg hab, ih]

theorem filterMap_eq_of_rel {f : α → Option γ} {g : β → Option γ} (h : List.Forall₂ P as bs)
    (hfg : ∀ {a b}, P a b → f a = g b) : as.filterMap f = bs.filterMap g := by
  induction h with
  | nil => rfl
  | cons hab _ ih => rw [List.filterMap_cons, List.filterMap_cons, hfg hab, ih]

theorem findIdx?_eq_of_rel {p : α → Bool} {q : β → Bool} (h : List.Forall₂ P as bs)
    (hpq : ∀ {a b}, P a b → p a = q b) : as.findIdx? p = bs.findIdx? q := by
  induction h with
  | nil => rfl
  | cons hab _ ih => rw [List.findIdx?_cons, List.findIdx?_cons, hpq hab, ih]

theorem rel_zipIdx (h : List.Forall₂ P as bs) (start : Nat) :
    List.Forall₂ (fun e e' => P e.1 e'.1 ∧ e.2 = e'.2) (as.zipIdx start) (bs.zipIdx start) := by
  induction h generalizing start with
  | nil => exact .nil
  | cons hab _ ih =>
    rw [List.zipIdx_cons, List.zipIdx_cons]
    exact .cons ⟨hab, rfl⟩ (ih (start + 1))

theorem rel_mapIdx {f : Nat → α → γ} {g : Nat → β → δ}
    (h : List.Forall₂ P as bs) (hfg : ∀ i a b, P a b → Q (f i a) (g i b)) :
    List.Forall₂ Q (as.mapIdx f) (bs.mapIdx g) := by
  induction h generalizing f g with
  | nil => exact .nil
  | cons hab _ ih =>
    rw [List.mapIdx_cons, List.mapIdx_cons]
    exact .cons (hfg 0 _ _ hab) (ih fun i a b hP => hfg (i + 1) a b hP)

theorem exists_rel_of_mem_right {b : β} (h : List.Forall₂ P as bs) (hb : b ∈ bs) :
    ∃ a ∈ as, P a b := by
  obtain ⟨i, hi, rfl⟩ := List.mem_iff_getElem.1 hb
  have hlt : i < as.length := h.length_eq ▸ hi
  exact ⟨as[i], List.getElem_mem hlt, h.get hlt hi⟩

end Lists

variable {R : Resolved → Resolved → Prop} {V : Verdict → Verdict → Prop}

/-! ## Scopes -/

theorem Scope.Rel.get? {scope scope' : Scope} (h : scope.Rel R scope') (name : String) :
    Option.Rel R (scope.get? name) (scope'.get? name) := by
  unfold Scope.get?
  induction h with
  | nil => exact .none
  | @cons e e' _ _ he _ ih =>
    rw [NameTable.lookup_cons_ite, NameTable.lookup_cons_ite, ← he.1]
    by_cases hname : name = e.1
    · rw [if_pos hname, if_pos hname]
      exact .some he.2
    · rw [if_neg hname, if_neg hname]
      exact ih

theorem Scope.Rel.names_eq {scope scope' : Scope} (h : scope.Rel R scope') :
    scope.names = scope'.names :=
  map_eq_of_rel h fun he => he.1

variable {ctx ctx' : Context} {G : Expr NodeId → Prop}

theorem LockstepOn.scopeAfter (h : LockstepOn G R V ctx ctx') {inputs inputs' : Expr Resolved}
    {before before' inside inside' : Scope} (hinputs : inputs.Rel R inputs')
    (hbefore : before.Rel R before') (hinside : inside.Rel R inside') :
    (inputs.scopeAfter before inside).Rel R (inputs'.scopeAfter before' inside') := by
  cases hinputs with
  | declare name hinit => exact .cons ⟨rfl, h.asLocal hinit⟩ hinside
  | block _ => exact hbefore
  | _ => exact hinside

/-! ## Runs -/

variable {body : Body} {entries : List (List Nat × NodeId)} {before after : Scope}
  {values : List Resolved} {visits : List Visit} {before' after' : Scope}
  {values' : List Resolved} {visits' : List Visit}

theorem Body.Throughout.child {id child : NodeId} {node : Node} (h : body.Throughout id G)
    (hnode : body.node? id = some node) (hchild : child ∈ node.expr.children) :
    body.Throughout child G := by
  obtain ⟨step, hstep⟩ := List.mem_iff_getElem?.1 hchild
  intro steps target node' hsteps
  exact h (step :: steps) target node' (follow?_cons_iff.2 ⟨node, child, hnode, hstep, hsteps⟩)

theorem Context.Run.lockstepOn (h : LockstepOn G R V ctx ctx')
    (hrun : ctx.Run body entries before values after visits)
    (hrun' : ctx'.Run body entries before' values' after' visits')
    (hG : ∀ e ∈ entries, body.Throughout e.2 G) (hbefore : before.Rel R before') :
    List.Forall₂ R values values' ∧ after.Rel R after' ∧
      List.Forall₂ (Visit.Rel V) visits visits' := by
  induction hrun generalizing before' after' values' visits' with
  | nil =>
    cases hrun'
    exact ⟨.nil, hbefore, .nil⟩
  | @cons steps id rest node inputs before inside _ _ _ _ hnode halike _ _ ihkids ihrest =>
    cases hrun' with
    | cons hnode' halike' hkids' hrest' =>
      cases hnode.symm.trans hnode'
      have hid : body.Throughout id G := hG _ List.mem_cons_self
      -- The children go first, then the node itself, then the nodes after it.
      obtain ⟨hvalues, hinside, hvisits⟩ := ihkids hkids' (fun e he => by
        obtain ⟨i, hchild, -⟩ := mem_siblings_iff.1 he
        exact hid.child hnode (List.mem_of_getElem? hchild)) hbefore
      have hinputs := (halike.join halike').of_children hvalues
      have hverdict := h.resolve (hid [] id node rfl hnode) halike hinside hinputs
      obtain ⟨hvalues', hafter, hvisits'⟩ := ihrest hrest'
        (fun e he => hG e (List.mem_cons_of_mem _ he)) (h.scopeAfter hinputs hbefore hinside)
      refine ⟨.cons (h.value hverdict) hvalues', hafter, ?_⟩
      exact List.rel_append hvisits (.cons ⟨rfl, rfl, rfl, hverdict⟩ hvisits')

/-- A body that is accepted with a limit that the two contexts share has two reports, visit by
visit. -/
theorem LockstepOn.exists_check (h : LockstepOn G R V ctx ctx')
    (hlimit : ctx.config.maxDepth = ctx'.config.maxDepth)
    (hvalid : body.validate ctx.config.maxDepth = .ok ()) (hG : body.Throughout body.root G) :
    ∃ report report', body.check ctx = .ok report ∧ body.check ctx' = .ok report' ∧
      List.Forall₂ (Visit.Rel V) report.visits report'.visits := by
  have htree : body.IsTree ctx.config.maxDepth := Body.isTree_of_validate hvalid
  have htree' : body.IsTree ctx'.config.maxDepth := hlimit ▸ htree
  obtain ⟨report, _, _, hcheck, hrun⟩ := Context.exists_check htree
  obtain ⟨report', _, _, hcheck', hrun'⟩ := Context.exists_check htree'
  have hroot : ∀ e ∈ [(([] : List Nat), body.root)], body.Throughout e.2 G := by
    intro e he
    cases List.mem_singleton.1 he
    exact hG
  exact ⟨report, report', hcheck, hcheck', (hrun.lockstepOn h hrun' hroot .nil).2.2⟩

theorem Lockstep.on (h : Lockstep R V ctx ctx') : LockstepOn (fun _ => True) R V ctx ctx' :=
  ⟨h.value, h.asLocal, fun _ _ => h.resolve⟩

theorem Lockstep.exists_check (h : Lockstep R V ctx ctx')
    (hlimit : ctx.config.maxDepth = ctx'.config.maxDepth)
    (hvalid : body.validate ctx.config.maxDepth = .ok ()) :
    ∃ report report', body.check ctx = .ok report ∧ body.check ctx' = .ok report' ∧
      List.Forall₂ (Visit.Rel V) report.visits report'.visits :=
  h.on.exists_check hlimit hvalid fun _ _ _ _ _ => trivial

/-- Two contexts whose verdicts on equal inputs differ by a function that keeps the value go in
lockstep with equal values. -/
theorem Lockstep.of_resolve_eq {ctx ctx' : Context} {f : Verdict → Verdict}
    (hvalue : ∀ verdict, (f verdict).value = verdict.value)
    (h : ∀ scope inputs, ctx'.resolve scope inputs = f (ctx.resolve scope inputs)) :
    Lockstep Eq (fun verdict verdict' => verdict' = f verdict) ctx ctx' := by
  refine ⟨fun {verdict _} heq => heq ▸ (hvalue verdict).symm, congrArg Resolved.asLocal, ?_⟩
  intro scope scope' inputs inputs' hscope hinputs
  have hsame : scope = scope' :=
    List.forall₂_eq_eq_eq ▸ hscope.imp fun _ _ he => Prod.ext he.1 he.2
  have hchildren : inputs.children = inputs'.children := List.forall₂_eq_eq_eq ▸ hinputs.children
  rw [hsame, hinputs.alike.eq_of_children hchildren]
  exact h scope' inputs'

/-- The visits of a run are determined. -/
theorem Context.Run.visits_eq (hrun : ctx.Run body entries before values after visits)
    (hrun' : ctx.Run body entries before values' after' visits') : visits = visits' := by
  have hsame : Lockstep Eq (fun verdict verdict' => verdict' = verdict) ctx ctx :=
    .of_resolve_eq (f := id) (fun _ => rfl) fun _ _ => rfl
  have hscope : before.Rel Eq before := List.forall₂_same.2 fun _ _ => ⟨rfl, rfl⟩
  obtain ⟨-, -, hvisits⟩ := hrun.lockstepOn hsame.on hrun' (fun _ _ _ _ _ _ _ => trivial) hscope
  refine List.forall₂_eq_eq_eq ▸ hvisits.imp fun w w' hw => ?_
  obtain ⟨node, path, span, verdict⟩ := w
  exact (Visit.mk.injEq ..).mpr ⟨hw.node_eq, hw.path_eq, hw.span_eq, hw.verdict.symm⟩

/-! ## Reports -/

/-- Reports that agree visit by visit have related verdicts for each node. -/
theorem Report.rel_verdict? {report report' : Report}
    (h : List.Forall₂ (Visit.Rel V) report.visits report'.visits) (id : NodeId) :
    Option.Rel V (report.verdict? id) (report'.verdict? id) := by
  unfold verdict?
  refine rel_optionMap (rel_find? h fun hw => ?_) fun hw => hw.verdict
  rw [hw.node_eq]

/-- Reports that agree visit by visit, with the same level each time, have the same levels. -/
theorem Report.level?_eq_of_rel {report report' : Report}
    (h : List.Forall₂ (Visit.Rel V) report.visits report'.visits)
    (hV : ∀ {verdict verdict'}, V verdict verdict' → verdict.value.level = verdict'.value.level)
    (id : NodeId) : report.level? id = report'.level? id :=
  optionMap_eq_of_rel (rel_verdict? h id) hV

/-- Reports that agree visit by visit, with the same problem each time, have the same findings. -/
theorem Report.findings_eq_of_rel {report report' : Report}
    (h : List.Forall₂ (Visit.Rel V) report.visits report'.visits)
    (hV : ∀ {verdict verdict'}, V verdict verdict' → verdict.problem? = verdict'.problem?) :
    report.findings = report'.findings := by
  have hfinding : ∀ {w w'}, Visit.Rel V w w' → w.finding? = w'.finding? := by
    intro w w' hw
    rw [Visit.finding?, Visit.finding?, hV hw.verdict, hw.node_eq, hw.path_eq, hw.span_eq]
  exact filterMap_eq_of_rel h hfinding

/-- If a problem of a verdict on the right has a like one on the left, then so has a finding of
that problem. -/
theorem Report.exists_finding_of_rel {K : Problem → Prop} {report report' : Report}
    (h : List.Forall₂ (Visit.Rel V) report.visits report'.visits) {finding' : Finding}
    (hV : ∀ {verdict verdict'}, V verdict verdict' →
      verdict'.problem? = some finding'.problem → ∃ problem, verdict.problem? = some problem ∧
        K problem) (hfinding : finding' ∈ report'.findings) :
    ∃ finding ∈ report.findings, finding.node = finding'.node ∧ finding.path = finding'.path ∧
      finding.span = finding'.span ∧ K finding.problem := by
  obtain ⟨w', hw', hnode, hpath, hspan, hproblem'⟩ := mem_findings_iff.1 hfinding
  obtain ⟨w, hw, hrel⟩ := exists_rel_of_mem_right h hw'
  obtain ⟨problem, hproblem, hK⟩ := hV hrel.verdict hproblem'
  exact ⟨⟨problem, w.node, w.path, w.span⟩, mem_findings_iff.2 ⟨w, hw, rfl, rfl, rfl, hproblem⟩,
    hrel.node_eq.trans hnode, hrel.path_eq.trans hpath, hrel.span_eq.trans hspan, hK⟩

end FrameEscape
