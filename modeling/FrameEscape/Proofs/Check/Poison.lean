import FrameEscape.Proofs.Check.Order
import FrameEscape.Proofs.Check.Returns

/-!
# Poison has a cause

A poisoned node counts as stack-only, and the checks pass over it. That is safe only if
something has been said about it. Poison comes from a look-up that failed and was reported, from
a child, or from a local whose initialiser was poisoned (`Context.resolve_poisoned`). So a run
has a failed look-up among its visits up to each poisoned one (`Context.Run.poison_explained`),
where the invariant is that the visits made so far explain every poisoned name in scope.

Without such a report nothing is poisoned, and no verdict on a return is skipped
(`poison_never_silent`).
-/

namespace FrameEscape

/-! ## Failed look-ups -/

/-- A name, a member or a shape was not found. -/
def Problem.FailedLookup (problem : Problem) : Prop :=
  problem.kind = .unknownBinding ∨ problem.kind = .unknownMember ∨ problem.kind = .unknownShape

/-- The verdict reports a look-up that failed. -/
def Verdict.Fails (verdict : Verdict) : Prop :=
  ∃ problem, verdict.problem? = some problem ∧ problem.FailedLookup

/-- One of the visits reports a look-up that failed. -/
def Explained (visits : List Visit) : Prop := ∃ w ∈ visits, w.verdict.Fails

/-- The visits explain whatever poison is in scope. -/
def Scope.Explained (visits : List Visit) (scope : Scope) : Prop :=
  ∀ e ∈ scope, e.2 = .poisoned → FrameEscape.Explained visits

theorem Explained.mono {visits visits' : List Visit} (h : Explained visits)
    (hsub : visits ⊆ visits') : Explained visits' := by
  obtain ⟨w, hw, hfails⟩ := h
  exact ⟨w, hsub hw, hfails⟩

theorem Scope.Explained.mono {visits visits' : List Visit} {scope : Scope}
    (h : scope.Explained visits) (hsub : visits ⊆ visits') : scope.Explained visits' :=
  fun e he hpoison => (h e he hpoison).mono hsub

/-! ## Where poison comes from -/

theorem Verdict.fails_of_ofExcept {α : Type} {found : Except Problem α} {f : α → Value}
    (hfound : ∀ problem, found = .error problem → problem.FailedLookup)
    (h : (Verdict.ofExcept (found.map f)).value = .poisoned) :
    (Verdict.ofExcept (found.map f)).Fails := by
  cases found with
  | error problem => exact ⟨problem, rfl, hfound problem rfl⟩
  | ok a => cases h

theorem Resolved.andThen_poisoned {value : Resolved} {next : Value → Verdict}
    (hnext : ∀ known, (next known).value = .poisoned → (next known).Fails)
    (h : (value.andThen next).value = .poisoned) :
    (value.andThen next).Fails ∨ value = .poisoned := by
  cases value with
  | poisoned => exact .inr rfl
  | known known => exact .inl (hnext known h)

theorem Resolved.eq_poisoned_of_isPoisoned {value : Resolved} (h : value.isPoisoned = true) :
    value = .poisoned := by
  cases value with
  | poisoned => rfl
  | known _ => cases h

theorem Resolved.eq_poisoned_of_asLocal {value : Resolved} (h : value.asLocal = .poisoned) :
    value = .poisoned := by
  cases value with
  | poisoned => rfl
  | known _ => cases h

namespace Context

variable {ctx : Context} {scope : Scope}

theorem failedLookup_of_shape {name : String} {problem : Problem}
    (h : ctx.shape name = .error problem) : problem.FailedLookup := by
  unfold shape at h
  split at h
  · cases h
  · cases h
    exact .inr (.inr rfl)

theorem failedLookup_of_member {α : Type} {value : Value} {name : String} {find : Shape → Option α}
    {problem : Problem} (h : ctx.member value name find = .error problem) :
    problem.FailedLookup := by
  unfold member at h
  split at h
  · cases h
    exact .inr (.inl rfl)
  · split at h
    next hshape =>
      cases h
      exact failedLookup_of_shape hshape
    · split at h
      · cases h
      · cases h
        exact .inr (.inl rfl)

theorem resolveVar_poisoned {name : String}
    (h : (ctx.resolveVar scope name).value = .poisoned) :
    (ctx.resolveVar scope name).Fails ∨ ∃ e ∈ scope, e.2 = .poisoned := by
  unfold resolveVar at h ⊢
  cases hget : scope.get? name with
  | some value =>
    rw [hget] at h
    exact .inr ⟨(name, value), Scope.mem_of_get? hget, h⟩
  | none =>
    rw [hget] at h
    cases hbinding : ctx.bindings.get? name with
    | some binding =>
      rw [hbinding] at h
      cases h
    | none => exact .inl ⟨_, rfl, .inl rfl⟩

theorem resolveCall_poisoned {receiver : Value} {name : String} {args : List Resolved}
    (h : (ctx.resolveCall receiver name args).value = .poisoned) :
    (ctx.resolveCall receiver name args).Fails := by
  unfold resolveCall at h ⊢
  cases hmember : ctx.member receiver name (·.method? name) with
  | error problem => exact ⟨problem, rfl, failedLookup_of_member hmember⟩
  | ok method =>
    rw [hmember] at h
    cases h

theorem resolveIndex_poisoned {base : Value} {position : Resolved} {access : Access}
    (h : (ctx.resolveIndex base position access).value = .poisoned) :
    (ctx.resolveIndex base position access).Fails := by
  unfold resolveIndex at h ⊢
  cases hmember : ctx.member base "[]" (·.indexer) with
  | error problem => exact ⟨problem, rfl, failedLookup_of_member hmember⟩
  | ok indexer =>
    rw [hmember] at h
    cases h

theorem resolveConstruct_poisoned {name : String} {args : List Resolved}
    (h : (ctx.resolveConstruct name args).value = .poisoned) :
    (ctx.resolveConstruct name args).Fails ∨ .poisoned ∈ args := by
  unfold resolveConstruct at h ⊢
  cases hshape : ctx.shape name with
  | error problem => exact .inl ⟨problem, rfl, failedLookup_of_shape hshape⟩
  | ok shape =>
    rw [hshape] at h
    simp only at h
    split at h
    next hany =>
      obtain ⟨arg, harg, hpoisoned⟩ := List.any_eq_true.1 hany
      exact .inr (Resolved.eq_poisoned_of_isPoisoned hpoisoned ▸ harg)
    · cases h

/-- A poisoned node reports a failed look-up, or has a poisoned child, or uses a poisoned
name. -/
theorem resolve_poisoned {inputs : Expr Resolved}
    (h : (ctx.resolve scope inputs).value = .poisoned) :
    (ctx.resolve scope inputs).Fails ∨ .poisoned ∈ inputs.children ∨
      ∃ e ∈ scope, e.2 = .poisoned := by
  cases inputs with
  | literal | assign | declare | ret => cases h
  | alloc region name? =>
    cases name? with
    | none => cases h
    | some name => exact .inl (Verdict.fails_of_ofExcept (fun _ => failedLookup_of_shape) h)
  | var name => exact (resolveVar_poisoned h).imp_right .inr
  | field base name =>
    refine (Resolved.andThen_poisoned (fun known hknown => ?_) h).imp_right fun heq => ?_
    · exact Verdict.fails_of_ofExcept (fun _ => failedLookup_of_member) hknown
    · exact .inl (heq ▸ List.mem_cons_self)
  | call receiver name args =>
    refine (Resolved.andThen_poisoned (fun _ => resolveCall_poisoned) h).imp_right fun heq => ?_
    exact .inl (heq ▸ List.mem_cons_self)
  | index base position access =>
    refine (Resolved.andThen_poisoned (fun _ => resolveIndex_poisoned) h).imp_right fun heq => ?_
    exact .inl (heq ▸ List.mem_cons_self)
  | slice base args =>
    refine (Resolved.andThen_poisoned (fun _ hknown => ?_) h).imp_right fun heq => ?_
    · cases hknown
    · exact .inl (heq ▸ List.mem_cons_self)
  | construct name args => exact (resolveConstruct_poisoned h).imp_right .inl
  | block stmts =>
    change stmts.getLast?.getD (.known .unit) = .poisoned at h
    cases hlast : stmts.getLast? with
    | none =>
      rw [hlast] at h
      cases h
    | some last =>
      rw [hlast] at h
      cases h
      exact .inr (.inl (List.mem_of_getLast? hlast))

/-! ## Runs -/

variable {body : Body} {entries : List (List Nat × NodeId)} {before inside after : Scope}
  {values : List Resolved} {made visits : List Visit} {w : Visit} {inputs : Expr Resolved}

/-- One node whose children are explained: its own visit explains it if they do not. -/
theorem explained_of_resolve (hchildren : .poisoned ∈ inputs.children → Explained made)
    (hinside : inside.Explained made) (hverdict : w.verdict = ctx.resolve inside inputs)
    (h : w.verdict.value = .poisoned) : Explained (made ++ [w]) := by
  have hsub : made ⊆ made ++ [w] := List.subset_append_left _ _
  rw [hverdict] at h
  rcases resolve_poisoned h with hfails | hmem | ⟨e, he, hpoison⟩
  · exact ⟨w, by simp, hverdict ▸ hfails⟩
  · exact (hchildren hmem).mono hsub
  · exact (hinside e he hpoison).mono hsub

theorem explained_scopeAfter (hchildren : .poisoned ∈ inputs.children → Explained made)
    (hbefore : before.Explained made) (hinside : inside.Explained made) :
    (inputs.scopeAfter before inside).Explained made := by
  cases inputs with
  | declare name init =>
    intro e he hpoison
    rcases List.mem_cons.1 he with rfl | he
    · exact hchildren (Resolved.eq_poisoned_of_asLocal hpoison ▸ List.mem_singleton_self _)
    · exact hinside e he hpoison
  | block stmts => exact hbefore
  | _ => exact hinside

/-- The visits of a run explain its values and the names it leaves behind. -/
theorem Run.explained (h : ctx.Run body entries before values after visits)
    (hbefore : before.Explained made) :
    (.poisoned ∈ values → Explained (made ++ visits)) ∧ after.Explained (made ++ visits) := by
  induction h generalizing made with
  | nil scope => exact ⟨fun hmem => absurd hmem List.not_mem_nil, by rwa [List.append_nil]⟩
  | @cons steps id rest node inputs before inside _ _ kidVisits restVisits _ _ _ _ ihkids
      ihrest =>
    obtain ⟨hchildren, hinside⟩ := ihkids hbefore
    let w : Visit := ⟨id, .ofSteps steps, node.span, ctx.resolve inside inputs⟩
    have hafter : (inputs.scopeAfter before inside).Explained (made ++ kidVisits) :=
      explained_scopeAfter hchildren (hbefore.mono (List.subset_append_left _ _)) hinside
    obtain ⟨hvalues, hscope⟩ := ihrest (hafter.mono (List.subset_append_left _ [w]))
    have hall : made ++ kidVisits ++ [w] ++ restVisits =
        made ++ (kidVisits ++ w :: restVisits) := by simp
    rw [hall] at hvalues hscope
    refine ⟨fun hmem => ?_, hscope⟩
    rcases List.mem_cons.1 hmem with hpoison | hmem
    · refine (explained_of_resolve (w := w) hchildren hinside rfl hpoison.symm).mono ?_
      rw [← hall]
      exact List.subset_append_left _ _
    · exact hvalues hmem

/-- Each poisoned visit of a run is explained by itself or by those before it. -/
theorem Run.poison_explained (h : ctx.Run body entries before values after visits)
    (hbefore : before.Explained made) (hw : w ∈ visits) (hpoison : w.verdict.value = .poisoned) :
    ∃ earlier later, visits = earlier ++ w :: later ∧ Explained (made ++ earlier ++ [w]) := by
  induction h generalizing made with
  | nil => exact absurd hw List.not_mem_nil
  | @cons steps id rest node inputs before inside _ _ kidVisits restVisits _ _ hkids _ ihkids
      ihrest =>
    obtain ⟨hchildren, hinside⟩ := hkids.explained hbefore
    let v : Visit := ⟨id, .ofSteps steps, node.span, ctx.resolve inside inputs⟩
    rcases List.mem_append.1 hw with hw | hw
    · obtain ⟨earlier, later, rfl, hexplained⟩ := ihkids hbefore hw
      exact ⟨earlier, later ++ v :: restVisits, by simp [v], hexplained⟩
    · rcases List.mem_cons.1 hw with rfl | hw
      · exact ⟨kidVisits, restVisits, rfl, explained_of_resolve hchildren hinside rfl hpoison⟩
      · have hafter : (inputs.scopeAfter before inside).Explained (made ++ kidVisits) :=
          explained_scopeAfter hchildren (hbefore.mono (List.subset_append_left _ _)) hinside
        obtain ⟨earlier, later, rfl, hexplained⟩ :=
          ihrest (hafter.mono (List.subset_append_left _ [v])) hw
        exact ⟨kidVisits ++ v :: earlier, later, by simp [v], by simpa using hexplained⟩

end Context

/-! ## Reports -/

namespace Report

variable {ctx : Context} {body : Body} {report : Report} {id : NodeId}

/-- A poisoned node has a failed look-up at it or before it. -/
theorem exists_failedLookup (hcheck : body.check ctx = .ok report)
    (hpoison : report.value? id = some .poisoned) :
    ∃ finding ∈ report.findings, finding.problem.FailedLookup ∧
      (finding.node = id ∨ report.Before finding.node id) := by
  obtain ⟨verdict, hverdict, hvalue⟩ := Option.map_eq_some_iff.1 hpoison
  obtain ⟨w, hw, rfl, rfl⟩ := exists_visit_of_verdict? hverdict
  obtain ⟨-, _, _, hrun⟩ := Context.run_of_check hcheck
  have hnone : Scope.Explained [] [] := fun e he => absurd he List.not_mem_nil
  obtain ⟨earlier, later, hsplit, u, hu, problem, hproblem, hfailed⟩ :=
    hrun.poison_explained hnone hw hvalue
  have hmem : u ∈ report.visits := by
    rw [hsplit]
    rcases List.mem_append.1 hu with hu | hu
    · exact List.mem_append_left _ hu
    · rw [List.mem_singleton.1 hu]
      exact List.mem_append_right _ List.mem_cons_self
  refine ⟨⟨problem, u.node, u.path, u.span⟩,
    mem_findings_iff.2 ⟨u, hmem, rfl, rfl, rfl, hproblem⟩, hfailed, ?_⟩
  rcases List.mem_append.1 hu with hu | hu
  · exact .inr ((before_iff hcheck hsplit).2 ⟨u, hu, rfl⟩)
  · exact .inl (congrArg Visit.node (List.mem_singleton.1 hu))

theorem exists_known (hcheck : body.check ctx = .ok report)
    (hclean : ∀ finding ∈ report.findings, ¬ finding.problem.FailedLookup) {resolved : Resolved}
    (h : report.value? id = some resolved) : ∃ value, resolved = .known value := by
  refine Resolved.exists_known_of_ne ?_
  rintro rfl
  obtain ⟨finding, hfinding, hfailed, -⟩ := exists_failedLookup hcheck h
  exact hclean finding hfinding hfailed

/-- With no failed look-up every return by value is judged by the level returned. -/
theorem finds_ret_value_iff (hcheck : body.check ctx = .ok report)
    (hclean : ∀ finding ∈ report.findings, ¬ finding.problem.FailedLookup) {ret source : NodeId}
    {node : Node} (hret : body.Reaches ret) (hnode : body.node? ret = some node)
    (hexpr : node.expr = .ret source .value) :
    ∃ level, report.level? source = some level ∧ ∀ problem, report.Finds ret problem ↔
      level < .valueScoped ∧ problem = .notReturnable .value .valueScoped level := by
  obtain ⟨steps, hsteps⟩ := hret
  obtain ⟨resolved, hsource, hverdict, -⟩ := exists_return hcheck hsteps hnode hexpr
  obtain ⟨value, rfl⟩ := exists_known hcheck hclean hsource
  refine ⟨value.level, level?_of_value? hsource, fun problem => ?_⟩
  rw [finds_iff hcheck hverdict]
  exact returnProblem?_value_iff

/-- With no failed look-up every return by reference is judged by the level returned, and by
where the value comes from. -/
theorem finds_ret_ref_iff (hcheck : body.check ctx = .ok report)
    (hclean : ∀ finding ∈ report.findings, ¬ finding.problem.FailedLookup) {ret source : NodeId}
    {node : Node} {steps : List Nat} (hsteps : body.follow? body.root steps = some ret)
    (hnode : body.node? ret = some node) (hexpr : node.expr = .ret source .ref) :
    ∃ level, report.level? source = some level ∧ ((∃ problem, report.Finds ret problem) ↔
      level < .refScoped ∨ ctx.Slot body (body.Visible · steps) source ∨
        ∃ member, ReceiverResult ctx body report member source) := by
  obtain ⟨resolved, hsource, hverdict, hslot⟩ := exists_return hcheck hsteps hnode hexpr
  obtain ⟨value, rfl⟩ := exists_known hcheck hclean hsource
  have hreach : body.Reaches source :=
    Body.Reaches.child ⟨steps, hsteps⟩ hnode (by rw [hexpr]; exact List.mem_cons_self)
  refine ⟨value.level, level?_of_value? hsource, ?_⟩
  simp only [finds_iff hcheck hverdict, ← hslot value rfl,
    ← origin_eq_receiver_iff hcheck hreach hsource]
  exact returnProblem?_ref_iff

end Report

/-! ## The headline -/

/-- **Poison is never silent.** A poisoned node counts as stack-only, and a failed look-up is
reported at it or before it. So a report of none skips no return. By value the return is reported
if and only if the level is below value-scoped. By reference it is if and only if the level is
below ref-scoped, or the value is a place of this frame, or a reference that a member returned
into its receiver. -/
theorem poison_never_silent {ctx : Context} {body : Body}
    (hvalid : body.validate ctx.config.maxDepth = .ok ()) :
    ∃ report, body.check ctx = .ok report ∧
      (∀ id, report.value? id = some .poisoned → report.level? id = some .stackOnly ∧
        ∃ finding ∈ report.findings, finding.problem.FailedLookup ∧
          (finding.node = id ∨ report.Before finding.node id)) ∧
      ((∀ finding ∈ report.findings, ¬ finding.problem.FailedLookup) →
        (∀ ret node source, body.Reaches ret → body.node? ret = some node →
          node.expr = .ret source .value →
          ∃ level, report.level? source = some level ∧ ∀ problem, report.Finds ret problem ↔
            level < .valueScoped ∧ problem = .notReturnable .value .valueScoped level) ∧
        ∀ steps ret node source, body.follow? body.root steps = some ret →
          body.node? ret = some node → node.expr = .ret source .ref →
          ∃ level, report.level? source = some level ∧ ((∃ problem, report.Finds ret problem) ↔
            level < .refScoped ∨ ctx.Slot body (body.Visible · steps) source ∨
              ∃ member, ReceiverResult ctx body report member source)) := by
  obtain ⟨report, _, _, hcheck, -⟩ := Context.exists_check (Body.isTree_of_validate hvalid)
  refine ⟨report, hcheck, fun id hpoison => ?_, fun hclean => ⟨?_, ?_⟩⟩
  · exact ⟨Report.level?_of_value? hpoison, Report.exists_failedLookup hcheck hpoison⟩
  · intro ret node source hret hnode hexpr
    exact Report.finds_ret_value_iff hcheck hclean hret hnode hexpr
  · intro steps ret node source hsteps hnode hexpr
    exact Report.finds_ret_ref_iff hcheck hclean hsteps hnode hexpr

/-- `{ let y = x[..]; return ref y }` -/
def laterBody : Body where
  name := "later"
  nodes := #[⟨.var "x", .zero⟩, ⟨.slice ⟨0⟩ [], .zero⟩, ⟨.declare "y" ⟨1⟩, .zero⟩,
    ⟨.var "y", .zero⟩, ⟨.ret ⟨3⟩ .ref, .zero⟩, ⟨.block [⟨2⟩, ⟨4⟩], .zero⟩]
  root := ⟨5⟩

/-- Heap data under the given name. -/
def laterContext (name : String) : Context where
  bindings := .ofList [(name, ⟨.heap, true, none⟩)]
  shapes := .ofList []
  config := {}

/-- If `x` means nothing, `y` is poisoned and the return is not judged. If it is a parameter by
reference, the return is one of a local, though its data is on the heap. -/
theorem poison_never_silent_at_local :
    (∃ report, laterBody.check (laterContext "z") = .ok report ∧
      ∃ finding ∈ report.findings, finding.problem.FailedLookup ∧
        (finding.node = ⟨3⟩ ∨ report.Before finding.node ⟨3⟩)) ∧
    ∃ report, laterBody.check (laterContext "x") = .ok report ∧
      ∃ problem, report.Finds ⟨4⟩ problem := by
  have hvalid : ∀ name, laterBody.validate (laterContext name).config.maxDepth = .ok () := by
    intro name
    cbv
  refine ⟨?_, ?_⟩
  · obtain ⟨report, hcheck, hpoison, -⟩ := poison_never_silent (hvalid "z")
    have hvalue : (laterBody.check (laterContext "z")).map (·.value? ⟨3⟩) =
        .ok (some .poisoned) := by cbv
    exact ⟨report, hcheck, (hpoison ⟨3⟩ (Report.eq_of_map_check hcheck hvalue)).2⟩
  · obtain ⟨report, hcheck, -, hreturns⟩ := poison_never_silent (hvalid "x")
    have hfindings : (laterBody.check (laterContext "x")).map Report.findings = .ok
        [⟨.notReturnable .ref .refScoped .stackOnly, ⟨4⟩, ⟨[1]⟩, .zero⟩] := by cbv
    have hclean : ∀ finding ∈ report.findings, ¬ finding.problem.FailedLookup := by
      rw [Report.eq_of_map_check hcheck hfindings]
      intro finding hfinding
      rw [List.mem_singleton.1 hfinding]
      rintro (h | h | h) <;> cases h
    obtain ⟨level, -, hiff⟩ := (hreturns hclean).2 [1] ⟨4⟩ _ ⟨3⟩ rfl rfl rfl
    refine ⟨report, hcheck, hiff.2 (.inr (.inl ?_))⟩
    have hdeclared : laterBody.Visible "y" [1] :=
      ⟨[], 1, [], ⟨5⟩, _, ⟨2⟩, rfl, rfl, rfl, List.mem_cons_self, .declare rfl rfl⟩
    exact .var rfl rfl (.inl hdeclared)

end FrameEscape
