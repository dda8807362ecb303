import FrameEscape.Proofs.Check.Respelling
import FrameEscape.Proofs.Diagnostic.Suggestions

/-!
# The levels in a finding

Problems of four kinds come from a comparison of levels, and name the level that was required and
the one that was there. The latter is below the former (`Config.Judges.exists_levels`). At a return
or a store it is the level that the report has for the value that was returned or stored, but for a
reference to a place of this frame, which counts as stack-only however safe the data in the place
is (`Finding.Compared`).

So the advice for values that are safe enough is never given: a return of those is not a problem.
-/

namespace FrameEscape

/-! ## Problems that name levels -/

namespace Problem

/-- The problem comes from a comparison of levels. -/
def ComparesLevels (problem : Problem) : Prop :=
  problem.kind = .notReturnable ∨ problem.kind = .escapingAssignment ∨
    problem.kind = .receiverReturned ∨ problem.kind = .mixedArguments

theorem isSome_requiredLevel?_iff (problem : Problem) :
    problem.requiredLevel?.isSome = true ↔ problem.ComparesLevels := by
  cases problem <;> simp [requiredLevel?, ComparesLevels, kind]

theorem isSome_actualLevel?_iff (problem : Problem) :
    problem.actualLevel?.isSome = true ↔ problem.ComparesLevels := by
  cases problem <;> simp [actualLevel?, ComparesLevels, kind]

theorem FailedLookup.requiredLevel?_eq_none {problem : Problem} (h : problem.FailedLookup) :
    problem.requiredLevel? = none := by
  cases problem <;> simp_all [FailedLookup, kind, requiredLevel?]

end Problem

variable {ctx : Context} {body : Body} {report : Report} {finding : Finding}

/-- A check that finds a problem names two levels, of which the one that was there is lower. -/
theorem Config.Judges.exists_levels {config : Config} {inputs : Expr Resolved} {problem : Problem}
    (h : config.Judges inputs problem) :
    ∃ required actual, problem.requiredLevel? = some required ∧
      problem.actualLevel? = some actual ∧ actual < required := by
  have hbelow : Level.stackOnly < .refScoped := by decide
  cases h with
  | call hmixed | index hmixed =>
    have hkind := kind_of_mixedArguments? hmixed
    cases problem <;> cases hkind
    exact ⟨_, _, rfl, rfl, hbelow⟩
  | assign hstore =>
    obtain ⟨stored, required, -, rfl, hlt⟩ := storeProblem?_eq_some hstore
    exact ⟨_, _, rfl, rfl, hlt⟩
  | ret hreturn =>
    obtain ⟨returned, -, ⟨member, -, rfl⟩ | ⟨rfl, hlt⟩⟩ := returnProblem?_eq_some hreturn
    · exact ⟨_, _, rfl, rfl, hbelow⟩
    · exact ⟨_, _, rfl, rfl, hlt⟩

/-! ## What was compared -/

/-- A finding names the levels that were compared at its node. -/
structure Finding.Compared (ctx : Context) (body : Body) (report : Report) (finding : Finding) :
    Prop where
  required : finding.problem.requiredLevel?.isSome = true ↔ finding.problem.ComparesLevels
  actual : finding.problem.actualLevel?.isSome = true ↔ finding.problem.ComparesLevels
  /-- The level that was there is the lower one. -/
  below : ∀ required actual, finding.problem.requiredLevel? = some required →
    finding.problem.actualLevel? = some actual → actual < required
  /-- A value in a return has the level that it was evaluated to, unless it is a place of this frame
  and goes by reference. -/
  returned : ∀ mode required actual, finding.problem = .notReturnable mode required actual →
    ∃ node source, body.node? finding.node = some node ∧ node.expr = .ret source mode ∧
      (mode = .ref → ctx.Slot body (body.Visible · finding.path.positions) source →
        actual = .stackOnly) ∧
      (¬ (mode = .ref ∧ ctx.Slot body (body.Visible · finding.path.positions) source) →
        report.level? source = some actual)
  /-- A value in a store has the level that it was evaluated to. -/
  stored : ∀ mode required actual, finding.problem = .escapingAssignment mode required actual →
    ∃ node target source, body.node? finding.node = some node ∧
      node.expr = .assign target source mode ∧ report.level? source = some actual

/-- A finding that is no failed look-up is what a check of known values found at its node. -/
theorem Finding.exists_judged (hcheck : body.check ctx = .ok report)
    (hfinding : finding ∈ report.findings) (hnot : ¬ finding.problem.FailedLookup) :
    ∃ node inputs, body.follow? body.root finding.path.positions = some finding.node ∧
      body.node? finding.node = some node ∧
      node.expr.Rel (fun child value => report.value? child = some value) inputs ∧
      ctx.config.Judges inputs finding.problem := by
  obtain ⟨w, node, before, inside, inputs, hbehind, hid, hproblem⟩ :=
    Context.behind_of_finding hcheck hfinding
  refine ⟨node, inputs, hid ▸ hbehind.comes.follow?, hid ▸ hbehind.node_eq, hbehind.rel, ?_⟩
  exact (Context.misses_or_judges hproblem).resolve_left fun hmisses => hnot hmisses.failedLookup

theorem Finding.actual_lt_required (hcheck : body.check ctx = .ok report)
    (hfinding : finding ∈ report.findings) {required actual : Level}
    (hrequired : finding.problem.requiredLevel? = some required)
    (hactual : finding.problem.actualLevel? = some actual) : actual < required := by
  have hnot : ¬ finding.problem.FailedLookup := by
    intro hfailed
    cases hrequired.symm.trans hfailed.requiredLevel?_eq_none
  obtain ⟨_, _, -, -, -, hjudges⟩ := exists_judged hcheck hfinding hnot
  obtain ⟨_, _, hrequired', hactual', hlt⟩ := hjudges.exists_levels
  cases hrequired.symm.trans hrequired'
  cases hactual.symm.trans hactual'
  exact hlt

/-- What is not fit for a return was returned, and it was compared as it is returned. -/
theorem Finding.exists_returned (hcheck : body.check ctx = .ok report)
    (hfinding : finding ∈ report.findings) {mode : Access} {required actual : Level}
    (hproblem : finding.problem = .notReturnable mode required actual) :
    ∃ node source returned, body.node? finding.node = some node ∧
      node.expr = .ret source mode ∧ report.value? source = some (.known returned) ∧
      actual = returned.returnedLevel mode ∧ actual < .requiredForReturn mode ∧
      (returned.origin = .frame ↔ ctx.Slot body (body.Visible · finding.path.positions) source) := by
  obtain ⟨node, inputs, hleads, hnode, hrel, hjudges⟩ := exists_judged hcheck hfinding
    (by simp [hproblem, Problem.FailedLookup, Problem.kind])
  rw [hproblem] at hjudges
  generalize hexpr : node.expr = expr at hrel
  -- Only the check of a return reports this kind.
  cases hjudges with
  | call hmixed | index hmixed => cases kind_of_mixedArguments? hmixed
  | assign hstore => cases kind_of_storeProblem? hstore
  | ret hreturn =>
    obtain ⟨returned, rfl, ⟨_, -, hother⟩ | ⟨hcompared, hbelow⟩⟩ := returnProblem?_eq_some hreturn
    · cases hother
    · cases hcompared
      cases hrel with
      | ret hsource =>
        obtain ⟨_, hsource', -, hframe⟩ := Report.exists_return hcheck hleads hnode hexpr
        cases hsource.symm.trans hsource'
        exact ⟨node, _, returned, hnode, hexpr, hsource, rfl, hbelow, hframe returned rfl⟩

theorem Finding.exists_stored (hcheck : body.check ctx = .ok report)
    (hfinding : finding ∈ report.findings) {mode : Access} {required actual : Level}
    (hproblem : finding.problem = .escapingAssignment mode required actual) :
    ∃ node target source, body.node? finding.node = some node ∧
      node.expr = .assign target source mode ∧ report.level? source = some actual := by
  obtain ⟨node, inputs, -, hnode, hrel, hjudges⟩ := exists_judged hcheck hfinding
    (by simp [hproblem, Problem.FailedLookup, Problem.kind])
  rw [hproblem] at hjudges
  generalize hexpr : node.expr = expr at hrel
  cases hjudges with
  | call hmixed | index hmixed => cases kind_of_mixedArguments? hmixed
  | assign hstore =>
    obtain ⟨stored, _, rfl, hcompared, -⟩ := storeProblem?_eq_some hstore
    cases hcompared
    cases hrel with
    | assign _ hsource =>
      exact ⟨node, _, _, hnode, hexpr, Report.level?_of_value? hsource⟩
  | ret hreturn => rcases kind_of_returnProblem? hreturn with h | h <;> cases h

theorem Finding.compared (hcheck : body.check ctx = .ok report)
    (hfinding : finding ∈ report.findings) : finding.Compared ctx body report where
  required := finding.problem.isSome_requiredLevel?_iff
  actual := finding.problem.isSome_actualLevel?_iff
  below _ _ := actual_lt_required hcheck hfinding
  returned mode required actual hproblem := by
    obtain ⟨node, source, returned, hnode, hexpr, hsource, rfl, -, hframe⟩ :=
      exists_returned hcheck hfinding hproblem
    refine ⟨node, source, hnode, hexpr, fun hmode hslot => ?_, fun hnot => ?_⟩
    · exact if_pos ⟨hmode, hframe.2 hslot⟩
    · rw [Value.returnedLevel, if_neg (by rwa [hframe])]
      exact Report.level?_of_value? hsource
  stored _ _ _ := exists_stored hcheck hfinding

/-! ## Advice -/

/-- Advice on a return is for levels below the one required. -/
theorem returnHelp_ne {mode : Access} {actual : Level} (h : actual < .requiredForReturn mode) :
    returnHelp mode actual ≠ "copy the data out before returning" := by
  revert h
  cases mode <;> cases actual <;> decide

/-- No other help begins like that advice. -/
theorem Finding.help_ne_copy
    (h : ∀ mode required actual, finding.problem = .notReturnable mode required actual →
      actual < .requiredForReturn mode) :
    finding.toDiagnostic.help ≠ some "copy the data out before returning" := by
  have hfirst : "copy the data out before returning".toList.head? = some 'c' := rfl
  intro hhelp
  rcases help_cases hhelp with
    ⟨_, _, name, -, -, heq⟩ | ⟨mode, required, actual, hproblem, heq⟩ | hother | hother
  · cases (heq ▸ hfirst).symm.trans (head?_hint name)
  · exact returnHelp_ne (h mode required actual hproblem) heq.symm
  all_goals cases hfirst.symm.trans hother

/-! ## The headline -/

/-- **Findings name the levels that were compared.** If a finding names a level it names both, the
one that was there below the one required, and it does so for the four kinds of problems that
compare levels. What a return or a store names is the way it is made, and the level of what is
returned or stored. So no diagnostic of a report advises to copy what is safe enough already. -/
theorem compared_levels_named (hcheck : body.check ctx = .ok report) :
    (∀ finding ∈ report.findings, finding.Compared ctx body report) ∧
      ∀ diagnostic ∈ report.diagnostics,
        diagnostic.help ≠ some "copy the data out before returning" := by
  refine ⟨fun finding hfinding => finding.compared hcheck hfinding, ?_⟩
  intro diagnostic hdiagnostic
  obtain ⟨finding, hfinding, rfl⟩ := List.mem_map.1 hdiagnostic
  refine Finding.help_ne_copy fun mode required actual hproblem => ?_
  obtain ⟨_, _, _, -, -, -, -, hbelow, -⟩ := Finding.exists_returned hcheck hfinding hproblem
  exact hbelow

/-- `{ let s = stackalloc[..]; return s; return ref h }` -/
def sliceBody : Body where
  name := "slice"
  nodes := #[⟨.alloc .stack none, .zero⟩, ⟨.slice ⟨0⟩ [], .zero⟩, ⟨.declare "s" ⟨1⟩, .zero⟩,
    ⟨.var "s", .zero⟩, ⟨.ret ⟨3⟩ .value, .zero⟩, ⟨.var "h", .zero⟩, ⟨.ret ⟨5⟩ .ref, .zero⟩,
    ⟨.block [⟨2⟩, ⟨4⟩, ⟨6⟩], .zero⟩]
  root := ⟨7⟩

/-- A parameter by value, of heap data. -/
def sliceContext : Context where
  bindings := .ofList [("h", ⟨.heap, false, none⟩)]
  shapes := .ofList []
  config := {}

theorem compared_levels_named_at_parameter :
    ∃ report, sliceBody.check sliceContext = .ok report ∧
      report.findings = [⟨.notReturnable .value .valueScoped .stackOnly, ⟨4⟩, ⟨[1]⟩, .zero⟩,
        ⟨.notReturnable .ref .refScoped .stackOnly, ⟨6⟩, ⟨[2]⟩, .zero⟩] ∧
      (∀ finding ∈ report.findings, finding.Compared sliceContext sliceBody report) ∧
      report.level? ⟨5⟩ = some .heap := by
  have hvalid : sliceBody.validate sliceContext.config.maxDepth = .ok () := by cbv
  obtain ⟨report, _, _, hcheck, -⟩ := sliceContext.exists_check (Body.isTree_of_validate hvalid)
  have hlevel : report.level? ⟨5⟩ = some .heap :=
    Report.eq_of_map_check (f := (·.level? ⟨5⟩)) hcheck (by cbv)
  refine ⟨report, hcheck, ?_, (compared_levels_named hcheck).1, hlevel⟩
  exact Report.eq_of_map_check hcheck (by cbv)

end FrameEscape
