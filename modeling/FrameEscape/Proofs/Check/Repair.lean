import FrameEscape.Proofs.Check.Lockstep
import FrameEscape.Proofs.Check.Mixing

/-!
# Repairing a failed look-up

A name that means nothing poisons the node that uses it, and what is made of that node. Giving
the name a meaning takes poison away and does nothing else: a value that was known stays what
it was (`Resolved.Repaired`). The runs before and after the repair go in lockstep
(`Context.Repaired.lockstep`), and a problem found before is found again unless it is the
failed look-up itself. So no problem is a by-product of such a failure
(`unknown_names_never_cascade`).

The one rule that looks at values which may be poisoned is the search for mixed arguments: a
repaired argument can become the first reference. The stack-only data found before was known,
so it is not at that position (`Config.mixedArguments?_repaired`).
-/

namespace FrameEscape

/-- The value after a repair, and before it. -/
inductive Resolved.Repaired : Resolved → Resolved → Prop where
  | same (value : Resolved) : Repaired value value
  | poisoned (value : Resolved) : Repaired value .poisoned

/-- The verdict after a repair of some problems, and before it. -/
structure Verdict.Repaired (repairs : Problem → Prop) (after before : Verdict) : Prop where
  value : after.value.Repaired before.value
  problem : ∀ {problem}, before.problem? = some problem → ¬ repairs problem →
    ∃ problem', after.problem? = some problem' ∧ problem'.kind = problem.kind

/-- The contexts agree, but for names without a meaning on the right whose problems are
repaired. -/
structure Context.Repaired (repairs : Problem → Prop) (after before : Context) : Prop where
  config_eq : after.config = before.config
  bindings : ∀ name, after.bindings.get? name = before.bindings.get? name ∨
    before.bindings.get? name = none ∧ ∀ inScope, repairs (.unknownBinding name inScope)
  shapes : ∀ name, after.shapes.get? name = before.shapes.get? name ∨
    before.shapes.get? name = none ∧ ∀ candidates, repairs (.unknownShape name candidates)

/-- What was found before is found again. A look-up that failed before fails in the same way,
or its problem is repaired. -/
inductive LookupRepaired {α : Type} (repairs : Problem → Prop) (after before : Except Problem α) :
    Prop where
  | ok {a} (hafter : after = .ok a) (hbefore : before = .ok a)
  | error {problem' problem} (hafter : after = .error problem') (hbefore : before = .error problem)
    (hkind : problem'.kind = problem.kind)
  | repaired {problem} (hbefore : before = .error problem) (hrepairs : repairs problem)

variable {repairs : Problem → Prop} {after before : Context}

/-! ## Values and verdicts -/

theorem Resolved.Repaired.eq_known {value' : Resolved} {value : Value}
    (h : value'.Repaired (.known value)) : value' = .known value := by
  cases h
  rfl

theorem Resolved.Repaired.asLocal {value' value : Resolved} (h : value'.Repaired value) :
    value'.asLocal.Repaired value.asLocal := by
  cases h with
  | same => exact .same _
  | poisoned => exact .poisoned _

theorem Verdict.Repaired.ok {value' value : Resolved} (h : value'.Repaired value) :
    (Verdict.ok value').Repaired repairs (.ok value) :=
  ⟨h, fun hproblem => absurd hproblem (by simp [Verdict.ok])⟩

theorem Verdict.Repaired.refl (verdict : Verdict) : verdict.Repaired repairs verdict :=
  ⟨.same _, fun hproblem _ => ⟨_, hproblem, rfl⟩⟩

theorem Verdict.Repaired.of_repairs {verdict : Verdict} {problem : Problem}
    (h : repairs problem) : verdict.Repaired repairs ⟨.poisoned, some problem⟩ := by
  refine ⟨.poisoned _, fun hproblem hnot => ?_⟩
  cases hproblem
  exact absurd h hnot

theorem Verdict.Repaired.poisoned {problem' problem : Problem}
    (h : problem'.kind = problem.kind) :
    Verdict.Repaired repairs ⟨.poisoned, some problem'⟩ ⟨.poisoned, some problem⟩ := by
  refine ⟨.poisoned _, fun hproblem _ => ⟨problem', rfl, ?_⟩⟩
  cases hproblem
  exact h

theorem LookupRepaired.ofExcept {α : Type} {found' found : Except Problem α}
    (h : LookupRepaired repairs found' found) (f : α → Value) :
    (Verdict.ofExcept (found'.map f)).Repaired repairs (.ofExcept (found.map f)) := by
  cases h with
  | ok hafter hbefore =>
    rw [hafter, hbefore]
    exact .refl _
  | error hafter hbefore hkind =>
    rw [hafter, hbefore]
    exact .poisoned hkind
  | repaired hbefore hrepairs =>
    rw [hbefore]
    exact .of_repairs hrepairs

/-- What is made of a value that was known is made of the same value again. -/
theorem Resolved.Repaired.andThen {value' value : Resolved} (h : value'.Repaired value)
    {next' next : Value → Verdict} (hnext : ∀ value, (next' value).Repaired repairs (next value)) :
    (value'.andThen next').Repaired repairs (value.andThen next) := by
  cases h with
  | poisoned =>
    exact ⟨.poisoned _, fun hproblem =>
      absurd hproblem (by simp [Resolved.andThen, Verdict.ok])⟩
  | same =>
    cases value' with
    | poisoned => exact .refl _
    | known value => exact hnext value

/-! ## Look-ups -/

theorem Context.Repaired.shape (h : after.Repaired repairs before) (name : String) :
    LookupRepaired repairs (after.shape name) (before.shape name) := by
  unfold Context.shape
  rcases h.shapes name with heq | ⟨hnone, hrepairs⟩
  · rw [heq]
    cases before.shapes.get? name with
    | none => exact .error rfl rfl rfl
    | some shape => exact .ok rfl rfl
  · rw [hnone]
    exact .repaired rfl (hrepairs _)

theorem Context.Repaired.member (h : after.Repaired repairs before) {α : Type} (value : Value)
    (name : String) (find : Shape → Option α) :
    LookupRepaired repairs (after.member value name find) (before.member value name find) := by
  unfold Context.member
  cases value.shape with
  | none => exact .error rfl rfl rfl
  | some shapeName =>
    simp only
    cases h.shape shapeName with
    | error hafter hbefore hkind =>
      rw [hafter, hbefore]
      exact .error rfl rfl hkind
    | repaired hbefore hrepairs =>
      rw [hbefore]
      exact .repaired rfl hrepairs
    | @ok shape hafter hbefore =>
      rw [hafter, hbefore]
      simp only
      cases find shape with
      | none => exact .error rfl rfl rfl
      | some found => exact .ok rfl rfl

/-! ## Mixed arguments -/

section Mixing

variable {positions' positions : List (Access × Resolved)}

/-- How positions and what is passed at them correspond. -/
abbrev RepairedPosition (position' position : Access × Resolved) : Prop :=
  position'.1 = position.1 ∧ position'.2.Repaired position.2

theorem getElem?_repaired (h : List.Forall₂ RepairedPosition positions' positions) {i : Nat}
    {mode : Access} {value : Value} (hget : positions[i]? = some (mode, .known value)) :
    positions'[i]? = some (mode, .known value) := by
  have hrel := rel_getElem? h i
  rw [hget] at hrel
  generalize positions'[i]? = position? at hrel
  cases hrel with
  | @some position _ hposition =>
    obtain ⟨hmode, hvalue⟩ := hposition
    exact congrArg some (Prod.ext hmode hvalue.eq_known)

theorem RefLive.repaired (h : List.Forall₂ RepairedPosition positions' positions) {i : Nat}
    (hlive : RefLive positions i) : RefLive positions' i := by
  obtain ⟨value, hget, hcaller⟩ := hlive
  cases value with
  | poisoned => exact absurd hcaller (by simp [Resolved.isCallerPlace])
  | known value => exact ⟨_, getElem?_repaired h hget, hcaller⟩

theorem StackData.exists_known {j : Nat} (hdata : StackData positions j) :
    ∃ mode value, positions[j]? = some (mode, .known value) ∧ value.level = .stackOnly := by
  obtain ⟨mode, value, hget, hstack⟩ := hdata
  cases value with
  | poisoned => exact absurd hstack (by simp [Resolved.isStackOnly])
  | known value => exact ⟨mode, value, hget, by simpa [Resolved.isStackOnly] using hstack⟩

/-- A call that mixed before mixes after the repair, perhaps with another reference. -/
theorem Config.mixedArguments?_repaired {config : Config}
    (h : List.Forall₂ RepairedPosition positions' positions) {problem : Problem}
    (hproblem : config.mixedArguments? positions = some problem) :
    ∃ problem', config.mixedArguments? positions' = some problem' ∧
      problem'.kind = problem.kind := by
  cases hmixing : config.checkArgumentMixing with
  | false => simp [Config.mixedArguments?, hmixing] at hproblem
  | true =>
    obtain ⟨i, j, rfl, ⟨hlive, hfirst⟩, ⟨hne, hdata⟩, -⟩ :=
      (Config.mixedArguments?_eq_some_iff hmixing).1 hproblem
    obtain ⟨mode, value, hget, hlevel⟩ := hdata.exists_known
    have hget' : positions'[j]? = some (mode, .known value) := getElem?_repaired h hget
    have hdata' : StackData positions' j :=
      ⟨mode, _, hget', by simp [Resolved.isStackOnly, hlevel]⟩
    have hlive' : RefLive positions' i := hlive.repaired h
    obtain ⟨first, hlive₁, hfirst₁⟩ := hlive'.exists_first
    have hle : first ≤ i := Nat.le_of_not_lt fun hlt => hfirst₁ i hlt hlive'
    -- The data was known, so if it is the first reference now it was a reference before.
    have hother : first ≠ j := by
      rintro rfl
      obtain ⟨value₁, hget₁, hcaller⟩ := hlive₁
      cases hget₁.symm.trans hget'
      have hlive₀ : RefLive positions first := ⟨_, hget, hcaller⟩
      have hge : i ≤ first := Nat.le_of_not_lt fun hlt => hfirst first hlt hlive₀
      exact hne (Nat.le_antisymm hge hle)
    obtain ⟨problem', hsome⟩ := (Config.exists_mixedArguments?_iff hmixing).2
      ⟨first, j, ⟨hlive₁, hfirst₁⟩, hother, hdata'⟩
    obtain ⟨_, _, rfl, -⟩ := (Config.mixedArguments?_eq_some_iff hmixing).1 hsome
    exact ⟨_, hsome, rfl⟩

end Mixing

/-! ## The rules -/

theorem Context.Repaired.resolveVar (h : after.Repaired repairs before) {scope' scope : Scope}
    (hscope : scope'.Rel Resolved.Repaired scope) (name : String) :
    (after.resolveVar scope' name).Repaired repairs (before.resolveVar scope name) := by
  have hlocal := hscope.get? name
  unfold Context.resolveVar
  revert hlocal
  generalize scope'.get? name = local?', scope.get? name = local?
  rintro (hvalue | _)
  · exact .ok hvalue
  · rcases h.bindings name with heq | ⟨hnone, hrepairs⟩
    · rw [heq]
      cases before.bindings.get? name with
      | none => exact .poisoned rfl
      | some binding => exact .refl _
    · rw [hnone]
      exact .of_repairs (hrepairs _)

theorem Context.Repaired.resolveCall (h : after.Repaired repairs before) (receiver : Value)
    (name : String) {args' args : List Resolved}
    (hargs : List.Forall₂ Resolved.Repaired args' args) :
    (after.resolveCall receiver name args').Repaired repairs
      (before.resolveCall receiver name args) := by
  unfold Context.resolveCall
  rw [h.config_eq]
  cases h.member receiver name (·.method? name) with
  | error hafter hbefore hkind =>
    rw [hafter, hbefore]
    exact .poisoned hkind
  | repaired hbefore hrepairs =>
    rw [hbefore]
    exact .of_repairs hrepairs
  | @ok method hafter hbefore =>
    rw [hafter, hbefore]
    have hpositions : List.Forall₂ RepairedPosition
        ((method.receiver, .known receiver) :: args'.mapIdx fun i arg => (method.paramMode i, arg))
        ((method.receiver, .known receiver) :: args.mapIdx fun i arg => (method.paramMode i, arg)) :=
      .cons ⟨rfl, .same _⟩ (rel_mapIdx hargs fun _ _ _ harg => ⟨rfl, harg⟩)
    exact ⟨.same _, fun hproblem _ => Config.mixedArguments?_repaired hpositions hproblem⟩

theorem Context.Repaired.resolveIndex (h : after.Repaired repairs before) (base : Value)
    {position' position : Resolved} (hposition : position'.Repaired position) (access : Access) :
    (after.resolveIndex base position' access).Repaired repairs
      (before.resolveIndex base position access) := by
  unfold Context.resolveIndex
  rw [h.config_eq]
  cases h.member base "[]" (·.indexer) with
  | error hafter hbefore hkind =>
    rw [hafter, hbefore]
    exact .poisoned hkind
  | repaired hbefore hrepairs =>
    rw [hbefore]
    exact .of_repairs hrepairs
  | ok hafter hbefore =>
    rw [hafter, hbefore]
    have hpositions : List.Forall₂ RepairedPosition [(access, .known base), (.value, position')]
        [(access, .known base), (.value, position)] :=
      .cons ⟨rfl, .same _⟩ (.cons ⟨rfl, hposition⟩ .nil)
    exact ⟨.same _, fun hproblem _ => Config.mixedArguments?_repaired hpositions hproblem⟩

theorem eq_of_repaired_of_not_any {values' values : List Resolved}
    (h : List.Forall₂ Resolved.Repaired values' values)
    (hknown : values.any Resolved.isPoisoned = false) : values' = values := by
  induction h with
  | nil => rfl
  | @cons value' value _ _ hvalue _ ih =>
    rw [List.any_cons, Bool.or_eq_false_iff] at hknown
    cases value with
    | poisoned => exact absurd hknown.1 (by simp [Resolved.isPoisoned])
    | known value => rw [hvalue.eq_known, ih hknown.2]

theorem Context.Repaired.resolveConstruct (h : after.Repaired repairs before) (name : String)
    {args' args : List Resolved} (hargs : List.Forall₂ Resolved.Repaired args' args) :
    (after.resolveConstruct name args').Repaired repairs (before.resolveConstruct name args) := by
  unfold Context.resolveConstruct
  cases h.shape name with
  | error hafter hbefore hkind =>
    rw [hafter, hbefore]
    exact .poisoned hkind
  | repaired hbefore hrepairs =>
    rw [hbefore]
    exact .of_repairs hrepairs
  | ok hafter hbefore =>
    rw [hafter, hbefore]
    simp only
    cases hany : args.any Resolved.isPoisoned with
    | true =>
      split
      · exact .refl _
      · exact .ok (.poisoned _)
    | false =>
      rw [eq_of_repaired_of_not_any hargs hany, hany]
      exact .refl _

theorem storeProblem?_repaired {target' target value' value : Resolved}
    (htarget : target'.Repaired target) (hvalue : value'.Repaired value) {mode : Access}
    {problem : Problem} (hproblem : storeProblem? target value mode = some problem) :
    storeProblem? target' value' mode = some problem := by
  cases target with
  | poisoned => exact absurd hproblem (by simp [storeProblem?])
  | known place =>
    cases value with
    | poisoned => exact absurd hproblem (by simp [storeProblem?])
    | known stored => rwa [htarget.eq_known, hvalue.eq_known]

theorem returnProblem?_repaired {value' value : Resolved} (hvalue : value'.Repaired value)
    {mode : Access} {problem : Problem} (hproblem : returnProblem? value mode = some problem) :
    returnProblem? value' mode = some problem := by
  cases value with
  | poisoned => exact absurd hproblem (by simp [returnProblem?])
  | known returned => rwa [hvalue.eq_known]

/-- Every kind of node keeps what was known, and its problems. -/
theorem Context.Repaired.lockstep (h : after.Repaired repairs before) :
    Lockstep Resolved.Repaired (Verdict.Repaired repairs) after before := by
  refine ⟨Verdict.Repaired.value, Resolved.Repaired.asLocal, ?_⟩
  intro scope' scope inputs' inputs hscope hinputs
  cases hinputs with
  | literal => exact .refl _
  | alloc region shape =>
    cases shape with
    | none => exact .refl _
    | some name => exact (h.shape name).ofExcept _
  | var name => exact h.resolveVar hscope name
  | field hbase name => exact hbase.andThen fun base => (h.member base name _).ofExcept _
  | call hreceiver name hargs =>
    exact hreceiver.andThen fun receiver => h.resolveCall receiver name hargs
  | index hbase hposition access =>
    exact hbase.andThen fun base => h.resolveIndex base hposition access
  | slice hbase _ => exact hbase.andThen fun base => .refl _
  | assign htarget hvalue mode =>
    exact ⟨.same _, fun hproblem _ =>
      ⟨_, storeProblem?_repaired htarget hvalue hproblem, rfl⟩⟩
  | construct name hargs => exact h.resolveConstruct name hargs
  | declare name _ => exact .refl _
  | block hstmts => exact .ok (rel_getD (rel_getLast? hstmts) (.same _))
  | ret hvalue mode =>
    exact ⟨.same _, fun hproblem _ => ⟨_, returnProblem?_repaired hvalue hproblem, rfl⟩⟩

/-! ## The headline -/

/-- The context with a meaning for a name. -/
def Context.bind (ctx : Context) (name : String) (binding : Binding) : Context :=
  { ctx with bindings := ctx.bindings.insert name binding }

/-- The context with a shape for a name. -/
def Context.register (ctx : Context) (name : String) (shape : Shape) : Context :=
  { ctx with shapes := ctx.shapes.insert name shape }

theorem Context.bind_repaired {ctx : Context} {name : String}
    (hname : ctx.bindings.get? name = none) (binding : Binding) :
    (ctx.bind name binding).Repaired
      (fun problem => ∃ inScope, problem = .unknownBinding name inScope) ctx := by
  refine ⟨rfl, fun other => ?_, fun _ => .inl rfl⟩
  show (ctx.bindings.insert name binding).get? other = _ ∨ _
  rw [NameTable.get?_insert]
  by_cases h : other = name
  · subst h
    exact .inr ⟨hname, fun inScope => ⟨inScope, rfl⟩⟩
  · exact .inl (if_neg h)

theorem Context.register_repaired {ctx : Context} {name : String}
    (hname : ctx.shapes.get? name = none) (shape : Shape) :
    (ctx.register name shape).Repaired
      (fun problem => ∃ candidates, problem = .unknownShape name candidates) ctx := by
  refine ⟨rfl, fun _ => .inl rfl, fun other => ?_⟩
  show (ctx.shapes.insert name shape).get? other = _ ∨ _
  rw [NameTable.get?_insert]
  by_cases h : other = name
  · subst h
    exact .inr ⟨hname, fun candidates => ⟨candidates, rfl⟩⟩
  · exact .inl (if_neg h)

/-- Whatever was found at a node, but for the problems repaired, is found there again. -/
def Report.Keeps (repairs : Problem → Prop) (report' report : Report) : Prop :=
  ∀ finding ∈ report.findings, ¬ repairs finding.problem →
    ∃ finding' ∈ report'.findings, finding'.node = finding.node ∧
      finding'.problem.kind = finding.problem.kind

theorem Context.Repaired.exists_check (h : after.Repaired repairs before) {body : Body}
    {report : Report} (hcheck : body.check before = .ok report) :
    ∃ report', body.check after = .ok report' ∧ report'.Keeps repairs report := by
  have hvalid : body.validate after.config.maxDepth = .ok () := by
    rw [h.config_eq]
    exact (Context.run_of_check hcheck).1.validate
  obtain ⟨report', _, hcheck', heq, hvisits⟩ :=
    h.lockstep.exists_check (congrArg Config.maxDepth h.config_eq) hvalid
  cases hcheck.symm.trans heq
  refine ⟨report', hcheck', fun finding hfinding hnot => ?_⟩
  obtain ⟨finding', hfinding', hnode, -, -, hkind⟩ := Report.exists_finding_of_rel hvisits
    (fun hverdict hproblem => hverdict.problem hproblem hnot) hfinding
  exact ⟨finding', hfinding', hnode, hkind⟩

/-- **Unknown names never cascade.** Every accepted body has a report, and whatever meaning is
given to a name that had none, be it that of a variable or of a shape, each problem in that
report is found again at its node, but for the failed look-ups of the name. -/
theorem unknown_names_never_cascade {ctx : Context} {body : Body}
    (hvalid : body.validate ctx.config.maxDepth = .ok ()) :
    ∃ report, body.check ctx = .ok report ∧
      (∀ name binding, ctx.bindings.get? name = none →
        ∃ report', body.check (ctx.bind name binding) = .ok report' ∧
          report'.Keeps (fun problem => ∃ inScope, problem = .unknownBinding name inScope)
            report) ∧
      ∀ name shape, ctx.shapes.get? name = none →
        ∃ report', body.check (ctx.register name shape) = .ok report' ∧
          report'.Keeps (fun problem => ∃ candidates, problem = .unknownShape name candidates)
            report := by
  obtain ⟨report, _, _, hcheck, -⟩ := Context.exists_check (Body.isTree_of_validate hvalid)
  refine ⟨report, hcheck, fun name binding hname => ?_, fun name shape hname => ?_⟩
  · exact (Context.bind_repaired hname binding).exists_check hcheck
  · exact (Context.register_repaired hname shape).exists_check hcheck

/-- `s.Mix(ref x, ref q, p)`, where `x` means nothing. -/
def mixBody : Body where
  name := "mix"
  nodes := #[⟨.var "s", .zero⟩, ⟨.var "x", .zero⟩, ⟨.var "q", .zero⟩, ⟨.var "p", .zero⟩,
    ⟨.call ⟨0⟩ "Mix" [⟨1⟩, ⟨2⟩, ⟨3⟩], .zero⟩]
  root := ⟨4⟩

/-- A method that takes two references, a parameter by reference and stack-only data. -/
def mixContext : Context where
  bindings := .ofList [("s", ⟨.heap, false, some "S"⟩), ("q", ⟨.heap, true, none⟩),
    ("p", ⟨.stackOnly, false, none⟩)]
  shapes := .ofList [("S", ⟨[], [⟨"Mix", .value, [.ref, .ref], .unit, none⟩], none⟩)]
  config := {}

/-- When `x` is bound to a parameter by reference, it is the first reference of the call. -/
theorem unknown_names_never_cascade_at_call :
    ∃ report', mixBody.check (mixContext.bind "x" ⟨.heap, true, none⟩) = .ok report' ∧
      ∃ finding' ∈ report'.findings, finding'.node = ⟨4⟩ ∧
        finding'.problem.kind = .mixedArguments := by
  have hvalid : mixBody.validate mixContext.config.maxDepth = .ok () := by cbv
  have hname : mixContext.bindings.get? "x" = none := by cbv
  obtain ⟨report, hcheck, hbind, -⟩ := unknown_names_never_cascade hvalid
  obtain ⟨report', hcheck', hkeeps⟩ := hbind "x" ⟨.heap, true, none⟩ hname
  have hfindings : (mixBody.check mixContext).map Report.findings = .ok
      [⟨.unknownBinding "x" ["p", "q", "s"], ⟨1⟩, ⟨[1]⟩, .zero⟩,
        ⟨.mixedArguments 2 3, ⟨4⟩, .root, .zero⟩] := by cbv
  rw [hcheck] at hfindings
  have hmem : ⟨.mixedArguments 2 3, ⟨4⟩, .root, .zero⟩ ∈ report.findings := by
    rw [Except.ok.inj hfindings]
    exact List.mem_cons_of_mem _ (List.mem_singleton_self _)
  refine ⟨report', hcheck', hkeeps _ hmem ?_⟩
  rintro ⟨inScope, hproblem⟩
  exact absurd hproblem (by simp)

end FrameEscape
