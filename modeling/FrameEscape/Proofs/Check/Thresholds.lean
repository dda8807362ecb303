import FrameEscape.Proofs.Check.Levels

/-!
# No check tells the two upper levels apart

Nothing that the checker demands is above value-scoped. So value-scoped and heap data pass the
same checks, and a level that fails one is below both and is shown in the report. Two levels that
are equal or both pass everything are `Level.Indistinct`. The relation is compatible with what the
checker does with levels (`Level.compatible_indistinct`), so two contexts that differ in this way
go through a body in lockstep. Each node then has the same problem in both, with all that the
problem says (`Context.Rel.problem?_eq`), though its level may differ.
-/

namespace FrameEscape

/-- The levels are equal, or neither lies below any threshold. -/
def Level.Indistinct (a b : Level) : Prop := a = b ∨ valueScoped ≤ a ∧ valueScoped ≤ b

/-! ## Levels -/

namespace Level

variable {a b required : Level}

/-- The levels are indistinct if and only if no threshold tells them apart. -/
theorem indistinct_iff :
    Indistinct a b ↔ ∀ required ≤ valueScoped, (required ≤ a ↔ required ≤ b) := by
  constructor
  · rintro (rfl | ⟨ha, hb⟩) required hrequired
    · rfl
    · exact iff_of_true (le_trans hrequired ha) (le_trans hrequired hb)
  · intro h
    have htop : valueScoped ≤ a ↔ valueScoped ≤ b := h valueScoped (le_refl _)
    by_cases ha : valueScoped ≤ a
    · exact .inr ⟨ha, htop.1 ha⟩
    · -- Each level is then a threshold, and lies above the other.
      have hb : ¬ valueScoped ≤ b := fun hb => ha (htop.2 hb)
      have hab : a ≤ b := (h a ((le_total _ _).resolve_left ha)).1 (le_refl a)
      have hba : b ≤ a := (h b ((le_total _ _).resolve_left hb)).2 (le_refl b)
      exact .inl (le_antisymm hab hba)

theorem Indistinct.lt_iff (h : Indistinct a b) (hrequired : required ≤ valueScoped) :
    a < required ↔ b < required := by
  rw [← not_le, ← not_le, indistinct_iff.1 h required hrequired]

theorem compatible_indistinct : Compatible Indistinct := by
  refine ⟨fun a => .inl rfl, ?_, fun hrequired h => (h.lt_iff hrequired).2⟩
  intro a a' b b' ha hb
  refine indistinct_iff.2 fun required hrequired => ?_
  rw [le_meet_iff, le_meet_iff, indistinct_iff.1 ha required hrequired,
    indistinct_iff.1 hb required hrequired]

/-- What is reported of a level that lies below a threshold is the same of both. -/
theorem Indistinct.ite_lt_eq (h : Indistinct a b) (hrequired : required ≤ valueScoped)
    (report : Level → Problem) :
    (if a < required then some (report a) else none) =
      if b < required then some (report b) else none := by
  rcases h with rfl | ⟨ha, hb⟩
  · rfl
  · rw [ite_lt_eq_none_iff.2 (le_trans hrequired ha), ite_lt_eq_none_iff.2 (le_trans hrequired hb)]

end Level

/-! ## Problems of one node -/

section Rules

variable {ctx ctx' : Context}

theorem LookupRel.problem?_eq {α : Type} {P : α → α → Prop} {found found' : Except Problem α}
    (h : LookupRel P found found') (f f' : α → Value) :
    (Verdict.ofExcept (found.map f)).problem? = (Verdict.ofExcept (found'.map f')).problem? := by
  cases h with
  | error h h' => rw [h, h']; rfl
  | ok h h' => rw [h, h']; rfl

theorem Resolved.Rel.problem?_eq {L : Level → Level → Prop} {value value' : Resolved}
    (h : value.Rel L value') {next next' : Value → Verdict}
    (hnext : ∀ {value value'}, value.Rel L value' →
      (next value).problem? = (next' value').problem?) :
    (value.andThen next).problem? = (value'.andThen next').problem? := by
  cases h with
  | poisoned => rfl
  | known h => exact hnext h

theorem Resolved.Rel.isStackOnly_eq {value value' : Resolved}
    (h : value.Rel Level.Indistinct value') : value.isStackOnly = value'.isStackOnly := by
  cases h with
  | poisoned => rfl
  | known h =>
    rw [Bool.eq_iff_iff]
    simp only [Resolved.isStackOnly, beq_iff_eq, ← Level.lt_refScoped_iff]
    exact h.level.lt_iff (by decide)

/-- The search for mixed arguments asks of a level only whether it is the lowest. -/
theorem Config.mixedArguments?_eq (config : Config)
    {positions positions' : List (Access × Resolved)}
    (h : List.Forall₂ (PositionRel Level.Indistinct) positions positions') :
    config.mixedArguments? positions = config.mixedArguments? positions' := by
  have hreference : positions.findIdx? (fun e => e.1 == .ref && e.2.isCallerPlace) =
      positions'.findIdx? (fun e => e.1 == .ref && e.2.isCallerPlace) :=
    findIdx?_eq_of_rel h fun hposition => by rw [hposition.1, hposition.2.isCallerPlace_eq]
  have hdata : ∀ reference,
      positions.zipIdx.findIdx? (fun e => e.2 != reference && e.1.2.isStackOnly) =
        positions'.zipIdx.findIdx? (fun e => e.2 != reference && e.1.2.isStackOnly) :=
    fun reference => findIdx?_eq_of_rel (rel_zipIdx h 0) fun hposition => by
      rw [hposition.2, hposition.1.2.isStackOnly_eq]
  unfold mixedArguments?
  split
  · show (positions.findIdx? fun e => e.1 == .ref && e.2.isCallerPlace).bind _ = _
    rw [hreference]
    refine Option.bind_congr fun reference _ => ?_
    show (positions.zipIdx.findIdx? fun e => e.2 != reference && e.1.2.isStackOnly).bind _ = _
    rw [hdata]
    rfl
  · rfl

theorem storeProblem?_eq {target target' value value' : Resolved}
    (htarget : target.Rel Level.Indistinct target') (hvalue : value.Rel Level.Indistinct value')
    (mode : Access) : storeProblem? target value mode = storeProblem? target' value' mode := by
  have hcaller := htarget.isCallerPlace_eq
  cases htarget with
  | poisoned => rfl
  | known _ =>
    cases hvalue with
    | poisoned => rfl
    | known hvalue =>
      simp only [storeProblem?, hcaller]
      exact hvalue.level.ite_lt_eq (Level.requiredForStore_le _ _) _

theorem returnProblem?_eq {value value' : Resolved} (h : value.Rel Level.Indistinct value')
    (mode : Access) : returnProblem? value mode = returnProblem? value' mode := by
  cases h with
  | poisoned => rfl
  | known h =>
    simp only [returnProblem?, h.origin_eq]
    split
    · rfl
    · exact (returnedLevel_rel Level.compatible_indistinct h _).ite_lt_eq
        (Level.requiredForReturn_le _) _

variable (h : ctx.Rel Level.Indistinct ctx')
include h

theorem Context.Rel.problem?_resolveVar {scope scope' : Scope}
    (hscope : scope.Rel (Resolved.Rel Level.Indistinct) scope') (name : String) :
    (ctx.resolveVar scope name).problem? = (ctx'.resolveVar scope' name).problem? := by
  have hlocal := hscope.get? name
  have hbinding := h.bindings name
  unfold Context.resolveVar
  rw [h.namesInScope_eq hscope]
  revert hlocal hbinding
  generalize scope.get? name = local?, scope'.get? name = local?',
    ctx.bindings.get? name = binding?, ctx'.bindings.get? name = binding?'
  rintro (_ | _) (_ | _) <;> rfl

theorem Context.Rel.problem?_resolveCall (hconfig : ctx.config = ctx'.config)
    {receiver receiver' : Value} (hreceiver : receiver.Rel Level.Indistinct receiver')
    (name : String) {args args' : List Resolved}
    (hargs : List.Forall₂ (Resolved.Rel Level.Indistinct) args args') :
    (ctx.resolveCall receiver name args).problem? =
      (ctx'.resolveCall receiver' name args').problem? := by
  unfold Context.resolveCall
  cases h.member hreceiver name fun hshape => hshape.method? name with
  | error hmember hmember' => rw [hmember, hmember']
  | @ok method _ hmember hmember' hmethod =>
    cases hmethod
    rw [hmember, hmember', hconfig]
    refine ctx'.config.mixedArguments?_eq (.cons ⟨rfl, .known hreceiver⟩ ?_)
    exact rel_mapIdx hargs fun _ _ _ harg => ⟨rfl, harg⟩

theorem Context.Rel.problem?_resolveIndex (hconfig : ctx.config = ctx'.config)
    {base base' : Value} (hbase : base.Rel Level.Indistinct base') {position position' : Resolved}
    (hposition : position.Rel Level.Indistinct position') (access : Access) :
    (ctx.resolveIndex base position access).problem? =
      (ctx'.resolveIndex base' position' access).problem? := by
  unfold Context.resolveIndex
  cases h.member hbase "[]" fun hshape => hshape.indexer with
  | error hmember hmember' => rw [hmember, hmember']
  | @ok indexer _ hmember hmember' hindexer =>
    cases hindexer
    rw [hmember, hmember', hconfig]
    exact ctx'.config.mixedArguments?_eq (.cons ⟨rfl, .known hbase⟩ (.cons ⟨rfl, hposition⟩ .nil))

theorem Context.Rel.problem?_resolveConstruct (name : String) (args args' : List Resolved) :
    (ctx.resolveConstruct name args).problem? = (ctx'.resolveConstruct name args').problem? := by
  have hok : ∀ {shape : Shape} {args : List Resolved},
      (if args.any Resolved.isPoisoned then Verdict.ok .poisoned
        else .ok (.known (.temporary ((Level.meetAll (args.map Resolved.level)).meet shape.level)
          (some name)))).problem? = none := by
    intro shape args
    split <;> rfl
  unfold Context.resolveConstruct
  cases h.shape name with
  | error hshape hshape' => rw [hshape, hshape']
  | ok hshape hshape' =>
    rw [hshape, hshape']
    exact hok.trans hok.symm

/-- Every kind of node has the same problem in both contexts. -/
theorem Context.Rel.problem?_eq (hconfig : ctx.config = ctx'.config) {scope scope' : Scope}
    (hscope : scope.Rel (Resolved.Rel Level.Indistinct) scope') {inputs inputs' : Expr Resolved}
    (hinputs : inputs.Rel (Resolved.Rel Level.Indistinct) inputs') :
    (ctx.resolve scope inputs).problem? = (ctx'.resolve scope' inputs').problem? := by
  cases hinputs with
  | literal | declare | block => rfl
  | alloc region shape =>
    cases shape with
    | none => rfl
    | some name => exact (h.shape name).problem?_eq _ _
  | var name => exact h.problem?_resolveVar hscope name
  | field hbase name =>
    exact hbase.problem?_eq fun hbase =>
      (h.member hbase name fun hshape => hshape.field? name).problem?_eq _ _
  | call hreceiver name hargs =>
    exact hreceiver.problem?_eq fun hreceiver => h.problem?_resolveCall hconfig hreceiver name hargs
  | index hbase hposition access =>
    exact hbase.problem?_eq fun hbase => h.problem?_resolveIndex hconfig hbase hposition access
  | slice hbase _ => exact hbase.problem?_eq fun _ => rfl
  | assign htarget hvalue mode => exact storeProblem?_eq htarget hvalue mode
  | construct name _ => exact h.problem?_resolveConstruct name _ _
  | ret hvalue mode => exact returnProblem?_eq hvalue mode

/-- The values are related and the problem is the same. -/
theorem Context.Rel.lockstep_problem (hconfig : ctx.config = ctx'.config) :
    Lockstep (Resolved.Rel Level.Indistinct) (fun verdict verdict' =>
      verdict.value.Rel Level.Indistinct verdict'.value ∧ verdict.problem? = verdict'.problem?)
      ctx ctx' := by
  have hL := Level.compatible_indistinct
  have hvalues := h.lockstep hL (hconfig ▸ .refl hL)
  refine ⟨And.left, Resolved.Rel.asLocal, fun hscope hinputs => ⟨?_, ?_⟩⟩
  · exact (hvalues.resolve hscope hinputs).value
  · exact h.problem?_eq hconfig hscope hinputs

end Rules

/-! ## The headline -/

/-- **Value-scoped and heap are the same to every check.** When some levels of bindings and fields
are value-scoped on one side and heap on the other, and nothing else differs, an accepted body has
the same findings in the same order: the nodes, the paths, the spans and all that the problems
say. -/
theorem findings_eq_of_indistinct {ctx ctx' : Context} (hlevels : ctx.Rel Level.Indistinct ctx')
    (hconfig : ctx.config = ctx'.config) {body : Body}
    (hvalid : body.validate ctx.config.maxDepth = .ok ()) :
    ∃ report report', body.check ctx = .ok report ∧ body.check ctx' = .ok report' ∧
      report.findings = report'.findings := by
  obtain ⟨report, report', hcheck, hcheck', hvisits⟩ :=
    (hlevels.lockstep_problem hconfig).exists_check (congrArg Config.maxDepth hconfig) hvalid
  exact ⟨report, report', hcheck, hcheck', Report.findings_eq_of_rel hvisits And.right⟩

/-- `return ref p.data` -/
def partBody : Body where
  name := "part"
  nodes := #[⟨.var "p", .zero⟩, ⟨.field ⟨0⟩ "data", .zero⟩, ⟨.ret ⟨1⟩ .ref, .zero⟩]
  root := ⟨2⟩

/-- A local that is as safe as `level`, and so is its field. -/
def partContext (level : Level) : Context where
  bindings := NameTable.empty.insert "p" ⟨level, false, some "S"⟩
  shapes := NameTable.empty.insert "S" ⟨[⟨"data", level, none⟩], [], none⟩
  config := {}

/-- The field is value-scoped or on the heap. Either way a local's storage is returned. -/
theorem findings_eq_of_indistinct_at_part :
    ∃ report report', partBody.check (partContext .valueScoped) = .ok report ∧
      partBody.check (partContext .heap) = .ok report' ∧ report.findings = report'.findings ∧
      report.level? ⟨1⟩ = some .valueScoped ∧ report'.level? ⟨1⟩ = some .heap ∧
      ∃ finding ∈ report.findings, finding.problem = .notReturnable .ref .refScoped .stackOnly := by
  have htop : Level.Indistinct .valueScoped .heap := .inr ⟨by decide, by decide⟩
  have hlevels : (partContext .valueScoped).Rel Level.Indistinct (partContext .heap) := by
    constructor
    · exact NameTable.rel_insert NameTable.rel_empty ⟨htop, rfl, rfl⟩ _
    · exact NameTable.rel_insert NameTable.rel_empty ⟨.cons ⟨rfl, htop, rfl⟩ .nil, rfl, rfl⟩ _
  have hvalid : partBody.validate (partContext .valueScoped).config.maxDepth = .ok () := by cbv
  obtain ⟨report, report', hcheck, hcheck', hfindings⟩ :=
    findings_eq_of_indistinct hlevels rfl hvalid
  have hlevel : (partBody.check (partContext .valueScoped)).map (·.level? ⟨1⟩) =
      .ok (some .valueScoped) := by cbv
  have hlevel' : (partBody.check (partContext .heap)).map (·.level? ⟨1⟩) = .ok (some .heap) := by
    cbv
  have hproblems : (partBody.check (partContext .valueScoped)).map
      (·.findings.map (·.problem)) = .ok [.notReturnable .ref .refScoped .stackOnly] := by cbv
  have hmem : .notReturnable .ref .refScoped .stackOnly ∈ report.findings.map (·.problem) := by
    rw [Report.eq_of_map_check hcheck hproblems]
    exact List.mem_singleton_self _
  exact ⟨report, report', hcheck, hcheck', hfindings, Report.eq_of_map_check hcheck hlevel,
    Report.eq_of_map_check hcheck' hlevel', List.mem_map.1 hmem⟩

end FrameEscape
