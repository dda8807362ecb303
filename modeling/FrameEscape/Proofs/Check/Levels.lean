import FrameEscape.Proofs.Check.Lockstep
import FrameEscape.Proofs.Check.Mixing

/-!
# Levels decide problems in one direction

Two contexts that agree on everything but levels (`Context.Rel`) go through a body in lockstep.
Shapes, origins and poison do not depend on levels, and levels are only combined by `meet` and
compared with a threshold, at most value-scoped. So any relation of levels that respects this
(`Level.Compatible`) is kept by every rule (`Context.Rel.lockstep`). For the order of levels
the reports compare: lower levels everywhere, and no problem less (`check_monotone`).
-/

namespace FrameEscape

/-! ## Inputs and values that differ in levels only -/

/-- What the checker does with levels keeps the relation, and a level on the left lies below
whatever threshold its partner lies below. -/
structure Level.Compatible (L : Level → Level → Prop) : Prop where
  refl : ∀ a, L a a
  meet : ∀ {a a' b b'}, L a a' → L b b' → L (a.meet b) (a'.meet b')
  below : ∀ {a a' required}, required ≤ .valueScoped → L a a' → a' < required → a < required

section Relations

variable (L : Level → Level → Prop)

/-- The values are the same but for their levels. -/
structure Value.Rel (value value' : Value) : Prop where
  level : L value.level value'.level
  shape_eq : value.shape = value'.shape
  origin_eq : value.origin = value'.origin

/-- The nodes are both poisoned, or have values that are the same but for their levels. -/
inductive Resolved.Rel : Resolved → Resolved → Prop where
  | poisoned : Rel .poisoned .poisoned
  | known {value value'} (h : value.Rel L value') : Rel (.known value) (.known value')

/-- Each problem on the right has one of its kind on the left. -/
structure Verdict.Rel (verdict verdict' : Verdict) : Prop where
  value : verdict.value.Rel L verdict'.value
  problem : ∀ {problem'}, verdict'.problem? = some problem' →
    ∃ problem, verdict.problem? = some problem ∧ problem.kind = problem'.kind

/-- The bindings are the same but for their levels. -/
structure Binding.Rel (binding binding' : Binding) : Prop where
  level : L binding.level binding'.level
  isRefParam_eq : binding.isRefParam = binding'.isRefParam
  shape_eq : binding.shape = binding'.shape

/-- The fields are the same but for their levels. -/
structure Field.Rel (field field' : Field) : Prop where
  name_eq : field.name = field'.name
  level : L field.level field'.level
  shape_eq : field.shape = field'.shape

/-- The shapes are the same but for the levels of their fields. -/
structure Shape.Rel (shape shape' : Shape) : Prop where
  fields : List.Forall₂ (Field.Rel L) shape.fields shape'.fields
  methods_eq : shape.methods = shape'.methods
  indexer_eq : shape.indexer = shape'.indexer

/-- The same names are bound and the same shapes registered, and they are the same but for the
levels of bindings and fields. -/
structure Context.Rel (ctx ctx' : Context) : Prop where
  bindings : ∀ name, Option.Rel (Binding.Rel L) (ctx.bindings.get? name) (ctx'.bindings.get? name)
  shapes : ∀ name, Option.Rel (Shape.Rel L) (ctx.shapes.get? name) (ctx'.shapes.get? name)

/-- The configurations have the same limit and look for the same problems, and what they make
of a promise of independence keeps the relation. -/
structure Config.Rel (config config' : Config) : Prop where
  mixing_eq : config.checkArgumentMixing = config'.checkArgumentMixing
  maxDepth_eq : config.maxDepth = config'.maxDepth
  trusted : ∀ {a a'}, L a a' → L (if config.trustIndependentRefs then .valueScoped else a)
    (if config'.trustIndependentRefs then .valueScoped else a')

end Relations

/-- Both look-ups fail with one problem, or both succeed with related results. -/
inductive LookupRel {α : Type} (P : α → α → Prop) (found found' : Except Problem α) : Prop where
  | error {problem} (h : found = .error problem) (h' : found' = .error problem)
  | ok {a a'} (h : found = .ok a) (h' : found' = .ok a') (hrel : P a a')

variable {L : Level → Level → Prop} {ctx ctx' : Context}

/-! ## Thresholds -/

theorem Level.requiredForReturn_le (mode : Access) : requiredForReturn mode ≤ valueScoped := by
  cases mode <;> decide

theorem Level.requiredForStore_le (callerOwned : Bool) (mode : Access) :
    requiredForStore callerOwned mode ≤ valueScoped := by
  cases callerOwned <;> cases mode <;> decide

theorem Level.lt_refScoped_iff (a : Level) : a < refScoped ↔ a = stackOnly := by
  cases a <;> decide

/-! ## Levels of values and shapes -/

theorem Level.Compatible.level (hL : Level.Compatible L) {value value' : Resolved}
    (h : value.Rel L value') : L value.level value'.level := by
  cases h with
  | poisoned => exact hL.refl _
  | known h => exact h.level

theorem Level.Compatible.meetAll (hL : Level.Compatible L) {levels levels' : List Level}
    (h : List.Forall₂ L levels levels') : L (Level.meetAll levels) (Level.meetAll levels') := by
  induction h with
  | nil => exact hL.refl _
  | cons hhead _ ih => exact hL.meet hhead ih

theorem Level.Compatible.shape (hL : Level.Compatible L) {shape shape' : Shape}
    (h : shape.Rel L shape') : L shape.level shape'.level := by
  refine hL.meetAll (List.forall₂_map_left_iff.2 (List.forall₂_map_right_iff.2 ?_))
  exact h.fields.imp fun _ _ hfield => hfield.level

theorem Resolved.Rel.isPoisoned_eq {value value' : Resolved} (h : value.Rel L value') :
    value.isPoisoned = value'.isPoisoned := by
  cases h <;> rfl

theorem Resolved.Rel.isCallerPlace_eq {value value' : Resolved} (h : value.Rel L value') :
    value.isCallerPlace = value'.isCallerPlace := by
  cases h with
  | poisoned => rfl
  | known h => rw [isCallerPlace_known, isCallerPlace_known, h.origin_eq]

theorem Resolved.Rel.isStackOnly (hL : Level.Compatible L) {value value' : Resolved}
    (h : value.Rel L value') (hstack : value'.isStackOnly = true) : value.isStackOnly = true := by
  cases h with
  | poisoned => exact hstack
  | known h =>
    simp only [Resolved.isStackOnly, beq_iff_eq, ← Level.lt_refScoped_iff] at hstack ⊢
    exact hL.below (by decide) h.level hstack

theorem Resolved.Rel.asLocal {value value' : Resolved} (h : value.Rel L value') :
    value.asLocal.Rel L value'.asLocal := by
  cases h with
  | poisoned => exact .poisoned
  | known h => exact .known ⟨h.level, h.shape_eq, rfl⟩

/-! ## Look-ups -/

/-- Tables with related entries have entries for the same names, and list them in one order. -/
theorem NameTable.names_eq_of_rel {α : Type} {P : α → α → Prop} {table table' : NameTable α}
    (h : ∀ name, Option.Rel P (table.get? name) (table'.get? name)) :
    table.names = table'.names := by
  refine table.names_sorted.eq_of_mem_iff table'.names_sorted fun name => ?_
  rw [mem_names_iff, mem_names_iff]
  have hentry := h name
  revert hentry
  generalize table.get? name = entry?, table'.get? name = entry?'
  rintro (_ | _) <;> simp

theorem NameTable.rel_empty {α : Type} {P : α → α → Prop} (name : String) :
    Option.Rel P ((NameTable.empty : NameTable α).get? name) (NameTable.empty.get? name) :=
  .none

theorem NameTable.rel_insert {α : Type} {P : α → α → Prop} {table table' : NameTable α}
    (h : ∀ name, Option.Rel P (table.get? name) (table'.get? name)) {a a' : α} (ha : P a a')
    (key name : String) :
    Option.Rel P ((table.insert key a).get? name) ((table'.insert key a').get? name) := by
  rw [get?_insert, get?_insert]
  split
  · exact .some ha
  · exact h name

theorem Context.Rel.namesInScope_eq (h : ctx.Rel L ctx') {scope scope' : Scope}
    (hscope : scope.Rel (Resolved.Rel L) scope') :
    ctx.namesInScope scope = ctx'.namesInScope scope' := by
  rw [Context.namesInScope, Context.namesInScope, hscope.names_eq,
    NameTable.names_eq_of_rel h.bindings]

theorem Shape.Rel.memberNames_eq {shape shape' : Shape} (h : shape.Rel L shape') :
    shape.memberNames = shape'.memberNames := by
  rw [Shape.memberNames, Shape.memberNames, h.methods_eq,
    map_eq_of_rel h.fields fun hfield => hfield.name_eq]

theorem Context.Rel.shape (h : ctx.Rel L ctx') (name : String) :
    LookupRel (Shape.Rel L) (ctx.shape name) (ctx'.shape name) := by
  have hshape := h.shapes name
  unfold Context.shape
  rw [NameTable.names_eq_of_rel h.shapes]
  revert hshape
  generalize ctx.shapes.get? name = found, ctx'.shapes.get? name = found'
  rintro (hrel | _)
  · exact .ok rfl rfl hrel
  · exact .error rfl rfl

theorem Context.Rel.member (h : ctx.Rel L ctx') {α : Type} {P : α → α → Prop}
    {value value' : Value} (hvalue : value.Rel L value') (name : String)
    {find : Shape → Option α} (hfind : ∀ {shape shape'}, Shape.Rel L shape shape' →
      Option.Rel P (find shape) (find shape')) :
    LookupRel P (ctx.member value name find) (ctx'.member value' name find) := by
  unfold Context.member
  rw [← hvalue.shape_eq]
  cases value.shape with
  | none => exact .error rfl rfl
  | some shapeName =>
    simp only
    cases h.shape shapeName with
    | error hshape hshape' =>
      rw [hshape, hshape']
      exact .error rfl rfl
    | @ok shape shape' hshape hshape' hrel =>
      rw [hshape, hshape']
      simp only
      rw [hrel.memberNames_eq]
      have hfound := hfind hrel
      revert hfound
      generalize find shape = found, find shape' = found'
      rintro (hP | _)
      · exact .ok rfl rfl hP
      · exact .error rfl rfl

theorem Shape.Rel.field? {shape shape' : Shape} (h : shape.Rel L shape') (name : String) :
    Option.Rel (Field.Rel L) (shape.field? name) (shape'.field? name) :=
  rel_find? h.fields fun hfield => by rw [hfield.name_eq]

theorem Shape.Rel.method? {shape shape' : Shape} (h : shape.Rel L shape') (name : String) :
    Option.Rel Eq (shape.method? name) (shape'.method? name) := by
  rw [Shape.method?, Shape.method?, h.methods_eq]
  exact rel_option_rfl _

theorem Shape.Rel.indexer {shape shape' : Shape} (h : shape.Rel L shape') :
    Option.Rel Eq shape.indexer shape'.indexer := by
  rw [h.indexer_eq]
  exact rel_option_rfl _

/-! ## Verdicts -/

theorem Verdict.Rel.ok {value value' : Resolved} (h : value.Rel L value') :
    (Verdict.ok value).Rel L (.ok value') :=
  ⟨h, fun hproblem => absurd hproblem (by simp [Verdict.ok])⟩

theorem Verdict.Rel.poisoned {problem problem' : Problem} (h : problem.kind = problem'.kind) :
    Verdict.Rel L ⟨.poisoned, some problem⟩ ⟨.poisoned, some problem'⟩ := by
  refine ⟨.poisoned, fun hproblem => ⟨problem, rfl, ?_⟩⟩
  cases hproblem
  exact h

/-- A value made of what was looked up, or the problem with the look-up. -/
theorem LookupRel.ofExcept {α : Type} {P : α → α → Prop} {found found' : Except Problem α}
    (h : LookupRel P found found') {f f' : α → Value}
    (hf : ∀ {a a'}, P a a' → (f a).Rel L (f' a')) :
    (Verdict.ofExcept (found.map f)).Rel L (.ofExcept (found'.map f')) := by
  cases h with
  | error h h' =>
    rw [h, h']
    exact .poisoned rfl
  | ok h h' hrel =>
    rw [h, h']
    exact .ok (.known (hf hrel))

theorem Resolved.Rel.andThen {value value' : Resolved} (h : value.Rel L value')
    {next next' : Value → Verdict}
    (hnext : ∀ {value value'}, value.Rel L value' → (next value).Rel L (next' value')) :
    (value.andThen next).Rel L (value'.andThen next') := by
  cases h with
  | poisoned => exact .ok .poisoned
  | known h => exact hnext h

theorem Config.Rel.refl (hL : Level.Compatible L) {config : Config} : config.Rel L config := by
  refine ⟨rfl, rfl, fun h => ?_⟩
  split
  · exact hL.refl _
  · exact h

/-! ## The rules -/

/-- How positions and what is passed at them correspond. -/
abbrev PositionRel (L : Level → Level → Prop) (position position' : Access × Resolved) : Prop :=
  position.1 = position'.1 ∧ position.2.Rel L position'.2

section Mixing

variable {positions positions' : List (Access × Resolved)}

theorem refLive_iff_of_rel (h : List.Forall₂ (PositionRel L) positions positions') (i : Nat) :
    RefLive positions i ↔ RefLive positions' i := by
  have hget := rel_getElem? h i
  unfold RefLive
  revert hget
  generalize positions[i]? = e?, positions'[i]? = e?'
  rintro (@⟨⟨mode, value⟩, ⟨mode', value'⟩, hmode, hvalue⟩ | _)
  · cases hmode
    simp [Prod.ext_iff, hvalue.isCallerPlace_eq]
  · simp

theorem StackData.of_rel (hL : Level.Compatible L)
    (h : List.Forall₂ (PositionRel L) positions positions') {j : Nat}
    (hdata : StackData positions' j) : StackData positions j := by
  have hget := rel_getElem? h j
  obtain ⟨mode', value', he', hstack⟩ := hdata
  rw [he'] at hget
  generalize he : positions[j]? = e? at hget
  cases hget with
  | @some e _ hposition => exact ⟨e.1, e.2, he, hposition.2.isStackOnly hL hstack⟩

/-- The data found may be at another position: the reference beside it is the same. -/
theorem Config.Rel.mixedArguments? {config config' : Config} (hL : Level.Compatible L)
    (hconfig : config.Rel L config') (h : List.Forall₂ (PositionRel L) positions positions')
    {problem' : Problem} (hproblem : config'.mixedArguments? positions' = some problem') :
    ∃ problem, config.mixedArguments? positions = some problem ∧ problem.kind = problem'.kind := by
  cases hmixing' : config'.checkArgumentMixing with
  | false => simp [Config.mixedArguments?, hmixing'] at hproblem
  | true =>
    have hmixing : config.checkArgumentMixing = true := hconfig.mixing_eq.trans hmixing'
    obtain ⟨i', j', rfl, -⟩ := (Config.mixedArguments?_eq_some_iff hmixing').1 hproblem
    -- References are the same on both sides, and the data on the left is at least as much.
    obtain ⟨i, j, ⟨hlive, hfirst⟩, hne, hdata⟩ :=
      (Config.exists_mixedArguments?_iff hmixing').1 ⟨_, hproblem⟩
    obtain ⟨problem, hsome⟩ := (Config.exists_mixedArguments?_iff hmixing).2
      ⟨i, j, ⟨(refLive_iff_of_rel h i).2 hlive,
        fun k hk hlivek => hfirst k hk ((refLive_iff_of_rel h k).1 hlivek)⟩, hne, hdata.of_rel hL h⟩
    obtain ⟨_, _, rfl, -⟩ := (Config.mixedArguments?_eq_some_iff hmixing).1 hsome
    exact ⟨_, hsome, rfl⟩

end Mixing

section Rules

variable (hL : Level.Compatible L)
include hL

/-- A level that is compared with what is required of it. -/
theorem Level.Compatible.exists_problem {a a' required : Level}
    (hrequired : required ≤ .valueScoped) (h : L a a') (report : Level → Problem)
    {kind : Problem.Kind} (hkind : ∀ level, (report level).kind = kind) {problem' : Problem}
    (hproblem : (if a' < required then some (report a') else none) = some problem') :
    ∃ problem, (if a < required then some (report a) else none) = some problem ∧
      problem.kind = problem'.kind := by
  split at hproblem
  next hbelow =>
    rw [if_pos (hL.below hrequired h hbelow)]
    cases hproblem
    exact ⟨_, rfl, (hkind a).trans (hkind a').symm⟩
  · exact absurd hproblem (by simp)

theorem storeProblem?_rel {target target' value value' : Resolved} (htarget : target.Rel L target')
    (hvalue : value.Rel L value') {mode : Access} {problem' : Problem}
    (hproblem : storeProblem? target' value' mode = some problem') :
    ∃ problem, storeProblem? target value mode = some problem ∧ problem.kind = problem'.kind := by
  have hcaller := htarget.isCallerPlace_eq
  cases htarget with
  | poisoned => exact absurd hproblem (by simp [storeProblem?])
  | known _ =>
    cases hvalue with
    | poisoned => exact absurd hproblem (by simp [storeProblem?])
    | known hvalue =>
      simp only [storeProblem?, hcaller] at hproblem ⊢
      exact hL.exists_problem (Level.requiredForStore_le _ _) hvalue.level
        (.escapingAssignment mode _) (fun _ => rfl) hproblem

theorem returnedLevel_rel {value value' : Value} (h : value.Rel L value') (mode : Access) :
    L (value.returnedLevel mode) (value'.returnedLevel mode) := by
  unfold Value.returnedLevel
  rw [h.origin_eq]
  split
  · exact hL.refl _
  · exact h.level

theorem returnProblem?_rel {value value' : Resolved} (h : value.Rel L value') {mode : Access}
    {problem' : Problem} (hproblem : returnProblem? value' mode = some problem') :
    ∃ problem, returnProblem? value mode = some problem ∧ problem.kind = problem'.kind := by
  cases h with
  | poisoned => exact absurd hproblem (by simp [returnProblem?])
  | known h =>
    -- The origins agree, so both are references into a receiver or neither is.
    simp only [returnProblem?, h.origin_eq] at hproblem ⊢
    split at hproblem
    next member =>
      cases hproblem
      exact ⟨_, rfl, rfl⟩
    next =>
      exact hL.exists_problem (Level.requiredForReturn_le _) (returnedLevel_rel hL h _)
        (.notReturnable _ _) (fun _ => rfl) hproblem

omit hL in
theorem Context.Rel.resolveVar (h : ctx.Rel L ctx') {scope scope' : Scope}
    (hscope : scope.Rel (Resolved.Rel L) scope') (name : String) :
    (ctx.resolveVar scope name).Rel L (ctx'.resolveVar scope' name) := by
  have hlocal := hscope.get? name
  have hbinding := h.bindings name
  unfold Context.resolveVar
  revert hlocal
  generalize scope.get? name = local?, scope'.get? name = local?'
  rintro (hvalue | _)
  · exact .ok hvalue
  · revert hbinding
    generalize ctx.bindings.get? name = binding?, ctx'.bindings.get? name = binding?'
    rintro (hbinding | _)
    · refine .ok (.known ⟨hbinding.level, hbinding.shape_eq, ?_⟩)
      rw [hbinding.isRefParam_eq]
    · exact .poisoned rfl

theorem Context.Rel.resolveField (h : ctx.Rel L ctx') {base base' : Value}
    (hbase : base.Rel L base') (name : String) :
    (ctx.resolveField base name).Rel L (ctx'.resolveField base' name) :=
  (h.member hbase name fun hshape => hshape.field? name).ofExcept fun hfield =>
    ⟨hL.meet hbase.level hfield.level, hfield.shape_eq, congrArg Origin.ofField hbase.origin_eq⟩

theorem Config.Rel.callResult {config config' : Config} (h : config.Rel L config')
    {receiver receiver' : Value} (hreceiver : receiver.Rel L receiver') (returns : ReturnKind)
    (shape : Option String) (member : String) :
    (config.callResult receiver returns shape member).Rel L
      (config'.callResult receiver' returns shape member) := by
  cases returns with
  | unit | refToSelfField => exact ⟨hL.refl _, rfl, rfl⟩
  | value | ref => exact ⟨hreceiver.level, rfl, rfl⟩
  | refIndependent => exact ⟨h.trusted hreceiver.level, rfl, rfl⟩

theorem Context.Rel.resolveCall (h : ctx.Rel L ctx') (hconfig : ctx.config.Rel L ctx'.config)
    {receiver receiver' : Value} (hreceiver : receiver.Rel L receiver') (name : String)
    {args args' : List Resolved} (hargs : List.Forall₂ (Resolved.Rel L) args args') :
    (ctx.resolveCall receiver name args).Rel L (ctx'.resolveCall receiver' name args') := by
  unfold Context.resolveCall
  cases h.member hreceiver name fun hshape => hshape.method? name with
  | error hmember hmember' =>
    rw [hmember, hmember']
    exact .poisoned rfl
  | @ok method _ hmember hmember' hmethod =>
    cases hmethod
    rw [hmember, hmember']
    have hpositions : List.Forall₂ (PositionRel L)
        ((method.receiver, .known receiver) :: args.mapIdx fun i arg => (method.paramMode i, arg))
        ((method.receiver, .known receiver') ::
          args'.mapIdx fun i arg => (method.paramMode i, arg)) :=
      .cons ⟨rfl, .known hreceiver⟩ (rel_mapIdx hargs fun _ _ _ harg => ⟨rfl, harg⟩)
    exact ⟨.known (hconfig.callResult hL hreceiver _ _ _),
      fun hproblem => hconfig.mixedArguments? hL hpositions hproblem⟩

omit hL in
theorem Value.Rel.ofElement {base base' element element' : Value} (hbase : base.Rel L base')
    (helement : element.Rel L element') :
    Value.Rel L { element with origin := base.origin.ofElement element.origin }
      { element' with origin := base'.origin.ofElement element'.origin } :=
  ⟨helement.level, helement.shape_eq,
    congrArg₂ Origin.ofElement hbase.origin_eq helement.origin_eq⟩

theorem Context.Rel.resolveIndex (h : ctx.Rel L ctx') (hconfig : ctx.config.Rel L ctx'.config)
    {base base' : Value} (hbase : base.Rel L base') {position position' : Resolved}
    (hposition : position.Rel L position') (access : Access) :
    (ctx.resolveIndex base position access).Rel L (ctx'.resolveIndex base' position' access) := by
  unfold Context.resolveIndex
  cases h.member hbase "[]" fun hshape => hshape.indexer with
  | error hmember hmember' =>
    rw [hmember, hmember']
    exact .poisoned rfl
  | @ok indexer _ hmember hmember' hindexer =>
    cases hindexer
    rw [hmember, hmember']
    have hpositions : List.Forall₂ (PositionRel L) [(access, .known base), (.value, position)]
        [(access, .known base'), (.value, position')] :=
      .cons ⟨rfl, .known hbase⟩ (.cons ⟨rfl, hposition⟩ .nil)
    refine ⟨.known ?_, fun hproblem => hconfig.mixedArguments? hL hpositions hproblem⟩
    cases access with
    | value => exact .ofElement hbase ⟨hbase.level, rfl, rfl⟩
    | ref => exact .ofElement hbase (hconfig.callResult hL hbase _ _ _)

theorem Context.Rel.resolveConstruct (h : ctx.Rel L ctx') (name : String)
    {args args' : List Resolved} (hargs : List.Forall₂ (Resolved.Rel L) args args') :
    (ctx.resolveConstruct name args).Rel L (ctx'.resolveConstruct name args') := by
  unfold Context.resolveConstruct
  cases h.shape name with
  | error hshape hshape' =>
    rw [hshape, hshape']
    exact .poisoned rfl
  | ok hshape hshape' hrel =>
    rw [hshape, hshape']
    simp only
    have hpoisoned : args.any Resolved.isPoisoned = args'.any Resolved.isPoisoned := by
      induction hargs with
      | nil => rfl
      | cons harg _ ih => rw [List.any_cons, List.any_cons, harg.isPoisoned_eq, ih]
    rw [hpoisoned]
    split
    · exact .ok .poisoned
    · refine .ok (.known ⟨hL.meet (hL.meetAll ?_) (hL.shape hrel), rfl, rfl⟩)
      refine List.forall₂_map_left_iff.2 (List.forall₂_map_right_iff.2 ?_)
      exact hargs.imp fun _ _ harg => hL.level harg

/-- Every kind of node keeps the relation. -/
theorem Context.Rel.lockstep (h : ctx.Rel L ctx') (hconfig : ctx.config.Rel L ctx'.config) :
    Lockstep (Resolved.Rel L) (Verdict.Rel L) ctx ctx' := by
  refine ⟨Verdict.Rel.value, Resolved.Rel.asLocal, ?_⟩
  intro scope scope' inputs inputs' hscope hinputs
  cases hinputs with
  | literal => exact .ok (.known ⟨hL.refl _, rfl, rfl⟩)
  | alloc region shape =>
    cases shape with
    | none => exact .ok (.known ⟨hL.refl _, rfl, rfl⟩)
    | some name =>
      exact (h.shape name).ofExcept fun hshape => ⟨hL.meet (hL.refl _) (hL.shape hshape), rfl, rfl⟩
  | var name => exact h.resolveVar hscope name
  | field hbase name => exact hbase.andThen fun hbase => h.resolveField hL hbase name
  | call hreceiver name hargs =>
    exact hreceiver.andThen fun hreceiver => h.resolveCall hL hconfig hreceiver name hargs
  | index hbase hposition access =>
    exact hbase.andThen fun hbase => h.resolveIndex hL hconfig hbase hposition access
  | slice hbase _ =>
    exact hbase.andThen fun hbase => .ok (.known ⟨hbase.level, hbase.shape_eq, rfl⟩)
  | assign htarget hvalue mode =>
    exact ⟨.known ⟨hL.refl _, rfl, rfl⟩, fun hproblem =>
      storeProblem?_rel hL htarget hvalue hproblem⟩
  | construct name hargs => exact h.resolveConstruct hL name hargs
  | declare name _ => exact .ok (.known ⟨hL.refl _, rfl, rfl⟩)
  | block hstmts =>
    exact .ok (rel_getD (rel_getLast? hstmts) (.known ⟨hL.refl _, rfl, rfl⟩))
  | ret hvalue mode =>
    exact ⟨.known ⟨hL.refl _, rfl, rfl⟩, fun hproblem => returnProblem?_rel hL hvalue hproblem⟩

end Rules

/-! ## Lower levels, more problems -/

theorem Level.compatible_le : Level.Compatible (· ≤ ·) := by
  refine ⟨Level.le_refl, ?_, ?_⟩
  · intro a a' b b' ha hb
    exact Level.le_meet_iff.2 ⟨Level.le_trans (Level.meet_le_left a b) ha,
      Level.le_trans (Level.meet_le_right a b) hb⟩
  · intro a a' required _ ha hbelow
    exact Nat.lt_of_le_of_lt ha hbelow

/-- **Levels and problems are monotone.** When levels are raised and nothing else changes, no
node of an accepted body gets a lower level, and no node has a kind of problem that it did not
have. -/
theorem check_monotone {low high : Context} (hlevels : low.Rel (· ≤ ·) high)
    (hconfig : low.config = high.config) {body : Body}
    (hvalid : body.validate low.config.maxDepth = .ok ()) :
    ∃ report report', body.check low = .ok report ∧ body.check high = .ok report' ∧
      (∀ id, Option.Rel (· ≤ ·) (report.level? id) (report'.level? id)) ∧
      ∀ finding' ∈ report'.findings, ∃ finding ∈ report.findings,
        finding.node = finding'.node ∧ finding.problem.kind = finding'.problem.kind := by
  have hL := Level.compatible_le
  have hrel : low.config.Rel (· ≤ ·) high.config := hconfig ▸ .refl hL
  obtain ⟨report, report', hcheck, hcheck', hvisits⟩ :=
    (hlevels.lockstep hL hrel).exists_check hrel.maxDepth_eq hvalid
  refine ⟨report, report', hcheck, hcheck', fun id => ?_, fun finding' hfinding' => ?_⟩
  · have hverdict := Report.rel_verdict? hvisits id
    exact rel_optionMap hverdict fun hV => hL.level hV.value
  · obtain ⟨finding, hfinding, hnode, -, -, hkind⟩ :=
      Report.exists_finding_of_rel hvisits (fun hV hproblem => hV.problem hproblem) hfinding'
    exact ⟨finding, hfinding, hnode, hkind⟩

/-- `return p.data` -/
def fieldBody : Body where
  name := "field"
  nodes := #[⟨.var "p", .zero⟩, ⟨.field ⟨0⟩ "data", .zero⟩, ⟨.ret ⟨1⟩ .value, .zero⟩]
  root := ⟨2⟩

/-- A local whose field is as safe as `level`. -/
def fieldContext (level : Level) : Context where
  bindings := NameTable.empty.insert "p" ⟨.heap, false, some "S"⟩
  shapes := NameTable.empty.insert "S" ⟨[⟨"data", level, none⟩], [], none⟩
  config := {}

theorem fieldContext_rel {level level' : Level} (h : level ≤ level') :
    (fieldContext level).Rel (· ≤ ·) (fieldContext level') := by
  constructor
  · exact NameTable.rel_insert NameTable.rel_empty ⟨Level.le_refl _, rfl, rfl⟩ _
  · exact NameTable.rel_insert NameTable.rel_empty ⟨.cons ⟨rfl, h, rfl⟩ .nil, rfl, rfl⟩ _

theorem check_monotone_at_field :
    ∃ report report', fieldBody.check (fieldContext .stackOnly) = .ok report ∧
      fieldBody.check (fieldContext .heap) = .ok report' ∧
      (∀ id, Option.Rel (· ≤ ·) (report.level? id) (report'.level? id)) ∧
      ∀ finding' ∈ report'.findings, ∃ finding ∈ report.findings,
        finding.node = finding'.node ∧ finding.problem.kind = finding'.problem.kind := by
  have hlevels : (fieldContext .stackOnly).Rel (· ≤ ·) (fieldContext .heap) :=
    fieldContext_rel (by decide)
  have hvalid : fieldBody.validate (fieldContext .stackOnly).config.maxDepth = .ok () := by cbv
  exact check_monotone hlevels rfl hvalid

end FrameEscape
