import FrameEscape.Proofs.Check.Levels

/-!
# What trust in promises changes

A member may promise that its result does not depend on its receiver, and a run of the checker
believes such promises or does not. Belief replaces the level of the receiver by value-scoped. This
is not monotone in levels: the result of a heap receiver is value-scoped if the promise is believed,
and on the heap otherwise. But no check tells these two apart, so what matters is the coarser order
`Level.NoSafer`, and in that order disbelief only lowers levels.

* **`distrust_only_adds`**: what is found with trust is found without it.
* **`Context.resolve_distrusting`**: without trust a promise of independence is worth what a plain
  reference is, at every node.
* **`trust_surface`**: so trust matters only for the members that `Shapes.trustedMembers` lists.
-/

namespace FrameEscape

/-! ## Believing promises or not -/

/-- The configuration, with the given answer to whether promises are believed. -/
def Config.trusting (config : Config) (trust : Bool) : Config :=
  { config with trustIndependentRefs := trust }

/-- The context, with the given answer to whether promises are believed. -/
def Context.trusting (ctx : Context) (trust : Bool) : Context :=
  { ctx with config := ctx.config.trusting trust }

/-! ## The order of levels that checks can see -/

namespace Level

/-- The first level passes no check that the second fails. -/
def NoSafer (a b : Level) : Prop := a ≤ b ∨ valueScoped ≤ b

variable {a b : Level}

/-- No check demands more than value-scoped. -/
theorem noSafer_iff : NoSafer a b ↔ ∀ required ≤ valueScoped, required ≤ a → required ≤ b := by
  constructor
  · rintro (hab | hb) required hrequired ha
    · exact le_trans ha hab
    · exact le_trans hrequired hb
  · intro h
    rcases le_total a valueScoped with ha | ha
    · exact .inl (h a ha (le_refl a))
    · exact .inr (h valueScoped (le_refl _) ha)

theorem compatible_noSafer : Compatible NoSafer := by
  refine ⟨fun a => .inl (le_refl a), ?_, ?_⟩
  · intro a a' b b' ha hb
    refine noSafer_iff.2 fun required hrequired hmeet => ?_
    obtain ⟨hle, hle'⟩ := le_meet_iff.1 hmeet
    exact le_meet_iff.2
      ⟨noSafer_iff.1 ha required hrequired hle, noSafer_iff.1 hb required hrequired hle'⟩
  · intro a a' required hrequired h hbelow
    rw [← not_le] at hbelow ⊢
    exact fun hle => hbelow (noSafer_iff.1 h required hrequired hle)

/-- A level can only be above one that it is no safer than as heap is above value-scoped. -/
theorem NoSafer.le_or (h : NoSafer a b) : a ≤ b ∨ a = heap ∧ b = valueScoped := by
  revert h
  unfold NoSafer
  cases a <;> cases b <;> decide

end Level

/-! ## Distrust lowers levels, as far as checks can see -/

section Distrust

variable {L : Level → Level → Prop}

/-- Trust is no part of what is bound and registered. -/
theorem Context.trusting_rel (hL : Level.Compatible L) (ctx : Context) (trust trust' : Bool) :
    (ctx.trusting trust).Rel L (ctx.trusting trust') := by
  constructor
  · intro name
    show Option.Rel (Binding.Rel L) (ctx.bindings.get? name) (ctx.bindings.get? name)
    cases ctx.bindings.get? name with
    | none => exact .none
    | some binding => exact .some ⟨hL.refl _, rfl, rfl⟩
  · intro name
    show Option.Rel (Shape.Rel L) (ctx.shapes.get? name) (ctx.shapes.get? name)
    cases ctx.shapes.get? name with
    | none => exact .none
    | some shape =>
      have hfields : List.Forall₂ (Field.Rel L) shape.fields shape.fields :=
        List.forall₂_same.2 fun field _ => ⟨rfl, hL.refl _, rfl⟩
      exact .some ⟨hfields, rfl, rfl⟩

/-- Whatever the level of a receiver, the result of a promise that is believed passes as many
checks. -/
theorem Config.distrusting_rel (config : Config) :
    (config.trusting false).Rel Level.NoSafer (config.trusting true) :=
  ⟨rfl, rfl, fun _ => .inr (Level.le_refl _)⟩

/-- An accepted body has a report with trust and one without, visit by visit. -/
theorem Context.exists_check_trusting (ctx : Context) {body : Body}
    (hvalid : body.validate ctx.config.maxDepth = .ok ()) :
    ∃ distrusted trusted, body.check (ctx.trusting false) = .ok distrusted ∧
      body.check (ctx.trusting true) = .ok trusted ∧
      List.Forall₂ (Visit.Rel (Verdict.Rel Level.NoSafer)) distrusted.visits trusted.visits := by
  have hL := Level.compatible_noSafer
  have hlockstep := (ctx.trusting_rel hL false true).lockstep hL ctx.config.distrusting_rel
  exact hlockstep.exists_check rfl hvalid

end Distrust

/-- `return ref p.view()` -/
def viewBody : Body where
  name := "view"
  nodes := #[⟨.var "p", .zero⟩, ⟨.call ⟨0⟩ "view" [], .zero⟩, ⟨.ret ⟨1⟩ .ref, .zero⟩]
  root := ⟨2⟩

/-- A local that is as safe as `level`, with a method that returns as `returns` says. -/
def viewContext (level : Level) (returns : ReturnKind) : Context where
  bindings := NameTable.empty.insert "p" ⟨level, false, some "S"⟩
  shapes := NameTable.empty.insert "S" ⟨[], [⟨"view", .ref, [], returns, none⟩], none⟩
  config := {}

theorem validate_view (level : Level) (returns : ReturnKind) :
    viewBody.validate (viewContext level returns).config.maxDepth = .ok () := by
  show viewBody.validate 512 = .ok ()
  cbv

/-- **Distrust only adds findings.** Whatever is found in an accepted body when promises are
believed is found there, with its kind, when they are not. Levels go down, but for one step up,
from value-scoped to heap. That step is taken: the result of a heap receiver is safer without the
promise that it is independent. -/
theorem distrust_only_adds :
    (∀ (ctx : Context) (body : Body), body.validate ctx.config.maxDepth = .ok () →
      ∃ trusted distrusted, body.check (ctx.trusting true) = .ok trusted ∧
        body.check (ctx.trusting false) = .ok distrusted ∧
        (∀ finding ∈ trusted.findings, ∃ finding' ∈ distrusted.findings,
          finding'.node = finding.node ∧ finding'.problem.kind = finding.problem.kind) ∧
        ∀ id, Option.Rel
          (fun level level' => level ≤ level' ∨ level = .heap ∧ level' = .valueScoped)
          (distrusted.level? id) (trusted.level? id)) ∧
    ∃ trusted distrusted,
      viewBody.check ((viewContext .heap .refIndependent).trusting true) = .ok trusted ∧
      viewBody.check ((viewContext .heap .refIndependent).trusting false) = .ok distrusted ∧
      trusted.level? ⟨1⟩ = some .valueScoped ∧ distrusted.level? ⟨1⟩ = some .heap := by
  constructor
  · intro ctx body hvalid
    obtain ⟨distrusted, trusted, hcheck, hcheck', hvisits⟩ := ctx.exists_check_trusting hvalid
    refine ⟨trusted, distrusted, hcheck', hcheck, fun finding hfinding => ?_, fun id => ?_⟩
    · obtain ⟨finding', hfinding', hnode, -, -, hkind⟩ :=
        Report.exists_finding_of_rel hvisits (fun hV hproblem => hV.problem hproblem) hfinding
      exact ⟨finding', hfinding', hnode, hkind⟩
    · have hverdict := Report.rel_verdict? hvisits id
      exact rel_optionMap hverdict fun hV => (Level.compatible_noSafer.level hV.value).le_or
  · obtain ⟨distrusted, trusted, hcheck, hcheck', -⟩ :=
      Context.exists_check_trusting _ (validate_view .heap .refIndependent)
    have hlevel : (viewBody.check ((viewContext .heap .refIndependent).trusting true)).map
        (·.level? ⟨1⟩) = .ok (some .valueScoped) := by cbv
    have hlevel' : (viewBody.check ((viewContext .heap .refIndependent).trusting false)).map
        (·.level? ⟨1⟩) = .ok (some .heap) := by cbv
    exact ⟨trusted, distrusted, hcheck', hcheck, Report.eq_of_map_check hcheck' hlevel,
      Report.eq_of_map_check hcheck hlevel'⟩

/-- The method of a stack-only receiver: its promise keeps the return from being reported, so
without trust the return is reported. -/
theorem distrust_only_adds_at_view :
    ∃ trusted distrusted,
      viewBody.check ((viewContext .stackOnly .refIndependent).trusting true) = .ok trusted ∧
      viewBody.check ((viewContext .stackOnly .refIndependent).trusting false) = .ok distrusted ∧
      (∀ finding ∈ trusted.findings, ∃ finding' ∈ distrusted.findings,
        finding'.node = finding.node ∧ finding'.problem.kind = finding.problem.kind) ∧
      trusted.findings.map (·.node) = [] ∧ distrusted.findings.map (·.node) = [⟨2⟩] := by
  obtain ⟨trusted, distrusted, hcheck, hcheck', hadds, -⟩ :=
    distrust_only_adds.1 (viewContext .stackOnly .refIndependent) viewBody
      (validate_view .stackOnly .refIndependent)
  have hnone : (viewBody.check ((viewContext .stackOnly .refIndependent).trusting true)).map
      (·.findings.map (·.node)) = .ok [] := by cbv
  have hreturn : (viewBody.check ((viewContext .stackOnly .refIndependent).trusting false)).map
      (·.findings.map (·.node)) = .ok [⟨2⟩] := by cbv
  exact ⟨trusted, distrusted, hcheck, hcheck', hadds, Report.eq_of_map_check hcheck hnone,
    Report.eq_of_map_check hcheck' hreturn⟩

/-! ## A promise that is not believed -/

/-- The table with each entry replaced, under its name. -/
def NameTable.map {α β : Type} (table : NameTable α) (f : α → β) : NameTable β :=
  ⟨table.entries.map fun e => (e.1, f e.2), List.pairwise_map.2 table.sorted⟩

/-- A promise of independence, turned into a plain reference. -/
def ReturnKind.demoted : ReturnKind → ReturnKind
  | .refIndependent => .ref
  | returns => returns

/-- The shape with no promise of independence, neither of a method nor of the indexer. -/
def Shape.demoted (shape : Shape) : Shape where
  fields := shape.fields
  methods := shape.methods.map fun method => { method with returns := method.returns.demoted }
  indexer := shape.indexer.map fun indexer => { indexer with byRef := indexer.byRef.demoted }

/-- The context with no promise of independence in any shape. -/
def Context.demoted (ctx : Context) : Context :=
  { ctx with shapes := ctx.shapes.map Shape.demoted }

/-- Some member promises that its result is independent of its receiver. -/
def Shape.PromisesIndependence (shape : Shape) : Prop :=
  (∃ method ∈ shape.methods, method.returns = .refIndependent) ∨
    ∃ indexer, shape.indexer = some indexer ∧ indexer.byRef = .refIndependent

namespace NameTable

variable {α β : Type}

@[simp] theorem names_map (table : NameTable α) (f : α → β) :
    (table.map f).names = table.names := by
  simp [names, map]

@[simp] theorem get?_map (table : NameTable α) (f : α → β) (name : String) :
    (table.map f).get? name = (table.get? name).map f := by
  show (table.entries.map fun e => (e.1, f e.2)).lookup name = (table.entries.lookup name).map f
  induction table.entries with
  | nil => rfl
  | cons e rest ih =>
    rw [List.map_cons, lookup_cons_ite, lookup_cons_ite, ih]
    split <;> rfl

/-- A table whose entries are kept is kept. -/
theorem map_eq_self {table : NameTable α} {f : α → α}
    (h : ∀ name a, table.get? name = some a → f a = a) : table.map f = table := by
  obtain ⟨entries, sorted⟩ := table
  have hentries : (entries.map fun e => (e.1, f e.2)) = entries := by
    refine (List.map_congr_left fun e he => ?_).trans (List.map_id entries)
    rw [h e.1 e.2 (get?_eq_some_iff.2 he)]
    rfl
  simp only [map, hentries]

end NameTable

/-! ## Without trust, a promise is worth a plain reference -/

section Demoted

theorem Config.callResult_demoted (config : Config) (receiver : Value) (returns : ReturnKind)
    (shape : Option String) (member : String) :
    (config.trusting true).callResult receiver returns.demoted shape member =
      (config.trusting false).callResult receiver returns shape member := by
  cases returns <;> rfl

theorem Shape.memberNames_demoted (shape : Shape) :
    shape.demoted.memberNames = shape.memberNames := by
  simp [memberNames, demoted, Function.comp_def]

theorem Shape.method?_demoted (shape : Shape) (name : String) :
    shape.demoted.method? name =
      (shape.method? name).map fun method => { method with returns := method.returns.demoted } := by
  simp [method?, demoted, List.find?_map]

variable (ctx : Context)

theorem Context.shape_demoted (name : String) :
    ctx.demoted.shape name = (ctx.shape name).map Shape.demoted := by
  unfold Context.shape
  simp only [demoted, NameTable.get?_map, NameTable.names_map]
  cases ctx.shapes.get? name <;> rfl

/-- A member is found in the demoted shape if and only if it is found in the shape. -/
theorem Context.member_demoted {α : Type} (value : Value) (name : String)
    (find : Shape → Option α) (f : α → α)
    (hfind : ∀ shape : Shape, find shape.demoted = (find shape).map f) :
    ctx.demoted.member value name find = (ctx.member value name find).map f := by
  unfold Context.member
  cases value.shape with
  | none => rfl
  | some shapeName =>
    simp only [ctx.shape_demoted]
    cases ctx.shape shapeName with
    | error problem => rfl
    | ok shape =>
      simp only [Except.map, hfind, shape.memberNames_demoted]
      cases find shape <;> rfl

theorem Context.resolveField_demoted (base : Value) (name : String) :
    ctx.demoted.resolveField base name = ctx.resolveField base name := by
  have hfield : ctx.demoted.member base name (·.field? name) =
      (ctx.member base name (·.field? name)).map id :=
    ctx.member_demoted base name _ id fun shape => Option.map_id.symm ▸ rfl
  unfold Context.resolveField
  rw [hfield]
  cases ctx.member base name (·.field? name) <;> rfl

theorem Context.resolveCall_distrusting (receiver : Value) (name : String) (args : List Resolved) :
    (ctx.demoted.trusting true).resolveCall receiver name args =
      (ctx.trusting false).resolveCall receiver name args := by
  have hmethod : (ctx.demoted.trusting true).member receiver name (·.method? name) =
      ((ctx.trusting false).member receiver name (·.method? name)).map fun method =>
        { method with returns := method.returns.demoted } :=
    ctx.member_demoted receiver name _ _ fun shape => shape.method?_demoted name
  unfold Context.resolveCall
  rw [hmethod]
  cases (ctx.trusting false).member receiver name (·.method? name) with
  | error problem => rfl
  | ok method =>
    have hresult := ctx.config.callResult_demoted receiver method.returns method.result name
    exact congrArg (fun value => Verdict.mk (.known value) _) hresult

theorem Context.resolveIndex_distrusting (base : Value) (position : Resolved) (access : Access) :
    (ctx.demoted.trusting true).resolveIndex base position access =
      (ctx.trusting false).resolveIndex base position access := by
  have hindexer : (ctx.demoted.trusting true).member base "[]" (·.indexer) =
      ((ctx.trusting false).member base "[]" (·.indexer)).map fun indexer =>
        { indexer with byRef := indexer.byRef.demoted } :=
    ctx.member_demoted base "[]" _ _ fun shape => rfl
  unfold Context.resolveIndex
  rw [hindexer]
  cases (ctx.trusting false).member base "[]" (·.indexer) with
  | error problem => rfl
  | ok indexer =>
    cases access with
    | value => rfl
    | ref =>
      have hresult := ctx.config.callResult_demoted base indexer.byRef indexer.element "[]"
      exact congrArg (fun element : Value => Verdict.mk
        (.known { element with origin := base.origin.ofElement element.origin }) _) hresult

theorem Context.resolveConstruct_demoted (name : String) (args : List Resolved) :
    ctx.demoted.resolveConstruct name args = ctx.resolveConstruct name args := by
  unfold Context.resolveConstruct
  rw [ctx.shape_demoted]
  cases ctx.shape name <;> rfl

/-- Every kind of node has the same verdict when promises are not believed as when they are not
made. -/
theorem Context.resolve_distrusting (scope : Scope) (inputs : Expr Resolved) :
    (ctx.demoted.trusting true).resolve scope inputs =
      (ctx.trusting false).resolve scope inputs := by
  cases inputs with
  | literal | var | slice | assign | declare | block | ret => rfl
  | alloc region shape =>
    cases shape with
    | none => rfl
    | some name =>
      show Verdict.ofExcept ((ctx.demoted.shape name).map _) =
        .ofExcept ((ctx.shape name).map _)
      rw [ctx.shape_demoted]
      cases ctx.shape name <;> rfl
  | field base name =>
    cases base with
    | poisoned => rfl
    | known base => exact ctx.resolveField_demoted base name
  | call receiver name args =>
    cases receiver with
    | poisoned => rfl
    | known receiver => exact ctx.resolveCall_distrusting receiver name args
  | index base position access =>
    cases base with
    | poisoned => rfl
    | known base => exact ctx.resolveIndex_distrusting base position access
  | construct name args => exact ctx.resolveConstruct_demoted name args

end Demoted

/-! ## Contexts with the same rule -/

section Congr

variable {ctx ctx' : Context}

/-- Evaluation knows of a context only how it resolves one node. -/
theorem Context.evaluate_congr
    (h : ∀ scope inputs, ctx.resolve scope inputs = ctx'.resolve scope inputs) (body : Body)
    (depth : Nat) (path : Path) (id : NodeId) :
    ctx.evaluate body depth path id = ctx'.evaluate body depth path id := by
  induction depth generalizing path id with
  | zero => rfl
  | succ depth ih => simp only [evaluate, ih, h]

theorem Body.check_congr (body : Body) (hlimit : ctx.config.maxDepth = ctx'.config.maxDepth)
    (h : ∀ scope inputs, ctx.resolve scope inputs = ctx'.resolve scope inputs) :
    body.check ctx = body.check ctx' := by
  simp only [check, hlimit, Context.evaluate_congr h]

end Congr

/-! ## The members that are trusted -/

theorem Shape.trustedMembers_eq_nil_iff (name : String) (shape : Shape) :
    shape.trustedMembers name = [] ↔ ¬ shape.PromisesIndependence := by
  unfold trustedMembers PromisesIndependence
  rw [List.append_eq_nil_iff, List.map_eq_nil_iff, List.filter_eq_nil_iff, not_or]
  refine and_congr (by simp) ?_
  cases shape.indexer with
  | none => simp
  | some indexer => simp

theorem Names.sort_eq_nil_iff (names : List String) : Names.sort names = [] ↔ names = [] := by
  have hperm := Names.sort_perm names
  constructor
  · intro h
    exact List.perm_nil.1 (h ▸ hperm.symm)
  · rintro rfl
    exact List.perm_nil.1 hperm

/-- Nothing is listed if and only if nothing is promised. -/
theorem Shapes.trustedMembers_eq_nil_iff (shapes : Shapes) :
    shapes.trustedMembers = [] ↔
      ∀ name shape, shapes.get? name = some shape → ¬ shape.PromisesIndependence := by
  unfold trustedMembers
  rw [Names.sort_eq_nil_iff, List.flatMap_eq_nil_iff]
  simp only [Shape.trustedMembers_eq_nil_iff, NameTable.get?_eq_some_iff, Prod.forall]

theorem ReturnKind.demoted_eq_self {returns : ReturnKind} (h : returns ≠ .refIndependent) :
    returns.demoted = returns := by
  cases returns with
  | refIndependent => exact absurd rfl h
  | unit | value | ref | refToSelfField => rfl

/-- A shape that promises nothing has nothing to demote. -/
theorem Shape.demoted_eq_self {shape : Shape} (h : ¬ shape.PromisesIndependence) :
    shape.demoted = shape := by
  obtain ⟨hmethods, hindexer⟩ := not_or.1 h
  obtain ⟨fields, methods, indexer⟩ := shape
  simp only [demoted, mk.injEq, true_and]
  constructor
  · refine (List.map_congr_left fun method hmethod => ?_).trans (List.map_id methods)
    rw [ReturnKind.demoted_eq_self fun heq => hmethods ⟨method, hmethod, heq⟩]
    rfl
  · cases indexer with
    | none => rfl
    | some indexer =>
      rw [Option.map_some, ReturnKind.demoted_eq_self fun heq => hindexer ⟨indexer, rfl, heq⟩]

/-! ## The headline -/

/-- **What trust can change is listed.** To disbelieve promises is to check against shapes in which
every promise of independence, of a method or of an indexer, is a plain reference instead: a body is
rejected for the same reason, or gets the same report. The list of trusted members is empty if and
only if no shape makes such a promise, and then trust changes the report of no body. -/
theorem trust_surface (ctx : Context) :
    (∀ body : Body, body.check (ctx.trusting false) = body.check (ctx.demoted.trusting true)) ∧
      (ctx.shapes.trustedMembers = [] ↔
        ∀ name shape, ctx.shapes.get? name = some shape → ¬ shape.PromisesIndependence) ∧
      (ctx.shapes.trustedMembers = [] →
        ∀ body : Body, body.check (ctx.trusting true) = body.check (ctx.trusting false)) := by
  have hdemoted : ∀ body : Body,
      body.check (ctx.trusting false) = body.check (ctx.demoted.trusting true) := fun body =>
    body.check_congr rfl fun scope inputs => (ctx.resolve_distrusting scope inputs).symm
  refine ⟨hdemoted, ctx.shapes.trustedMembers_eq_nil_iff, fun hnone body => ?_⟩
  have hkept : ctx.demoted = ctx := by
    have hshapes : ctx.shapes.map Shape.demoted = ctx.shapes :=
      NameTable.map_eq_self fun name shape hshape =>
        Shape.demoted_eq_self (ctx.shapes.trustedMembers_eq_nil_iff.1 hnone name shape hshape)
    rw [Context.demoted, hshapes]
  rw [hdemoted body, hkept]

/-- A method that returns a plain reference is not listed, and trust changes nothing. -/
theorem trust_surface_at_view :
    (viewContext .stackOnly .ref).shapes.trustedMembers = [] ∧
      viewBody.check ((viewContext .stackOnly .ref).trusting true) =
        viewBody.check ((viewContext .stackOnly .ref).trusting false) := by
  have hnone : (viewContext .stackOnly .ref).shapes.trustedMembers = [] := by cbv
  exact ⟨hnone, (trust_surface _).2.2 hnone viewBody⟩

end FrameEscape
