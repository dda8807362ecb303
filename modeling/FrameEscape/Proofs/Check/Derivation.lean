import FrameEscape.Proofs.Check.Lockstep
import FrameEscape.Proofs.Check.Resolution
import Mathlib.Logic.Relation

/-!
# Unsafe derivations are not laundered

A value is made from others: a field from its base, a call from its receiver, a variable from
the initialiser of its declaration. `Derives` lists these steps, one for each kind of node that
hands a value on. No step raises a level (`Derives.level_le`), so no chain of them does, however
long and through whatever names. A return that passes is a return of data that is safe all the
way back (`unsafe_never_laundered`).

Two steps are not in the list, as they make a new value: a call that returns nothing, and one
whose promise of independence is believed.
-/

namespace FrameEscape

/-- A member that returns this depends on its receiver. -/
def Config.Inherits (config : Config) (returns : ReturnKind) : Prop :=
  returns ≠ .unit ∧ (config.trustIndependentRefs = true → returns ≠ .refIndependent)

/-- The node takes its value from `source`. Where a member decides, it is the one that the value
of `source` has, if it has one. -/
inductive Derives (ctx : Context) (body : Body) (report : Report) (source : NodeId) :
    NodeId → Prop where
  | field {id node name} (hnode : body.node? id = some node)
      (hexpr : node.expr = .field source name) : Derives ctx body report source id
  | slice {id node args} (hnode : body.node? id = some node)
      (hexpr : node.expr = .slice source args) : Derives ctx body report source id
  | element {id node position} (hnode : body.node? id = some node)
      (hexpr : node.expr = .index source position .value) : Derives ctx body report source id
  | reference {id node position} (hnode : body.node? id = some node)
      (hexpr : node.expr = .index source position .ref)
      (hreturns : ∀ value indexer, report.value? source = some (.known value) →
        ctx.member value "[]" (·.indexer) = .ok indexer → ctx.config.Inherits indexer.byRef) :
      Derives ctx body report source id
  | call {id node name args} (hnode : body.node? id = some node)
      (hexpr : node.expr = .call source name args)
      (hreturns : ∀ value method, report.value? source = some (.known value) →
        ctx.member value name (·.method? name) = .ok method →
          ctx.config.Inherits method.returns) :
      Derives ctx body report source id
  | construct {id node name args} (hnode : body.node? id = some node)
      (hexpr : node.expr = .construct name args) (hmem : source ∈ args) :
      Derives ctx body report source id
  | block {id node stmts} (hnode : body.node? id = some node)
      (hexpr : node.expr = .block stmts) (hlast : stmts.getLast? = some source) :
      Derives ctx body report source id
  | var {id node name} (hnode : body.node? id = some node) (hexpr : node.expr = .var name)
      (hresolves : ResolvesTo body report name id source) : Derives ctx body report source id

/-! ## The rules do not raise levels -/

theorem Resolved.andThen_level_le {value : Resolved} {next : Value → Verdict}
    (hnext : ∀ known, value = .known known → (next known).value.level ≤ known.level) :
    (value.andThen next).value.level ≤ value.level := by
  cases value with
  | poisoned => exact Level.le_refl _
  | known known => exact hnext known rfl

theorem Config.callResult_level_le {config : Config} {returns : ReturnKind}
    (h : config.Inherits returns) (receiver : Value) (shape : Option String) (member : String) :
    (config.callResult receiver returns shape member).level ≤ receiver.level := by
  cases returns with
  | unit => exact absurd rfl h.1
  | value | ref => exact Level.le_refl _
  | refToSelfField => exact Level.stackOnly_le _
  | refIndependent =>
    have htrust : config.trustIndependentRefs = false :=
      Bool.eq_false_iff.2 fun htrue => h.2 htrue rfl
    show (if config.trustIndependentRefs = true then Level.valueScoped else receiver.level) ≤ _
    rw [htrust]
    exact Level.le_refl _

namespace Context

variable {ctx : Context}

theorem resolveField_level_le (base : Value) (name : String) :
    (ctx.resolveField base name).value.level ≤ base.level := by
  unfold resolveField
  cases ctx.member base name (·.field? name) with
  | error problem => exact Level.stackOnly_le _
  | ok field => exact Level.meet_le_left _ _

theorem resolveCall_level_le {receiver : Value} {name : String}
    (hreturns : ∀ method, ctx.member receiver name (·.method? name) = .ok method →
      ctx.config.Inherits method.returns) (args : List Resolved) :
    (ctx.resolveCall receiver name args).value.level ≤ receiver.level := by
  unfold resolveCall
  cases hmember : ctx.member receiver name (·.method? name) with
  | error problem => exact Level.stackOnly_le _
  | ok method => exact Config.callResult_level_le (hreturns method hmember) _ _ _

theorem resolveIndex_level_le {base : Value} {access : Access}
    (hreturns : access = .ref → ∀ indexer, ctx.member base "[]" (·.indexer) = .ok indexer →
      ctx.config.Inherits indexer.byRef) (position : Resolved) :
    (ctx.resolveIndex base position access).value.level ≤ base.level := by
  unfold resolveIndex
  cases hmember : ctx.member base "[]" (·.indexer) with
  | error problem => exact Level.stackOnly_le _
  | ok indexer =>
    cases access with
    | value => exact Level.le_refl _
    | ref => exact Config.callResult_level_le (hreturns rfl indexer hmember) _ _ _

theorem resolveConstruct_level_le {name : String} {args : List Resolved} {arg : Resolved}
    (harg : arg ∈ args) : (ctx.resolveConstruct name args).value.level ≤ arg.level := by
  unfold resolveConstruct
  cases ctx.shape name with
  | error problem => exact Level.stackOnly_le _
  | ok shape =>
    simp only
    split
    · exact Level.stackOnly_le _
    · have hall : ∀ level ∈ args.map Resolved.level,
          Level.meetAll (args.map Resolved.level) ≤ level :=
        Level.le_meetAll_iff.1 (Level.le_refl _)
      exact Level.le_trans (Level.meet_le_left _ _) (hall _ (List.mem_map_of_mem harg))

end Context

theorem Resolved.asLocal_level (value : Resolved) : value.asLocal.level = value.level := by
  cases value <;> rfl

/-! ## Steps and chains -/

variable {ctx : Context} {body : Body} {report : Report} {source id : NodeId}

theorem Report.level?_of_value? {value : Resolved} (h : report.value? id = some value) :
    report.level? id = some value.level := by
  obtain ⟨verdict, hverdict, rfl⟩ := Option.map_eq_some_iff.1 h
  rw [level?, hverdict]
  rfl

theorem Report.value?_of_getLast? {stmts : List NodeId} {values : List Resolved}
    (h : List.Forall₂ (fun child value => report.value? child = some value) stmts values)
    (hlast : stmts.getLast? = some source) :
    ∃ value, values.getLast? = some value ∧ report.value? source = some value := by
  have hrel := rel_getLast? h
  rw [hlast] at hrel
  generalize values.getLast? = value? at hrel
  cases hrel with
  | some hvalue => exact ⟨_, rfl, hvalue⟩

/-- One step does not raise the level. -/
theorem Derives.level_le (h : Derives ctx body report source id)
    (hcheck : body.check ctx = .ok report) (hid : body.Reaches id) :
    body.Reaches source ∧ ∃ value sourceValue, report.value? id = some value ∧
      report.value? source = some sourceValue ∧ value.level ≤ sourceValue.level := by
  cases h with
  | field hnode hexpr =>
    obtain ⟨inside, inputs, hrel, hvalue⟩ := Report.exists_inputs hcheck hid hnode hexpr
    cases hrel with
    | field hbase name =>
      refine ⟨hid.child hnode (by simp [hexpr, Expr.children]), _, _, hvalue, hbase, ?_⟩
      exact Resolved.andThen_level_le fun base _ => Context.resolveField_level_le base _
  | slice hnode hexpr =>
    obtain ⟨inside, inputs, hrel, hvalue⟩ := Report.exists_inputs hcheck hid hnode hexpr
    cases hrel with
    | slice hbase _ =>
      refine ⟨hid.child hnode (by simp [hexpr, Expr.children]), _, _, hvalue, hbase, ?_⟩
      exact Resolved.andThen_level_le fun base _ => Level.le_refl _
  | element hnode hexpr =>
    obtain ⟨inside, inputs, hrel, hvalue⟩ := Report.exists_inputs hcheck hid hnode hexpr
    cases hrel with
    | index hbase _ =>
      refine ⟨hid.child hnode (by simp [hexpr, Expr.children]), _, _, hvalue, hbase, ?_⟩
      exact Resolved.andThen_level_le fun base _ =>
        Context.resolveIndex_level_le (fun haccess => absurd haccess (by simp)) _
  | reference hnode hexpr hreturns =>
    obtain ⟨inside, inputs, hrel, hvalue⟩ := Report.exists_inputs hcheck hid hnode hexpr
    cases hrel with
    | index hbase _ =>
      refine ⟨hid.child hnode (by simp [hexpr, Expr.children]), _, _, hvalue, hbase, ?_⟩
      refine Resolved.andThen_level_le fun base heq => ?_
      subst heq
      exact Context.resolveIndex_level_le (fun _ indexer => hreturns base indexer hbase) _
  | call hnode hexpr hreturns =>
    obtain ⟨inside, inputs, hrel, hvalue⟩ := Report.exists_inputs hcheck hid hnode hexpr
    cases hrel with
    | call hreceiver _ _ =>
      refine ⟨hid.child hnode (by simp [hexpr, Expr.children]), _, _, hvalue, hreceiver, ?_⟩
      refine Resolved.andThen_level_le fun receiver heq => ?_
      subst heq
      exact Context.resolveCall_level_le (fun method => hreturns receiver method hreceiver) _
  | construct hnode hexpr hmem =>
    obtain ⟨inside, inputs, hrel, hvalue⟩ := Report.exists_inputs hcheck hid hnode hexpr
    cases hrel with
    | construct _ hargs =>
      obtain ⟨sourceValue, hsourceMem, hsource⟩ := exists_rel_of_mem_right hargs.flip hmem
      refine ⟨hid.child hnode (by simpa [hexpr, Expr.children] using hmem), _, _, hvalue,
        hsource, ?_⟩
      exact Context.resolveConstruct_level_le hsourceMem
  | block hnode hexpr hlast =>
    obtain ⟨inside, inputs, hrel, hvalue⟩ := Report.exists_inputs hcheck hid hnode hexpr
    cases hrel with
    | @block _ values hstmts =>
      obtain ⟨sourceValue, hlast', hsource⟩ := Report.value?_of_getLast? hstmts hlast
      have hmem := List.mem_of_getLast? hlast
      refine ⟨hid.child hnode (by simpa [hexpr, Expr.children] using hmem), _, _, hvalue,
        hsource, ?_⟩
      show (values.getLast?.getD (.known .unit)).level ≤ _
      rw [hlast']
      exact Level.le_refl _
  | var hnode hexpr hresolves =>
    obtain ⟨sourceValue, hsource, hverdict⟩ :=
      Report.verdict?_of_resolvesTo hcheck hid hnode hexpr hresolves
    refine ⟨?_, sourceValue.asLocal, sourceValue, ?_, hsource, ?_⟩
    · obtain ⟨verdict, hsome, -⟩ := Option.map_eq_some_iff.1 hsource
      exact (Report.exists_verdict?_iff hcheck).1 ⟨verdict, hsome⟩
    · rw [Report.value?, hverdict]
      rfl
    · rw [Resolved.asLocal_level]
      exact Level.le_refl _

/-- A chain of steps does not raise the level. Induction on the chain, from its end. -/
theorem Report.level?_le_of_chain (hcheck : body.check ctx = .ok report)
    (hchain : Relation.ReflTransGen (Derives ctx body report) source id)
    (hid : body.Reaches id) :
    ∃ level sourceLevel, report.level? id = some level ∧
      report.level? source = some sourceLevel ∧ level ≤ sourceLevel := by
  induction hchain with
  | refl =>
    obtain ⟨verdict, hverdict⟩ := (Report.exists_verdict?_iff hcheck).2 hid
    have hsome : report.level? source = some verdict.value.level := by
      rw [Report.level?, hverdict]
      rfl
    exact ⟨_, _, hsome, hsome, Level.le_refl _⟩
  | tail _ hstep ih =>
    obtain ⟨hmid, value, midValue, hvalue, hmidValue, hle⟩ := hstep.level_le hcheck hid
    obtain ⟨midLevel, sourceLevel, hmidLevel, hsource, hle'⟩ := ih hmid
    cases (level?_of_value? hmidValue).symm.trans hmidLevel
    exact ⟨_, _, level?_of_value? hvalue, hsource, Level.le_trans hle hle'⟩

/-! ## Returns -/

theorem returnProblem?_value_eq_none_iff {value : Value} :
    returnProblem? (.known value) .value = none ↔ .valueScoped ≤ value.level := by
  have hactual : value.returnedLevel .value = value.level := if_neg fun h => absurd h.1 (by simp)
  simp only [returnProblem?, hactual, Level.requiredForReturn]
  exact Level.ite_lt_eq_none_iff

/-- A return by value that passes is of a value that is poisoned or at least value-scoped. -/
theorem Report.le_level_of_returned (hcheck : body.check ctx = .ok report) {ret : NodeId}
    {node : Node} (hret : body.Reaches ret) (hnode : body.node? ret = some node)
    (hexpr : node.expr = .ret id .value) (hpass : ∀ finding ∈ report.findings, finding.node ≠ ret)
    (hknown : report.value? id ≠ some .poisoned) {level : Level}
    (hlevel : report.level? id = some level) : .valueScoped ≤ level := by
  obtain ⟨steps, hsteps⟩ := hret
  obtain ⟨_, inside, inputs, -, hrel, -, hverdict⟩ := exists_resolve hcheck hsteps hnode hexpr
  cases hrel with
  | @ret _ returned hreturned =>
    cases returned with
    | poisoned => exact absurd hreturned hknown
    | known value =>
      have hnone : returnProblem? (.known value) .value = none := by
        by_contra hsome
        obtain ⟨problem, hproblem⟩ := Option.ne_none_iff_exists'.1 hsome
        obtain ⟨finding, hfinding, hat, -⟩ :=
          (exists_finding_iff hcheck (P := fun _ => True)).2 ⟨_, problem, hverdict, hproblem, trivial⟩
        exact hpass finding hfinding hat
      cases (level?_of_value? hreturned).symm.trans hlevel
      exact returnProblem?_value_eq_none_iff.1 hnone

/-- **Unsafe derivations are not laundered.** What a node takes its value from, by any chain of
steps, has at least the level of the node. So if the node is returned by value, not poisoned and
not reported, nothing that feeds it is stack-only or ref-scoped. -/
theorem unsafe_never_laundered (hcheck : body.check ctx = .ok report) (hid : body.Reaches id)
    (hchain : Relation.ReflTransGen (Derives ctx body report) source id) :
    (∃ level sourceLevel, report.level? id = some level ∧
        report.level? source = some sourceLevel ∧ level ≤ sourceLevel) ∧
      ∀ ret node, body.Reaches ret → body.node? ret = some node → node.expr = .ret id .value →
        (∀ finding ∈ report.findings, finding.node ≠ ret) → report.value? id ≠ some .poisoned →
          report.level? source ≠ some .stackOnly ∧ report.level? source ≠ some .refScoped := by
  obtain ⟨level, sourceLevel, hlevel, hsource, hle⟩ := Report.level?_le_of_chain hcheck hchain hid
  refine ⟨⟨level, sourceLevel, hlevel, hsource, hle⟩, ?_⟩
  intro ret node hret hnode hexpr hpass hknown
  have hsafe : .valueScoped ≤ level :=
    Report.le_level_of_returned hcheck hret hnode hexpr hpass hknown hlevel
  have hsafe' : .valueScoped ≤ sourceLevel := Level.le_trans hsafe hle
  rw [hsource]
  constructor
  · intro hstack
    cases hstack
    exact absurd hsafe' (by decide)
  · intro hscoped
    cases hscoped
    exact absurd hsafe' (by decide)

theorem unsafe_never_laundered_at_redeclaration :
    ∃ report, shadowBody.check shadowContext = .ok report ∧ report.findings = [] ∧
      report.level? ⟨2⟩ ≠ some .stackOnly ∧ report.level? ⟨2⟩ ≠ some .refScoped := by
  have hret : shadowBody.Reaches ⟨6⟩ := ⟨[2], rfl⟩
  have hslice : shadowBody.Reaches ⟨5⟩ := ⟨[2, 0], rfl⟩
  -- The slice is returned. It is one of the variable, and that means the second declaration.
  have hchain : Relation.ReflTransGen (Derives shadowContext shadowBody shadowReport) ⟨2⟩ ⟨5⟩ :=
    .tail (.single (.var rfl rfl resolvesTo_shadow)) (.slice rfl rfl)
  obtain ⟨-, hsafe⟩ := unsafe_never_laundered check_shadow hslice hchain
  have hpass : shadowReport.findings = [] := by decide
  refine ⟨_, check_shadow, hpass, hsafe ⟨6⟩ _ hret rfl rfl ?_ (by decide)⟩
  rw [hpass]
  exact fun _ hfinding => absurd hfinding List.not_mem_nil

end FrameEscape
