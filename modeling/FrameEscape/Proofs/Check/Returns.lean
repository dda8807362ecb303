import FrameEscape.Proofs.Check.Derivation
import FrameEscape.Proofs.Check.StoreReturn

/-!
# Returns

What is found at a return is decided by the value returned: its level, and where it comes from
if it goes by reference. Both are said of the tree here. A place of this frame is a
`Context.Slot`; a reference into a receiver is a `ReceiverResult`, a call or an index whose
member returns one, or a block that ends with it.

* **`Report.origin_eq_receiver_iff`**: such nodes are those whose value has that origin.
* **`Report.exists_return`**: the value behind a return, and the names visible to it.
* **`returnProblem?_ref_iff`**: when a return by reference is reported.
-/

namespace FrameEscape

/-- The value of the node is a reference that `member` returned into its receiver. -/
inductive ReceiverResult (ctx : Context) (body : Body) (report : Report) : String → NodeId → Prop
    where
  | call {id node receiver name args value method} (hnode : body.node? id = some node)
      (hexpr : node.expr = .call receiver name args)
      (hvalue : report.value? receiver = some (.known value))
      (hmethod : ctx.member value name (·.method? name) = .ok method)
      (hself : method.returns = .refToSelfField) : ReceiverResult ctx body report name id
  | index {id node base position value indexer} (hnode : body.node? id = some node)
      (hexpr : node.expr = .index base position .ref)
      (hvalue : report.value? base = some (.known value))
      (hindexer : ctx.member value "[]" (·.indexer) = .ok indexer)
      (hself : indexer.byRef = .refToSelfField) : ReceiverResult ctx body report "[]" id
  | block {member id node stmts last} (hnode : body.node? id = some node)
      (hexpr : node.expr = .block stmts) (hlast : stmts.getLast? = some last)
      (hresult : ReceiverResult ctx body report member last) :
    ReceiverResult ctx body report member id

/-! ## Where a reference into a receiver comes from -/

/-- The inputs of a node whose value is a reference that `member` returned. -/
inductive Value.FromMember (ctx : Context) (value : Value) (member : String) :
    Expr Resolved → Prop where
  | call {receiver args method}
      (hmethod : ctx.member receiver member (·.method? member) = .ok method)
      (hself : method.returns = .refToSelfField) :
    FromMember ctx value member (.call (.known receiver) member args)
  | index {base position indexer} (hmember : member = "[]")
      (hindexer : ctx.member base "[]" (·.indexer) = .ok indexer)
      (hself : indexer.byRef = .refToSelfField) :
    FromMember ctx value member (.index (.known base) position .ref)
  | block {stmts} (hlast : stmts.getLast? = some (.known value)) :
    FromMember ctx value member (.block stmts)

theorem Origin.ofElement_eq_receiver_iff {origin element : Origin} {member : String} :
    origin.ofElement element = .receiver member ↔ element = .receiver member := by
  cases origin <;> cases element <;> simp [Origin.ofElement]

namespace Context

variable {ctx : Context} {scope : Scope} {value : Value}

theorem resolve_call_known {input : Resolved} {name : String} {args : List Resolved}
    (hvalue : (ctx.resolve scope (.call input name args)).value = .known value) :
    ∃ receiver method, input = .known receiver ∧
      ctx.member receiver name (·.method? name) = .ok method ∧
      value = ctx.config.callResult receiver method.returns method.result name := by
  cases input with
  | poisoned => exact absurd hvalue (by simp [resolve, Resolved.andThen, Verdict.ok])
  | known receiver =>
    simp only [resolve, Resolved.andThen, resolveCall] at hvalue
    cases hmember : ctx.member receiver name (·.method? name) with
    | error problem =>
      rw [hmember] at hvalue
      exact absurd hvalue (by simp)
    | ok method =>
      rw [hmember] at hvalue
      cases hvalue
      exact ⟨receiver, method, rfl, hmember, rfl⟩

/-- A value that is made of others, or of nothing, is no reference into a receiver. -/
theorem resolve_fromMember {inputs : Expr Resolved} {member : String} (hscope : scope.Local)
    (hvalue : (ctx.resolve scope inputs).value = .known value)
    (horigin : value.origin = .receiver member) : value.FromMember ctx member inputs := by
  cases inputs with
  | literal | assign | declare | ret =>
    cases hvalue
    cases horigin
  | alloc region name? =>
    cases name? with
    | none =>
      cases hvalue
      cases horigin
    | some name =>
      simp only [resolve] at hvalue
      cases hshape : ctx.shape name with
      | error problem =>
        rw [hshape] at hvalue
        cases hvalue
      | ok shape =>
        rw [hshape] at hvalue
        cases hvalue
        cases horigin
  | var name =>
    rcases resolveVar_known hscope hvalue with ⟨-, hframe⟩ | ⟨-, binding, -, hbound⟩
    · cases hframe.symm.trans horigin
    · rw [hbound] at horigin
      split at horigin <;> cases horigin
  | field input name =>
    obtain ⟨base, rfl, hfield⟩ := resolve_field_known hvalue
    exact absurd (hfield.symm.trans horigin) (Origin.ofField_ne_receiver _ _)
  | call input name args =>
    obtain ⟨receiver, method, rfl, hmethod, rfl⟩ := resolve_call_known hvalue
    rw [Config.callResult_origin] at horigin
    split at horigin
    next hself =>
      cases horigin
      exact .call hmethod hself
    · cases horigin
  | index input position access =>
    obtain ⟨base, indexer, element, rfl, hindexer, helement, heq⟩ := resolve_index_known hvalue
    rw [helement, Origin.ofElement_eq_receiver_iff, heq] at horigin
    split at horigin
    next hself =>
      cases horigin
      obtain ⟨rfl, hself⟩ := hself
      exact .index rfl (member_eq_ok_iff.2 hindexer) hself
    · cases horigin
  | slice input args =>
    cases input with
    | poisoned => cases hvalue
    | known base =>
      cases hvalue
      cases horigin
  | construct name args =>
    simp only [resolve, resolveConstruct] at hvalue
    cases hshape : ctx.shape name with
    | error problem =>
      rw [hshape] at hvalue
      cases hvalue
    | ok shape =>
      rw [hshape] at hvalue
      simp only at hvalue
      split at hvalue
      · cases hvalue
      · cases hvalue
        cases horigin
  | block stmts =>
    change stmts.getLast?.getD (.known .unit) = .known value at hvalue
    cases hlast : stmts.getLast? with
    | none =>
      rw [hlast] at hvalue
      cases hvalue
      cases horigin
    | some last =>
      rw [hlast] at hvalue
      exact .block (hlast.trans (congrArg some hvalue))

end Context

/-! ## The nodes whose values have that origin -/

theorem Body.IsTree.fits_of_reaches {body : Body} {limit : Nat} (h : body.IsTree limit)
    {id : NodeId} (hid : body.Reaches id) : body.Fits (limit + 1) id := by
  obtain ⟨steps, hsteps⟩ := hid
  intro more target hmore
  have hpath : body.follow? body.root (steps ++ more) = some target :=
    Body.follow?_trans hsteps hmore
  have hlength : (steps ++ more).length ≤ limit := h.shallow _ _ hpath
  rw [List.length_append] at hlength
  exact ⟨by omega, h.contains_of_follow? hpath⟩

namespace Report

variable {ctx : Context} {body : Body} {report : Report} {id source : NodeId} {node : Node}
  {value : Value} {member : String}

/-- The last statement of a block has the value of the block. -/
theorem value?_block (hcheck : body.check ctx = .ok report) (hid : body.Reaches id)
    (hnode : body.node? id = some node) {stmts : List NodeId} (hexpr : node.expr = .block stmts)
    {last : NodeId} (hlast : stmts.getLast? = some last) :
    report.value? last = report.value? id := by
  obtain ⟨inside, inputs, hrel, hvalue⟩ := exists_inputs hcheck hid hnode hexpr
  cases hrel with
  | @block _ values hstmts =>
    obtain ⟨lastValue, hlastValue, hreport⟩ := value?_of_getLast? hstmts hlast
    rw [hreport, hvalue]
    show some lastValue = some (values.getLast?.getD (.known .unit))
    rw [hlastValue]
    rfl

/-- Induction on the bound for what is below the node: only a block hands a reference on. -/
theorem receiverResult_of_origin (hcheck : body.check ctx = .ok report) {depth : Nat}
    (hfits : body.Fits depth id) (hid : body.Reaches id)
    (hvalue : report.value? id = some (.known value)) (horigin : value.origin = .receiver member) :
    ReceiverResult ctx body report member id := by
  induction depth generalizing id with
  | zero => exact absurd (hfits [] id rfl).1 (Nat.not_lt_zero _)
  | succ depth ih =>
    obtain ⟨node, hnode⟩ := hfits.exists_node
    obtain ⟨steps, hsteps⟩ := hid
    obtain ⟨before, inside, inputs, hcomes, hrel, ⟨visits, hkids⟩, hverdict⟩ :=
      exists_resolve hcheck hsteps hnode rfl
    have hresolve : (ctx.resolve inside inputs).value = .known value := by
      rw [value?, hverdict] at hvalue
      exact Option.some.inj hvalue
    have hfrom : value.FromMember ctx member inputs :=
      Context.resolve_fromMember (hkids.isLocal hcomes.isLocal) hresolve horigin
    have hchild : ∀ child ∈ node.expr.children, body.Fits depth child ∧ body.Reaches child :=
      fun child hmem => ⟨hfits.child hnode hmem, Body.Reaches.child ⟨steps, hsteps⟩ hnode hmem⟩
    generalize hexpr : node.expr = expr at hrel hchild
    cases hfrom with
    | call hmethod hself =>
      cases hrel with
      | call hreceiver _ _ => exact .call hnode hexpr hreceiver hmethod hself
    | index hmember hindexer hself =>
      subst hmember
      cases hrel with
      | index hbase _ _ => exact .index hnode hexpr hbase hindexer hself
    | block hlast =>
      cases hrel with
      | @block stmts _ hstmts =>
        obtain ⟨last, hlastId, hlastValue⟩ : ∃ last, stmts.getLast? = some last ∧
            report.value? last = some (.known value) := by
          have hrel := rel_getLast? hstmts
          rw [hlast] at hrel
          generalize stmts.getLast? = last? at hrel
          cases hrel with
          | some hlastValue => exact ⟨_, rfl, hlastValue⟩
        obtain ⟨hlastFits, hlastReaches⟩ := hchild last (List.mem_of_getLast? hlastId)
        exact .block hnode hexpr hlastId (ih hlastFits hlastReaches hlastValue)

/-- Such a node is a call or an index that returns a reference into its receiver, or a block that
ends with one. -/
theorem origin_eq_receiver_iff (hcheck : body.check ctx = .ok report) (hid : body.Reaches id)
    (hvalue : report.value? id = some (.known value)) :
    value.origin = .receiver member ↔ ReceiverResult ctx body report member id := by
  refine ⟨receiverResult_of_origin hcheck
    ((Context.run_of_check hcheck).1.fits_of_reaches hid) hid hvalue, fun hresult => ?_⟩
  induction hresult with
  | call hnode hexpr hreceiver hmethod hself =>
    obtain ⟨inside, inputs, hrel, hresolved⟩ := exists_inputs hcheck hid hnode hexpr
    cases hrel with
    | call hreceiver' _ _ =>
      cases hreceiver.symm.trans hreceiver'
      obtain ⟨_, method, heq, hmethod', rfl⟩ :=
        Context.resolve_call_known (Option.some.inj (hresolved.symm.trans hvalue))
      cases heq
      cases hmethod.symm.trans hmethod'
      rw [Config.callResult_origin, if_pos hself]
  | index hnode hexpr hbase hindexer hself =>
    obtain ⟨_, indexer, element, hbase', hindexer', helement, heq⟩ :=
      value?_index hcheck hid hnode hexpr hvalue
    cases hbase.symm.trans hbase'
    cases hindexer.symm.trans (Context.member_eq_ok_iff.2 hindexer')
    rw [helement, Origin.ofElement_eq_receiver_iff, heq, if_pos ⟨rfl, hself⟩]
  | block hnode hexpr hlast _ ih =>
    have hmem := List.mem_of_getLast? hlast
    refine ih (hid.child hnode (by simpa [hexpr, Expr.children] using hmem)) ?_
    rw [value?_block hcheck hid hnode hexpr hlast, hvalue]

/-! ## What is found at a return -/

/-- The value behind a return, of which it is a place of this frame if the node returned stands
for one. -/
theorem exists_return (hcheck : body.check ctx = .ok report) {ret : NodeId} {steps : List Nat}
    {mode : Access} (hsteps : body.follow? body.root steps = some ret)
    (hnode : body.node? ret = some node) (hexpr : node.expr = .ret source mode) :
    ∃ resolved, report.value? source = some resolved ∧
      report.verdict? ret = some (.statement (returnProblem? resolved mode)) ∧
      ∀ value, resolved = .known value →
        (value.origin = .frame ↔ ctx.Slot body (body.Visible · steps) source) := by
  obtain ⟨before, inside, inputs, hcomes, hrel, ⟨visits, hkids⟩, hverdict⟩ :=
    exists_resolve hcheck hsteps hnode hexpr
  cases hrel with
  | @ret _ resolved hsource =>
    refine ⟨resolved, hsource, hverdict, ?_⟩
    rintro value rfl
    have hrun : ctx.Run body [(steps ++ [0], source)] before [.known value] inside visits := hkids
    rw [hrun.origin_eq_frame_iff hcomes.isLocal]
    simp only [hcomes.mem_names_iff]

/-- The problem is found at the node. -/
def Finds (report : Report) (id : NodeId) (problem : Problem) : Prop :=
  ∃ finding ∈ report.findings, finding.node = id ∧ finding.problem = problem

theorem finds_iff (hcheck : body.check ctx = .ok report) {verdict : Verdict} {problem : Problem}
    (hverdict : report.verdict? id = some verdict) :
    report.Finds id problem ↔ verdict.problem? = some problem := by
  rw [Finds, exists_finding_iff hcheck (P := (· = problem)), hverdict]
  constructor
  · rintro ⟨_, _, hverdict', hproblem, rfl⟩
    cases hverdict'
    exact hproblem
  · intro hproblem
    exact ⟨verdict, problem, rfl, hproblem, rfl⟩

end Report

section Problems

variable {value : Value} {problem : Problem}

theorem returnProblem?_value_iff :
    returnProblem? (.known value) .value = some problem ↔
      value.level < .valueScoped ∧ problem = .notReturnable .value .valueScoped value.level := by
  have hactual : value.returnedLevel .value = value.level := if_neg fun h => absurd h.1 (by simp)
  simp only [returnProblem?, hactual, Level.requiredForReturn, Option.ite_none_right_eq_some,
    Option.some.injEq]
  exact and_congr_right fun _ => eq_comm

theorem returnProblem?_ref_iff :
    (∃ problem, returnProblem? (.known value) .ref = some problem) ↔
      value.level < .refScoped ∨ value.origin = .frame ∨
        ∃ member, value.origin = .receiver member := by
  have hbelow : Level.stackOnly < .refScoped := by decide
  obtain ⟨level, shape, origin⟩ := value
  cases origin <;>
    simp [returnProblem?, Value.returnedLevel, Level.requiredForReturn, hbelow]

end Problems

end FrameEscape
