import FrameEscape.Proofs.Check.Scoping
import Mathlib

/-!
# Stores

What a store needs is decided by the variable at the root of its target: storage that the
caller owns outlives the frame. The checker carries the root through fields and elements as
the origin of a value. It arrives at the target unless an index by reference on the way uses
an indexer that returns a reference into its receiver (`Body.Place.origin_eq_caller_iff`):
there the origin becomes that of the reference, and the store is judged as one into a local
(`store_reported_iff`).
-/

namespace FrameEscape

/-! ## Places and their roots -/

/-- The node is the variable, or is made from it by reading fields and indexing. -/
inductive Body.Place (body : Body) (var : NodeId) (name : String) : NodeId → Prop where
  | var {node} (hnode : body.node? var = some node) (hexpr : node.expr = .var name) :
    Place body var name var
  | field {id node base field} (hnode : body.node? id = some node)
      (hexpr : node.expr = .field base field) (hbase : Place body var name base) :
    Place body var name id
  | index {id node base position access} (hnode : body.node? id = some node)
      (hexpr : node.expr = .index base position access) (hbase : Place body var name base) :
    Place body var name id

/-- The variable at the end of the path stands for storage that the caller owns. -/
def CallerRooted (ctx : Context) (body : Body) (name : String) (steps : List Nat) : Prop :=
  ¬ body.Visible name steps ∧
    ∃ binding, ctx.bindings.get? name = some binding ∧ binding.isRefParam = true

/-- The variable at the end of the path stands for storage of this frame. -/
def FrameRooted (ctx : Context) (body : Body) (name : String) (steps : List Nat) : Prop :=
  body.Visible name steps ∨
    ∃ binding, ctx.bindings.get? name = some binding ∧ binding.isRefParam = false

/-- An indexer that the value has by its shape. -/
def Context.HasIndexer (ctx : Context) (value : Value) (indexer : Indexer) : Prop :=
  ∃ shapeName shape, value.shape = some shapeName ∧ ctx.shapes.get? shapeName = some shape ∧
    shape.indexer = some indexer

/-- On the way to the node something is indexed by reference whose indexer returns a reference
into its receiver. -/
inductive ThroughSelfField (ctx : Context) (body : Body) (report : Report) : NodeId → Prop where
  | here {id node base position value indexer} (hnode : body.node? id = some node)
      (hexpr : node.expr = .index base position .ref)
      (hvalue : report.value? base = some (.known value)) (hindexer : ctx.HasIndexer value indexer)
      (hself : indexer.byRef = .refToSelfField) : ThroughSelfField ctx body report id
  | field {id node base field} (hnode : body.node? id = some node)
      (hexpr : node.expr = .field base field) (hbase : ThroughSelfField ctx body report base) :
    ThroughSelfField ctx body report id
  | index {id node base position access} (hnode : body.node? id = some node)
      (hexpr : node.expr = .index base position access)
      (hbase : ThroughSelfField ctx body report base) : ThroughSelfField ctx body report id

variable {ctx : Context} {body : Body} {report : Report} {id base position : NodeId} {node : Node}

/-! ## Self-field references on the way -/

theorem not_throughSelfField_of_var {name : String} (hnode : body.node? id = some node)
    (hexpr : node.expr = .var name) : ¬ ThroughSelfField ctx body report id := by
  intro h
  cases h with
  | here hnode' hexpr' | field hnode' hexpr' | index hnode' hexpr' =>
    cases hnode.symm.trans hnode'
    exact absurd (hexpr.symm.trans hexpr') (by simp)

theorem throughSelfField_field_iff {field : String} (hnode : body.node? id = some node)
    (hexpr : node.expr = .field base field) :
    ThroughSelfField ctx body report id ↔ ThroughSelfField ctx body report base := by
  refine ⟨fun h => ?_, .field hnode hexpr⟩
  cases h with
  | here hnode' hexpr' | index hnode' hexpr' =>
    cases hnode.symm.trans hnode'
    exact absurd (hexpr.symm.trans hexpr') (by simp)
  | field hnode' hexpr' hbase =>
    cases hnode.symm.trans hnode'
    cases hexpr.symm.trans hexpr'
    exact hbase

theorem throughSelfField_index_iff {access : Access} {value : Value} {indexer : Indexer}
    (hnode : body.node? id = some node) (hexpr : node.expr = .index base position access)
    (hvalue : report.value? base = some (.known value)) (hindexer : ctx.HasIndexer value indexer) :
    ThroughSelfField ctx body report id ↔ (access = .ref ∧ indexer.byRef = .refToSelfField) ∨
      ThroughSelfField ctx body report base := by
  refine ⟨fun h => ?_, fun h => ?_⟩
  · cases h with
    | here hnode' hexpr' hvalue' hindexer' hself =>
      cases hnode.symm.trans hnode'
      cases hexpr.symm.trans hexpr'
      cases hvalue.symm.trans hvalue'
      obtain ⟨_, _, hname, hshape, hfound⟩ := hindexer
      obtain ⟨_, _, hname', hshape', hfound'⟩ := hindexer'
      cases hname.symm.trans hname'
      cases hshape.symm.trans hshape'
      cases hfound.symm.trans hfound'
      exact .inl ⟨rfl, hself⟩
    | field hnode' hexpr' =>
      cases hnode.symm.trans hnode'
      exact absurd (hexpr.symm.trans hexpr') (by simp)
    | index hnode' hexpr' hbase =>
      cases hnode.symm.trans hnode'
      cases hexpr.symm.trans hexpr'
      exact .inr hbase
  · obtain ⟨rfl, hself⟩ | hbase := h
    · exact .here hnode hexpr hvalue hindexer hself
    · exact .index hnode hexpr hbase

/-! ## Origins -/

theorem Origin.ofField_eq_caller_iff {origin : Origin} :
    origin.ofField = .caller ↔ origin = .caller := by
  cases origin <;> simp [Origin.ofField]

theorem Origin.ofElement_eq_caller_iff {origin element : Origin} (h : element ≠ .caller) :
    origin.ofElement element = .caller ↔ origin = .caller ∧ element = .temporary := by
  cases origin <;> cases element <;> simp_all [Origin.ofElement]

/-- The result of a member is a reference into its receiver, or a value of its own. -/
theorem Config.callResult_origin (config : Config) (receiver : Value) (returns : ReturnKind)
    (shape : Option String) (member : String) :
    (config.callResult receiver returns shape member).origin =
      if returns = .refToSelfField then .receiver member else .temporary := by
  cases returns <;> rfl

namespace Context

variable {scope : Scope} {input position : Resolved} {value : Value}

/-- A field that is known has a base that is known, and lies in its storage. -/
theorem resolve_field_known {name : String}
    (hvalue : (ctx.resolve scope (.field input name)).value = .known value) :
    ∃ base, input = .known base ∧ value.origin = base.origin.ofField := by
  cases input with
  | poisoned => exact absurd hvalue (by simp [resolve, Resolved.andThen, Verdict.ok])
  | known base =>
    refine ⟨base, rfl, ?_⟩
    simp only [resolve, Resolved.andThen, resolveField] at hvalue
    cases hfield : ctx.member base name (·.field? name) with
    | error problem =>
      rw [hfield] at hvalue
      exact absurd hvalue (by simp [Except.map, Verdict.ofExcept])
    | ok found =>
      rw [hfield] at hvalue
      cases hvalue
      rfl

/-- An element that is known has a base that is known and has an indexer. -/
theorem resolve_index_known {access : Access}
    (hvalue : (ctx.resolve scope (.index input position access)).value = .known value) :
    ∃ base indexer element, input = .known base ∧ ctx.HasIndexer base indexer ∧
      value.origin = base.origin.ofElement element ∧
      element = if access = .ref ∧ indexer.byRef = .refToSelfField then .receiver "[]"
        else .temporary := by
  cases input with
  | poisoned => exact absurd hvalue (by simp [resolve, Resolved.andThen, Verdict.ok])
  | known base =>
    simp only [resolve, Resolved.andThen, resolveIndex] at hvalue
    cases hmember : ctx.member base "[]" (·.indexer) with
    | error problem =>
      rw [hmember] at hvalue
      exact absurd hvalue (by simp)
    | ok indexer =>
      rw [hmember] at hvalue
      cases hvalue
      refine ⟨base, indexer, _, rfl, member_eq_ok_iff.1 hmember, rfl, ?_⟩
      cases access with
      | value => simp [Value.temporary]
      | ref => simp [Config.callResult_origin]

end Context

namespace Report

theorem value?_field (hcheck : body.check ctx = .ok report) (hid : body.Reaches id)
    (hnode : body.node? id = some node) {field : String}
    (hexpr : node.expr = .field base field) {value : Value}
    (hvalue : report.value? id = some (.known value)) :
    ∃ baseValue, report.value? base = some (.known baseValue) ∧
      value.origin = baseValue.origin.ofField := by
  obtain ⟨inside, inputs, hrel, hvalue'⟩ := exists_inputs hcheck hid hnode hexpr
  cases hrel with
  | field hbase =>
    obtain ⟨baseValue, rfl, horigin⟩ :=
      Context.resolve_field_known (Option.some.inj (hvalue'.symm.trans hvalue))
    exact ⟨baseValue, hbase, horigin⟩

theorem value?_index (hcheck : body.check ctx = .ok report) (hid : body.Reaches id)
    (hnode : body.node? id = some node) {access : Access}
    (hexpr : node.expr = .index base position access) {value : Value}
    (hvalue : report.value? id = some (.known value)) :
    ∃ baseValue indexer element, report.value? base = some (.known baseValue) ∧
      ctx.HasIndexer baseValue indexer ∧ value.origin = baseValue.origin.ofElement element ∧
      element = if access = .ref ∧ indexer.byRef = .refToSelfField then .receiver "[]"
        else .temporary := by
  obtain ⟨inside, inputs, hrel, hvalue'⟩ := exists_inputs hcheck hid hnode hexpr
  cases hrel with
  | index hbase =>
    obtain ⟨baseValue, indexer, element, rfl, hindexer, horigin⟩ :=
      Context.resolve_index_known (Option.some.inj (hvalue'.symm.trans hvalue))
    exact ⟨baseValue, indexer, element, hbase, hindexer, horigin⟩

end Report

variable {var : NodeId} {name : String}

theorem Body.Place.exists_var (h : body.Place var name id) :
    ∃ node, body.node? var = some node ∧ node.expr = .var name := by
  induction h with
  | var hnode hexpr => exact ⟨_, hnode, hexpr⟩
  | field _ _ _ ih => exact ih
  | index _ _ _ ih => exact ih

/-- The root of a place arrives at it, but for references into a receiver on the way. Induction
on the place. -/
theorem Body.Place.origin_eq_caller_iff (hplace : body.Place var name id)
    (hcheck : body.check ctx = .ok report) (hid : body.Reaches id) {value : Value}
    (hvalue : report.value? id = some (.known value)) :
    ∃ root, report.value? var = some (.known root) ∧
      (value.origin = .caller ↔ root.origin = .caller ∧ ¬ ThroughSelfField ctx body report id) := by
  induction hplace generalizing value with
  | var hnode hexpr =>
    have hnot : ¬ ThroughSelfField ctx body report var := not_throughSelfField_of_var hnode hexpr
    exact ⟨value, hvalue, by simp [hnot]⟩
  | field hnode hexpr _ ih =>
    obtain ⟨baseValue, hbase, horigin⟩ := Report.value?_field hcheck hid hnode hexpr hvalue
    have hreach := hid.child hnode (by rw [hexpr]; exact List.mem_cons_self)
    obtain ⟨root, hroot, hiff⟩ := ih hreach hbase
    refine ⟨root, hroot, ?_⟩
    rw [horigin, Origin.ofField_eq_caller_iff, hiff, throughSelfField_field_iff hnode hexpr]
  | @index _ _ _ _ access hnode hexpr _ ih =>
    obtain ⟨baseValue, indexer, element, hbase, hindexer, horigin, helement⟩ :=
      Report.value?_index hcheck hid hnode hexpr hvalue
    have hreach := hid.child hnode (by rw [hexpr]; exact List.mem_cons_self)
    obtain ⟨root, hroot, hiff⟩ := ih hreach hbase
    refine ⟨root, hroot, ?_⟩
    -- The root survives where the element is a value of its own.
    have hne : element ≠ .caller := by rw [helement]; split <;> simp
    have htemporary : element = .temporary ↔
        ¬ (access = .ref ∧ indexer.byRef = .refToSelfField) := by
      rw [helement]
      split
      next h => simp [h]
      next h => simp [h]
    rw [horigin, Origin.ofElement_eq_caller_iff hne, hiff, htemporary,
      throughSelfField_index_iff hnode hexpr hbase hindexer, not_or, and_assoc]
    exact and_congr_right fun _ => and_comm

/-! ## The variable at the root -/

theorem CallerRooted.origin_eq {steps : List Nat} (h : CallerRooted ctx body name steps)
    (hcheck : body.check ctx = .ok report) (hvar : body.follow? body.root steps = some var)
    (hnode : body.node? var = some node) (hexpr : node.expr = .var name) {root : Value}
    (hroot : report.value? var = some (.known root)) : root.origin = .caller := by
  obtain ⟨hvisible, binding, hbinding, hparam⟩ := h
  have hvalue := Report.value?_var_of_binding hcheck hvar hnode hexpr hvisible hbinding
  rw [hvalue, Resolved.ofBinding, hparam] at hroot
  cases hroot
  rfl

/-- A declaration hides a binding of its name, whatever that is bound to. -/
theorem FrameRooted.origin_eq {steps : List Nat} (h : FrameRooted ctx body name steps)
    (hcheck : body.check ctx = .ok report) (hvar : body.follow? body.root steps = some var)
    (hnode : body.node? var = some node) (hexpr : node.expr = .var name) {root : Value}
    (hroot : report.value? var = some (.known root)) : root.origin = .frame := by
  by_cases hvisible : body.Visible name steps
  · obtain ⟨value, hvalue, hlocal⟩ :=
      Report.value?_var_of_visible hcheck hvar hnode hexpr hvisible
    cases hroot.symm.trans hvalue
    exact (congrArg Value.origin (Resolved.known.inj hlocal)).symm
  · obtain ⟨binding, hbinding, hparam⟩ := h.resolve_left hvisible
    have hvalue := Report.value?_var_of_binding hcheck hvar hnode hexpr hvisible hbinding
    rw [hvalue, Resolved.ofBinding, hparam] at hroot
    cases hroot
    rfl

theorem FrameRooted.origin_ne {steps : List Nat} (h : FrameRooted ctx body name steps)
    (hcheck : body.check ctx = .ok report) (hvar : body.follow? body.root steps = some var)
    (hnode : body.node? var = some node) (hexpr : node.expr = .var name) {root : Value}
    (hroot : report.value? var = some (.known root)) : root.origin ≠ .caller := by
  rw [h.origin_eq hcheck hvar hnode hexpr hroot]
  exact Origin.noConfusion

/-! ## What a store needs -/

/-- A store is reported if the level is below the one required. -/
theorem exists_finding_store_iff (hcheck : body.check ctx = .ok report) (hid : body.Reaches id)
    (hnode : body.node? id = some node) {target source : NodeId} {mode : Access}
    (hexpr : node.expr = .assign target source mode) {place stored : Value}
    (htarget : report.value? target = some (.known place))
    (hsource : report.value? source = some (.known stored)) :
    (∃ finding ∈ report.findings, finding.node = id ∧
        finding.problem.kind = .escapingAssignment) ↔
      stored.level < Level.requiredForStore (decide (place.origin = .caller)) mode := by
  obtain ⟨steps, hsteps⟩ := hid
  obtain ⟨_, inside, inputs, -, hrel, -, hverdict⟩ :=
    Report.exists_resolve hcheck hsteps hnode hexpr
  rw [Report.exists_finding_iff hcheck (P := fun problem => problem.kind = .escapingAssignment),
    hverdict]
  cases hrel with
  | assign htarget' hsource' =>
    cases htarget.symm.trans htarget'
    cases hsource.symm.trans hsource'
    simp only [Context.resolve, Verdict.statement, storeProblem?, Resolved.isCallerPlace_known]
    refine ⟨?_, fun hbelow => ⟨_, _, rfl, if_pos hbelow, rfl⟩⟩
    intro h
    obtain ⟨_, problem, hsome, hproblem, -⟩ := h
    cases hsome
    by_contra hnot
    rw [if_neg hnot] at hproblem
    exact absurd hproblem (by simp)

theorem Level.lt_requiredForStore_iff {level : Level} {callerOwned : Bool} {mode : Access} :
    level < Level.requiredForStore callerOwned mode ↔
      if callerOwned then level < .valueScoped else mode = .ref ∧ level < .refScoped := by
  cases callerOwned <;> cases mode <;> cases level <;> decide

/-- **A store is judged by the root of its target, but for references into a receiver.** A store
into storage of this frame is reported if and only if it is by reference and the value is below
ref-scoped. A store into storage of the caller is reported whenever the value is below
value-scoped, if and only if it is not one of these: something on the way to the target is a
reference into its receiver, and the store would do into a local. -/
theorem store_reported_iff (hcheck : body.check ctx = .ok report) (hid : body.Reaches id)
    (hnode : body.node? id = some node) {target source : NodeId} {mode : Access}
    (hexpr : node.expr = .assign target source mode) {place stored : Value}
    (htarget : report.value? target = some (.known place))
    (hsource : report.value? source = some (.known stored))
    (hplace : body.Place var name target) {steps : List Nat}
    (hvar : body.follow? body.root steps = some var) :
    (FrameRooted ctx body name steps →
      ((∃ finding ∈ report.findings, finding.node = id ∧
          finding.problem.kind = .escapingAssignment) ↔
        mode = .ref ∧ stored.level < .refScoped)) ∧
    (CallerRooted ctx body name steps →
      (((∃ finding ∈ report.findings, finding.node = id ∧
            finding.problem.kind = .escapingAssignment) ↔ stored.level < .valueScoped) ↔
        ¬ (ThroughSelfField ctx body report target ∧ stored.level < .valueScoped ∧
          (mode = .ref → .refScoped ≤ stored.level)))) := by
  obtain ⟨varNode, hvarNode, hvarExpr⟩ := hplace.exists_var
  have hreach : body.Reaches target :=
    hid.child hnode (by rw [hexpr]; exact List.mem_cons_self)
  obtain ⟨root, hroot, horigin⟩ := hplace.origin_eq_caller_iff hcheck hreach htarget
  rw [exists_finding_store_iff hcheck hid hnode hexpr htarget hsource,
    Level.lt_requiredForStore_iff]
  refine ⟨fun hframe => ?_, fun hcaller => ?_⟩
  · have hne := hframe.origin_ne hcheck hvar hvarNode hvarExpr hroot
    have hplaceNe : place.origin ≠ .caller := fun h => hne (horigin.1 h).1
    rw [if_neg (by simpa using hplaceNe)]
  · have heq := hcaller.origin_eq hcheck hvar hvarNode hvarExpr hroot
    by_cases hself : ThroughSelfField ctx body report target
    · -- The root was lost, so the store is held to what a local needs.
      have hplaceNe : place.origin ≠ .caller := fun h => (horigin.1 h).2 hself
      rw [if_neg (by simpa using hplaceNe)]
      refine ⟨fun hiff hoverlooked => ?_, fun hnot => ⟨fun hbelow => ?_, fun hbelow => ?_⟩⟩
      · obtain ⟨hmode, hlevel⟩ := hiff.2 hoverlooked.2.1
        exact absurd (hoverlooked.2.2 hmode) (Level.not_le.2 hlevel)
      · exact Nat.lt_trans hbelow.2 (by decide)
      · by_contra hnone
        refine hnot ⟨hself, hbelow, fun hmode => ?_⟩
        by_contra hlevel
        exact hnone ⟨hmode, Level.not_le.1 hlevel⟩
    · -- The root arrived, so the store is held to what the caller's storage needs.
      rw [if_pos (by simpa using horigin.2 ⟨heq, hself⟩)]
      exact ⟨fun _ hoverlooked => hself hoverlooked.1, fun _ => Iff.rfl⟩

/-- `p[0] = stackalloc`, where the element is taken by value or by reference. -/
def storeBody (access : Access) : Body where
  name := "store"
  nodes := #[⟨.var "p", .zero⟩, ⟨.literal, .zero⟩, ⟨.index ⟨0⟩ ⟨1⟩ access, .zero⟩,
    ⟨.alloc .stack none, .zero⟩, ⟨.assign ⟨2⟩ ⟨3⟩ .value, .zero⟩]
  root := ⟨4⟩

def storeShape : Shape := ⟨[], [], some ⟨none, .refToSelfField⟩⟩

/-- A parameter by reference, whose elements by reference are references into it. -/
def storeContext : Context where
  bindings := .ofList [("p", ⟨.heap, true, some "S"⟩)]
  shapes := .ofList [("S", storeShape)]
  config := {}

/-- The report of the store into the element. -/
def storeReport (element : Value) (problem? : Option Problem) : Report where
  body := "store"
  visits := [
    ⟨⟨0⟩, ⟨[0, 0]⟩, .zero, .ok (.known ⟨.heap, some "S", .caller⟩)⟩,
    ⟨⟨1⟩, ⟨[0, 1]⟩, .zero, .ok (.known .unit)⟩,
    ⟨⟨2⟩, ⟨[0]⟩, .zero, .ok (.known element)⟩,
    ⟨⟨3⟩, ⟨[1]⟩, .zero, .ok (.known (.temporary .stackOnly none))⟩,
    ⟨⟨4⟩, ⟨[]⟩, .zero, .statement problem?⟩]

theorem callerRooted_store (access : Access) :
    CallerRooted storeContext (storeBody access) "p" [0, 0] := by
  refine ⟨?_, ⟨.heap, true, some "S"⟩, by cbv, rfl⟩
  intro hvisible
  obtain ⟨above, i, below, _, _, child, hsteps, _, _, hchild, _⟩ := hvisible
  -- Only first children are on the path, and nothing is to the left of them.
  have hi : i ∈ [0, 0] := hsteps ▸ List.mem_append_right above List.mem_cons_self
  have hzero : i = 0 := by simpa using hi
  rw [hzero, List.take_zero] at hchild
  exact absurd hchild List.not_mem_nil

theorem store_reported_at_element :
    ∃ report, (storeBody .value).check storeContext = .ok report ∧
      ∃ finding ∈ report.findings, finding.node = ⟨4⟩ ∧
        finding.problem.kind = .escapingAssignment := by
  have hcheck : (storeBody .value).check storeContext =
      .ok (storeReport ⟨.heap, none, .caller⟩
        (some (.escapingAssignment .value .valueScoped .stackOnly))) := by cbv
  have hplace : (storeBody .value).Place ⟨0⟩ "p" ⟨2⟩ := .index rfl rfl (.var rfl rfl)
  have hid : (storeBody .value).Reaches ⟨4⟩ := ⟨[], rfl⟩
  have hvar : (storeBody .value).follow? (storeBody .value).root [0, 0] = some ⟨0⟩ := rfl
  have hjudged :=
    (store_reported_iff hcheck hid rfl rfl rfl rfl hplace hvar).2 (callerRooted_store .value)
  refine ⟨_, hcheck, (hjudged.2 ?_).2 (by decide)⟩
  intro hoverlooked
  have hshape : storeContext.shapes.get? "S" = some storeShape := by cbv
  obtain hself | hself := (throughSelfField_index_iff rfl rfl rfl
    ⟨_, _, rfl, hshape, rfl⟩).1 hoverlooked.1
  · exact absurd hself.1 (by decide)
  · exact absurd hself (not_throughSelfField_of_var rfl rfl)

/-- The same store into the element by reference is overlooked. -/
theorem store_overlooked_at_element :
    ∃ report place stored, (storeBody .ref).check storeContext = .ok report ∧
      (storeBody .ref).Place ⟨0⟩ "p" ⟨2⟩ ∧
      (storeBody .ref).follow? (storeBody .ref).root [0, 0] = some ⟨0⟩ ∧
      CallerRooted storeContext (storeBody .ref) "p" [0, 0] ∧
      report.value? ⟨2⟩ = some (.known place) ∧ report.value? ⟨3⟩ = some (.known stored) ∧
      stored.level < .valueScoped ∧ report.findings = [] := by
  have hcheck : (storeBody .ref).check storeContext =
      .ok (storeReport ⟨.stackOnly, none, .receiver "[]"⟩ none) := by cbv
  exact ⟨_, _, _, hcheck, .index rfl rfl (.var rfl rfl), rfl, callerRooted_store .ref, rfl, rfl,
    by decide, rfl⟩

end FrameEscape
