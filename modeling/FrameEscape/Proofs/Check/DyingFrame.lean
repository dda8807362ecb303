import FrameEscape.Proofs.Check.Returns

/-!
# References into a dying frame

A reference to a local must not leave the frame, and neither must one that a member returned into
its receiver. The levels of the values do not matter here. Whose storage a value stands for is
carried along by its origin: a field keeps that of its base, a block that of its last statement. So
the return is reported however deep in fields and blocks the local is, and also where the local
hides a parameter by reference (`dying_reference_reported`).

* **`Body.Part.origin_eq_frame_iff`**: the origin of the variable arrives at its parts.
* **`Report.problemsAt_eq`**: what is reported at a node is what its verdict says, and no more.
-/

namespace FrameEscape

/-- The node is the variable, a field of a part of it, or a block that ends with one. -/
inductive Body.Part (body : Body) (var : NodeId) (name : String) : NodeId → Prop where
  | var {node} (hnode : body.node? var = some node) (hexpr : node.expr = .var name) :
    Part body var name var
  | field {id node base field} (hnode : body.node? id = some node)
      (hexpr : node.expr = .field base field) (hbase : Part body var name base) :
    Part body var name id
  | block {id node stmts last} (hnode : body.node? id = some node)
      (hexpr : node.expr = .block stmts) (hlast : stmts.getLast? = some last)
      (hpart : Part body var name last) : Part body var name id

variable {ctx : Context} {body : Body} {report : Report} {id var : NodeId} {name : String}

theorem Body.Part.exists_var (h : body.Part var name id) :
    ∃ node, body.node? var = some node ∧ node.expr = .var name := by
  induction h with
  | var hnode hexpr => exact ⟨_, hnode, hexpr⟩
  | field _ _ _ ih => exact ih
  | block _ _ _ _ ih => exact ih

/-- Induction on the part: neither a field nor a block makes a place of this frame, and neither
loses one. -/
theorem Body.Part.origin_eq_frame_iff (hpart : body.Part var name id)
    (hcheck : body.check ctx = .ok report) (hid : body.Reaches id) {value : Value}
    (hvalue : report.value? id = some (.known value)) :
    ∃ root, report.value? var = some (.known root) ∧
      (value.origin = .frame ↔ root.origin = .frame) := by
  induction hpart generalizing value with
  | var hnode hexpr => exact ⟨value, hvalue, Iff.rfl⟩
  | field hnode hexpr _ ih =>
    obtain ⟨baseValue, hbase, horigin⟩ := Report.value?_field hcheck hid hnode hexpr hvalue
    have hreach := hid.child hnode (by rw [hexpr]; exact List.mem_cons_self)
    obtain ⟨root, hroot, hiff⟩ := ih hreach hbase
    refine ⟨root, hroot, ?_⟩
    rw [horigin, Origin.ofField_eq_frame_iff, hiff]
  | block hnode hexpr hlast _ ih =>
    have hmem := List.mem_of_getLast? hlast
    have hreach := hid.child hnode (by rw [hexpr]; exact hmem)
    refine ih hreach ?_
    rw [Report.value?_block hcheck hid hnode hexpr hlast, hvalue]

/-! ## The problems at a node -/

namespace Report

/-- What is reported at a node. -/
def problemsAt (report : Report) (id : NodeId) : List Problem :=
  (report.findings.filter (·.node == id)).map (·.problem)

theorem mem_problemsAt_iff {problem : Problem} :
    problem ∈ report.problemsAt id ↔ report.Finds id problem := by
  simp [problemsAt, Finds, and_assoc]

theorem length_problemsAt_le_one (hcheck : body.check ctx = .ok report) (id : NodeId) :
    (report.problemsAt id).length ≤ 1 := by
  have hcount := count_findings_le_one hcheck id
  rw [List.count, List.countP_map, List.countP_eq_length_filter] at hcount
  rwa [problemsAt, List.length_map]

/-- What is reported at a node is the problem of its verdict, once. -/
theorem problemsAt_eq (hcheck : body.check ctx = .ok report) {verdict : Verdict}
    (hverdict : report.verdict? id = some verdict) :
    report.problemsAt id = verdict.problem?.toList := by
  have hmem : ∀ problem, problem ∈ report.problemsAt id ↔ verdict.problem? = some problem :=
    fun problem => mem_problemsAt_iff.trans (finds_iff hcheck hverdict)
  have hlength := length_problemsAt_le_one hcheck id
  match hlist : report.problemsAt id with
  | [] =>
    cases hproblem : verdict.problem? with
    | none => rfl
    | some problem =>
      have hnil := (hmem problem).2 hproblem
      rw [hlist] at hnil
      exact absurd hnil List.not_mem_nil
  | [problem] => rw [(hmem problem).1 (by rw [hlist]; exact List.mem_singleton_self _)]; rfl
  | _ :: _ :: _ =>
    rw [hlist, List.length_cons, List.length_cons] at hlength
    omega

end Report

/-! ## Returns by reference -/

section Problems

variable {value : Value}

theorem returnProblem?_of_frame (h : value.origin = .frame) :
    returnProblem? (.known value) .ref = some (.notReturnable .ref .refScoped .stackOnly) := by
  obtain ⟨level, shape, origin⟩ := value
  cases h
  rfl

theorem returnProblem?_of_receiver {member : String} (h : value.origin = .receiver member) :
    returnProblem? (.known value) .ref = some (.receiverReturned member) := by
  obtain ⟨level, shape, origin⟩ := value
  cases h
  rfl

end Problems

/-- **References into a dying frame are reported.** A return by reference of a part of a local, or
of a parameter by value, is reported as one of stack-only data, and a return of a reference that
a member returned into its receiver is reported as that. Nothing else is reported there, and the
levels of the values do not matter. -/
theorem dying_reference_reported (hvalid : body.validate ctx.config.maxDepth = .ok ()) :
    ∃ report, body.check ctx = .ok report ∧
      ∀ ret node source, body.Reaches ret → body.node? ret = some node →
        node.expr = .ret source .ref → report.value? source ≠ some .poisoned →
          (∀ var name steps, body.Part var name source →
            body.follow? body.root steps = some var → FrameRooted ctx body name steps →
              report.problemsAt ret = [.notReturnable .ref .refScoped .stackOnly]) ∧
          ∀ member, ReceiverResult ctx body report member source →
            report.problemsAt ret = [.receiverReturned member] := by
  obtain ⟨report, _, _, hcheck, -⟩ := ctx.exists_check (Body.isTree_of_validate hvalid)
  refine ⟨report, hcheck, ?_⟩
  intro ret node source hret hnode hexpr hknown
  have hsource : body.Reaches source :=
    hret.child hnode (by rw [hexpr]; exact List.mem_cons_self)
  obtain ⟨steps, hsteps⟩ := hret
  obtain ⟨resolved, hresolved, hverdict, -⟩ := Report.exists_return hcheck hsteps hnode hexpr
  rw [Report.problemsAt_eq hcheck hverdict]
  cases resolved with
  | poisoned => exact absurd hresolved hknown
  | known value =>
    constructor
    case left =>
      intro var name varSteps hpart hvar hframe
      obtain ⟨root, hroot, horigin⟩ := hpart.origin_eq_frame_iff hcheck hsource hresolved
      obtain ⟨varNode, hvarNode, hvarExpr⟩ := hpart.exists_var
      have hlocal := horigin.2 (hframe.origin_eq hcheck hvar hvarNode hvarExpr hroot)
      rw [Verdict.statement, returnProblem?_of_frame hlocal]
      rfl
    case right =>
      intro member hresult
      have hreceiver := (Report.origin_eq_receiver_iff hcheck hsource hresolved).2 hresult
      rw [Verdict.statement, returnProblem?_of_receiver hreceiver]
      rfl

/-- A parameter by reference is hidden by a local, of which a field is returned. An element of
another parameter is returned as well. -/
def dyingBody : Body where
  name := "dying"
  nodes := #[⟨.alloc .heap (some "S"), .zero⟩, ⟨.declare "p" ⟨0⟩, .zero⟩, ⟨.var "p", .zero⟩,
    ⟨.field ⟨2⟩ "f", .zero⟩, ⟨.block [⟨3⟩], .zero⟩, ⟨.ret ⟨4⟩ .ref, .zero⟩, ⟨.var "q", .zero⟩,
    ⟨.literal, .zero⟩, ⟨.index ⟨6⟩ ⟨7⟩ .ref, .zero⟩, ⟨.ret ⟨8⟩ .ref, .zero⟩,
    ⟨.block [⟨1⟩, ⟨5⟩, ⟨9⟩], .zero⟩]
  root := ⟨10⟩

def dyingShape : Shape := ⟨[⟨"f", .heap, none⟩], [], some ⟨none, .refToSelfField⟩⟩

def dyingContext : Context where
  bindings := .ofList [("p", ⟨.heap, true, some "S"⟩), ("q", ⟨.heap, true, some "S"⟩)]
  shapes := .ofList [("S", dyingShape)]
  config := {}

theorem dying_reference_reported_at_field :
    ∃ report, dyingBody.check dyingContext = .ok report ∧
      report.level? ⟨4⟩ = some .heap ∧
      report.problemsAt ⟨5⟩ = [.notReturnable .ref .refScoped .stackOnly] ∧
      report.problemsAt ⟨9⟩ = [.receiverReturned "[]"] := by
  have hvalid : dyingBody.validate dyingContext.config.maxDepth = .ok () := by cbv
  obtain ⟨report, hcheck, hreturns⟩ := dying_reference_reported hvalid
  have hbase : report.value? ⟨6⟩ = some (.known ⟨.heap, some "S", .caller⟩) :=
    Report.eq_of_map_check (f := (·.value? ⟨6⟩)) hcheck (by cbv)
  have hfield : report.value? ⟨4⟩ = some (.known ⟨.heap, none, .frame⟩) :=
    Report.eq_of_map_check (f := (·.value? ⟨4⟩)) hcheck (by cbv)
  have helement : report.value? ⟨8⟩ = some (.known ⟨.stackOnly, none, .receiver "[]"⟩) :=
    Report.eq_of_map_check (f := (·.value? ⟨8⟩)) hcheck (by cbv)
  have hhidden : FrameRooted dyingContext dyingBody "p" [1, 0, 0, 0] :=
    .inl ⟨[], 1, [0, 0, 0], _, _, ⟨1⟩, rfl, rfl, rfl, List.mem_cons_self, .declare rfl rfl⟩
  refine ⟨report, hcheck, Report.level?_of_value? hfield, ?_, ?_⟩
  · refine (hreturns ⟨5⟩ _ ⟨4⟩ ⟨[1], rfl⟩ rfl rfl (by rw [hfield]; simp)).1 ⟨2⟩ "p" _ ?_ rfl hhidden
    exact .block rfl rfl rfl (.field rfl rfl (.var rfl rfl))
  · refine (hreturns ⟨9⟩ _ ⟨8⟩ ⟨[2], rfl⟩ rfl rfl (by rw [helement]; simp)).2 "[]" ?_
    have hindexer : dyingContext.member ⟨.heap, some "S", .caller⟩ "[]" (·.indexer) =
        .ok ⟨none, .refToSelfField⟩ := by cbv
    exact .index rfl rfl hbase hindexer rfl

end FrameEscape
