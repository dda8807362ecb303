import FrameEscape.Diagnostic.Finding
import FrameEscape.Proofs.Body.Tree
import FrameEscape.Proofs.Check.Poison
import FrameEscape.Proofs.Diagnostic.ReadBack

/-!
# Verdicts in diagnostics

The diagnostics of a check say what the check found and nothing else: one error for each finding, in
order, and an object whose success is the success of the check. A rejected body is told as a mistake
of the front end, with a label at the node of the mistake. The walk can only name nodes that it has
listed, and it lists no missing ones, so there is a node to label unless it is the root that is
missing.
-/

namespace FrameEscape

/-! ## The mistakes of a walk -/

/-- The mistake is at a node, and not that there is none to begin with. -/
def Malformed.AtNode (mistake : Malformed) : Prop := ∀ root size, mistake ≠ .missingRoot root size

namespace Body

variable {body : Body} {limit : Nat} {mistake : Malformed}

theorem mistake?_eq_some {id : NodeId} {expr : Expr NodeId}
    (h : body.mistake? id expr = some mistake) : mistake.node = id ∧ mistake.AtNode := by
  unfold mistake? at h
  split at h
  · cases h
    exact ⟨rfl, fun _ _ h => by cases h⟩
  · split at h
    · obtain ⟨node, -, hplace⟩ := Option.bind_eq_some_iff.1 h
      split at hplace <;> cases hplace
      exact ⟨rfl, fun _ _ h => by cases h⟩
    · cases h

/-- Induction on the recursion of the walk: all nodes listed are in the body, as a node with missing
children is a mistake by itself. -/
theorem walk_eq_error (todo : List (NodeId × Nat)) (seen : Vector Bool body.size)
    (htodo : ∀ e ∈ todo, body.contains e.1 = true)
    (h : body.walk limit todo seen = .error mistake) :
    body.contains mistake.node = true ∧ mistake.AtNode := by
  fun_induction walk body limit todo seen with
  | case1 seen => cases h
  | case2 seen id depth rest hdeep =>
    cases h
    exact ⟨htodo _ List.mem_cons_self, fun _ _ h => by cases h⟩
  | case3 seen id depth rest hdeep hid hseen =>
    cases h
    exact ⟨htodo _ List.mem_cons_self, fun _ _ h => by cases h⟩
  | case4 seen id depth rest hdeep hid hseen expr mistake hmistake =>
    cases h
    obtain ⟨hnode, hat⟩ := mistake?_eq_some hmistake
    rw [hnode]
    exact ⟨htodo _ List.mem_cons_self, hat⟩
  | case5 seen id depth rest hdeep hid hseen expr hmistake ih =>
    have hchildren := (mistake?_eq_none_iff.1 hmistake).1
    refine ih (fun e he => ?_) h
    rcases List.mem_append.1 he with he | he
    · exact hchildren e.1 (mem_below_iff.1 he).1
    · exact htodo e (List.mem_cons_of_mem _ he)
  | case6 seen id depth rest hdeep hid ih =>
    exact ih (fun e he => htodo e (List.mem_cons_of_mem _ he)) h

theorem validate_eq_error (h : body.validate limit = .error mistake) :
    (mistake = .missingRoot body.root body.size ∧ body.node? body.root = none) ∨
      (mistake.AtNode ∧ ∃ node, body.node? mistake.node = some node) := by
  unfold validate at h
  split at h
  next hroot =>
    obtain ⟨hnode, hat⟩ := walk_eq_error _ _ (by simpa using hroot) h
    rw [contains_eq_isSome] at hnode
    exact .inr ⟨hat, Option.isSome_iff_exists.1 hnode⟩
  next hroot =>
    cases h
    rw [contains_eq_isSome] at hroot
    exact .inl ⟨rfl, by simpa using hroot⟩

end Body

/-! ## One finding -/

/-- The diagnostic says what the finding is: an error, where it is and on what path, the levels that
were compared if both are known, and a known code of the right category. -/
structure Presents (finding : Finding) (d : Diagnostic) : Prop where
  severity : d.severity = .error
  path : d.path = some finding.path.text
  labels : ∃ message, d.labels = [⟨finding.span, true, message⟩]
  levels : ∀ levels, d.levels = some levels ↔
    finding.problem.requiredLevel? = some levels.required ∧
      finding.problem.actualLevel? = some levels.actual
  unresolved : finding.problem.FailedLookup → d.category? = some .resolution
  escaping : ¬ finding.problem.FailedLookup → d.category? = some .escape

/-- All but the words, the notes and the help of a diagnostic is settled by the finding. -/
def Describes (finding : Finding) (d : Diagnostic) : Prop :=
  ∃ message label notes help, d =
    ⟨.error, some (ErrorCode.problem finding.problem.kind).text, message,
      [⟨finding.span, true, label⟩], none, none, notes, help⟩

namespace Describes

variable {finding : Finding} {d : Diagnostic}

theorem error (finding : Finding) (message label : String) :
    Describes finding (finding.error message label) :=
  ⟨message, label, [], none, rfl⟩

theorem withNote (h : Describes finding d) (note : String) :
    Describes finding (d.withNote note) := by
  obtain ⟨message, label, notes, help, rfl⟩ := h
  exact ⟨message, label, notes ++ [note], help, rfl⟩

theorem withHelp (h : Describes finding d) (help : String) :
    Describes finding (d.withHelp help) := by
  obtain ⟨message, label, notes, -, rfl⟩ := h
  exact ⟨message, label, notes, help, rfl⟩

theorem withNote? (h : Describes finding d) (note : Option String) :
    Describes finding (d.withNote? note) := by
  cases note with
  | none => exact h
  | some note => exact h.withNote note

theorem withHelp? (h : Describes finding d) (help : Option String) :
    Describes finding (d.withHelp? help) := by
  cases help with
  | none => exact h
  | some help => exact h.withHelp help

end Describes

theorem describes_describe (finding : Finding) : Describes finding finding.describe := by
  unfold Finding.describe
  split
  · exact ((Describes.error ..).withNote? _).withHelp? _
  · exact ((Describes.error ..).withNote? _).withHelp? _
  · exact (Describes.error ..).withHelp? _
  · exact ((Describes.error ..).withNote _).withHelp _
  · exact ((Describes.error ..).withNote _).withHelp _
  · exact (((Describes.error ..).withNote _).withNote _).withHelp _
  · exact ((Describes.error ..).withNote _).withHelp? _

theorem category_problem_eq (problem : Problem) :
    (problem.FailedLookup → (ErrorCode.problem problem.kind).category = .resolution) ∧
      (¬ problem.FailedLookup → (ErrorCode.problem problem.kind).category = .escape) := by
  cases problem <;> simp [Problem.FailedLookup, Problem.kind, ErrorCode.category]

/-- Levels are set if both are known, and nothing else changes. -/
theorem exists_withLevels {d : Diagnostic} (hnone : d.levels = none)
    (required actual : Option Level) :
    ∃ levels, d.withLevels required actual = { d with levels := levels } ∧
      ∀ pair, levels = some pair ↔ required = some pair.required ∧ actual = some pair.actual := by
  cases required with
  | none => exact ⟨d.levels, rfl, by simp [hnone]⟩
  | some required =>
    cases actual with
    | none => exact ⟨d.levels, rfl, by simp [hnone]⟩
    | some actual =>
      refine ⟨some ⟨required, actual⟩, rfl, fun ⟨required', actual'⟩ => ?_⟩
      simp

theorem presents_toDiagnostic (finding : Finding) : Presents finding finding.toDiagnostic := by
  obtain ⟨message, label, notes, help, hdescribe⟩ := describes_describe finding
  have hpath : (finding.describe.withPath finding.path.text).levels = none := by
    rw [hdescribe]
    rfl
  obtain ⟨levels, hlevels, hiff⟩ :=
    exists_withLevels hpath finding.problem.requiredLevel? finding.problem.actualLevel?
  have hcategory : finding.toDiagnostic.category? =
      some (ErrorCode.problem finding.problem.kind).category := by
    rw [Finding.toDiagnostic, hlevels, hdescribe]
    simp [Diagnostic.category?, Diagnostic.withPath, ErrorCode.ofText?_text]
  obtain ⟨hresolution, hescape⟩ := category_problem_eq finding.problem
  refine ⟨?_, ?_, ⟨label, ?_⟩, ?_, fun h => ?_, fun h => ?_⟩
  case refine_5 => rw [hcategory, hresolution h]
  case refine_6 => rw [hcategory, hescape h]
  all_goals rw [Finding.toDiagnostic, hlevels, hdescribe]
  · rfl
  · rfl
  · rfl
  · exact hiff

/-! ## Whole reports -/

theorem presents_diagnostics (report : Report) :
    List.Forall₂ Presents report.findings report.diagnostics := by
  rw [Report.diagnostics, List.forall₂_map_right_iff, List.forall₂_same]
  exact fun finding _ => presents_toDiagnostic finding

theorem count_diagnostics (report : Report) (name source : String) :
    (Batch.mk name source report.diagnostics).count .error = report.findings.length ∧
      (Batch.mk name source report.diagnostics).count .warning = 0 := by
  have hall : ∀ d ∈ report.diagnostics, d.severity = .error := by
    rw [Report.diagnostics, List.forall_mem_map]
    exact fun finding _ => (presents_toDiagnostic finding).severity
  constructor
  · rw [Batch.count, List.countP_eq_length.2 fun d hd => by simp [hall d hd], Report.diagnostics,
      List.length_map]
  · exact List.countP_eq_zero.2 fun d hd => by simp [hall d hd]

/-- The object that the diagnostics of a report are written as tells its verdict. -/
theorem member?_diagnostics (report : Report) (name source : String) :
    (Batch.mk name source report.diagnostics).toJson.member? "success" = some (.bool report.isOk) ∧
      (Batch.mk name source report.diagnostics).toJson.member? "error_count" =
        some (.nat report.findings.length) ∧
      (Batch.mk name source report.diagnostics).toJson.member? "warning_count" = some (.nat 0) := by
  obtain ⟨herrors, hwarnings⟩ := count_diagnostics report name source
  have hsuccess : (Batch.mk name source report.diagnostics).success = report.isOk := by
    rw [Batch.success, herrors, Report.isOk]
    cases report.findings <;> rfl
  simp [Batch.toJson, hsuccess, herrors, hwarnings]

/-! ## Rejected bodies -/

theorem category_malformed (mistake : Malformed) (body : Body) :
    mistake.toDiagnostic.category? = some .frontend ∧
      (mistake.toDiagnosticIn body).category? = some .frontend := by
  have hcode : ErrorCode.ofText? ErrorCode.malformed.text = some .malformed :=
    ErrorCode.ofText?_text _
  refine ⟨congrArg (Option.map ErrorCode.category) hcode, ?_⟩
  unfold Malformed.toDiagnosticIn
  split <;> exact congrArg (Option.map ErrorCode.category) hcode

/-- What is found is told in order, one error for each finding, with a verdict that is the same; and
a rejected body is told as a mistake of the front end, with one label, at the node of the mistake,
unless the root is missing. -/
theorem verdict_presented (body : Body) (ctx : Context) :
    (body.validate ctx.config.maxDepth = .ok () →
      ∃ report, body.check ctx = .ok report ∧
        List.Forall₂ Presents report.findings report.diagnostics ∧
        ∀ name source,
          let json := (Batch.mk name source report.diagnostics).toJson
          json.member? "success" = some (.bool report.isOk) ∧
            json.member? "error_count" = some (.nat report.findings.length) ∧
            json.member? "warning_count" = some (.nat 0)) ∧
    ∀ mistake, body.validate ctx.config.maxDepth = .error mistake →
      body.check ctx = .error mistake ∧
        mistake.toDiagnostic.category? = some .frontend ∧
        (mistake.toDiagnosticIn body).category? = some .frontend ∧
        mistake.toDiagnostic.labels = [] ∧
        (∀ root size, mistake = .missingRoot root size →
          (mistake.toDiagnosticIn body).labels = []) ∧
        (mistake.AtNode → ∃ node, body.node? mistake.node = some node ∧
          (mistake.toDiagnosticIn body).labels =
            [⟨node.span, true, s!"in {node.expr.describe}"⟩]) := by
  constructor
  · intro hvalid
    obtain ⟨report, _, _, hcheck, -⟩ := Context.exists_check (Body.isTree_of_validate hvalid)
    exact ⟨report, hcheck, presents_diagnostics report, member?_diagnostics report⟩
  · intro mistake hinvalid
    obtain ⟨hcategory, hcategory'⟩ := category_malformed mistake body
    refine ⟨Context.check_rejected hinvalid, hcategory, hcategory', rfl, ?_, ?_⟩
    · rintro root size rfl
      rcases Body.validate_eq_error hinvalid with ⟨hroot, hnone⟩ | ⟨hat, -⟩
      · cases hroot
        rw [Malformed.toDiagnosticIn, Malformed.node, hnone]
        rfl
      · exact absurd rfl (hat root size)
    · intro hat
      rcases Body.validate_eq_error hinvalid with ⟨hroot, -⟩ | ⟨-, node, hnode⟩
      · exact absurd hroot (hat _ _)
      · refine ⟨node, hnode, ?_⟩
        rw [Malformed.toDiagnosticIn, hnode]
        rfl

/-- No names and no shapes. -/
def namelessCtx : Context where
  bindings := .ofList []
  shapes := .ofList []
  config := { maxDepth := 8 }

/-- `return x` -/
def undeclaredBody : Body := ⟨"undeclared", #[⟨.var "x", ⟨7, 8⟩⟩, ⟨.ret ⟨0⟩ .value, ⟨0, 8⟩⟩], ⟨1⟩⟩

/-- A block in itself. -/
def circleBody : Body := ⟨"circle", #[⟨.literal, ⟨0, 1⟩⟩, ⟨.block [⟨0⟩, ⟨1⟩], ⟨2, 9⟩⟩], ⟨1⟩⟩

/-- No nodes. -/
def emptyBody : Body := ⟨"empty", #[], ⟨0⟩⟩

/-- The unknown name is one error, the circle is labelled at the block, and the missing root is
not labelled. -/
theorem verdict_presented_at_circle :
    (∃ report, undeclaredBody.check namelessCtx = .ok report ∧
      report.findings.map (·.node) = [⟨0⟩] ∧
      List.Forall₂ Presents report.findings report.diagnostics ∧
      (Batch.mk "undeclared" "return x" report.diagnostics).toJson.member? "error_count" =
        some (.nat report.findings.length)) ∧
    (circleBody.check namelessCtx = .error (.sharedNode ⟨1⟩) ∧
      ((Malformed.sharedNode ⟨1⟩).toDiagnosticIn circleBody).labels =
        [⟨⟨2, 9⟩, true, "in block"⟩]) ∧
    (emptyBody.check namelessCtx = .error (.missingRoot ⟨0⟩ 0) ∧
      ((Malformed.missingRoot ⟨0⟩ 0).toDiagnosticIn emptyBody).labels = []) := by
  have hundeclared : undeclaredBody.validate namelessCtx.config.maxDepth = .ok () := by cbv
  have hcircle : circleBody.validate namelessCtx.config.maxDepth = .error (.sharedNode ⟨1⟩) := by
    cbv
  have hempty : emptyBody.validate namelessCtx.config.maxDepth = .error (.missingRoot ⟨0⟩ 0) := by
    cbv
  obtain ⟨report, hcheck, hpresents, hjson⟩ :=
    (verdict_presented undeclaredBody namelessCtx).1 hundeclared
  obtain ⟨hcircle', -, -, -, -, hlabel⟩ := (verdict_presented circleBody namelessCtx).2 _ hcircle
  obtain ⟨hempty', -, -, -, hnone, -⟩ := (verdict_presented emptyBody namelessCtx).2 _ hempty
  have hnodes : (undeclaredBody.check namelessCtx).map (·.findings.map (·.node)) = .ok [⟨0⟩] := by
    cbv
  refine ⟨⟨report, hcheck, Report.eq_of_map_check hcheck hnodes, hpresents,
    (hjson "undeclared" "return x").2.1⟩, ⟨hcircle', ?_⟩, hempty', hnone _ _ rfl⟩
  obtain ⟨node, hnode, hlabels⟩ := hlabel fun _ _ h => by cases h
  cases hnode
  exact hlabels

end FrameEscape
