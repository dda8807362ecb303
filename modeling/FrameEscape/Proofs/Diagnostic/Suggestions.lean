import FrameEscape.Diagnostic.Finding
import FrameEscape.Proofs.Check.Poison
import FrameEscape.Proofs.Check.Respelling

/-!
# Suggestions can be followed

When a look-up fails, a near name may be suggested: a name that is visible at the node, a registered
shape, or a member of the shape that was looked into. With the suggested name written at the node
the look-up no longer fails, unless it was for a shape that the node does not name, or for a member
of the other kind: fields and methods are suggested alike, while a field access needs a field and a
call needs a method.
-/

namespace FrameEscape

/-! ## The nearest candidate -/

theorem mem_of_leastFirst {pairs : List (String × Nat)} {pair : String × Nat}
    (h : leastFirst pairs = some pair) : pair ∈ pairs := by
  induction pairs generalizing pair with
  | nil => cases h
  | cons first rest ih =>
    rw [leastFirst] at h
    cases hrest : leastFirst rest with
    | none =>
      rw [hrest] at h
      cases h
      exact List.mem_cons_self
    | some best =>
      rw [hrest] at h
      simp only at h
      split at h <;> cases h
      · exact List.mem_cons_self
      · exact List.mem_cons_of_mem _ (ih hrest)

theorem mem_of_closest? {name nearest : String} {candidates : List String}
    (h : closest? name candidates = some nearest) : nearest ∈ candidates := by
  obtain ⟨pair, hleast, rfl⟩ := Option.map_eq_some_iff.1 h
  obtain ⟨candidate, hcandidate, hpair⟩ := List.mem_filterMap.1 (mem_of_leastFirst hleast)
  split at hpair
  · simp only at hpair
    split at hpair <;> cases hpair
    exact hcandidate
  · cases hpair

/-! ## Hints -/

/-- The help that suggests a name. -/
def hint (name : String) : String := s!"did you mean `{name}`?"

theorem toList_hint (name : String) :
    (hint name).toList = "did you mean `".toList ++ (name.toList ++ "`?".toList) := by
  simp [hint, toString]

theorem hint_injective : Function.Injective hint := by
  intro name name' h
  have hlists := congrArg String.toList h
  rw [toList_hint, toList_hint, List.append_cancel_left_eq, List.append_cancel_right_eq] at hlists
  exact String.toList_inj.1 hlists

theorem head?_hint (name : String) : (hint name).toList.head? = some 'd' := by
  rw [toList_hint]
  rfl

/-- The name that was looked up and those that could have been found, if a look-up failed. -/
def Problem.lookup? : Problem → Option (String × List String)
  | .unknownBinding name candidates | .unknownMember _ name candidates
  | .unknownShape name candidates => some (name, candidates)
  | _ => none

theorem Problem.failedLookup_of_lookup? {problem : Problem} {lookup : String × List String}
    (h : problem.lookup? = some lookup) : problem.FailedLookup := by
  cases problem <;> simp_all [Problem.lookup?, Problem.FailedLookup, Problem.kind]

theorem Diagnostic.help_withLevels (d : Diagnostic) (required actual : Option Level) :
    (d.withLevels required actual).help = d.help := by
  cases required <;> cases actual <;> rfl

theorem Diagnostic.help_withNote? (d : Diagnostic) (note : Option String) :
    (d.withNote? note).help = d.help := by
  cases note <;> rfl

theorem Diagnostic.help_withHelp? (d : Diagnostic) (help : Option String) :
    (d.withHelp? help).help = help.or d.help := by
  cases help <;> rfl

namespace Finding

variable {finding : Finding}

theorem help_toDiagnostic (finding : Finding) :
    finding.toDiagnostic.help = finding.describe.help :=
  Diagnostic.help_withLevels _ _ _

/-- A failed look-up has no help but a hint. -/
theorem help_of_lookup? {sought : String} {candidates : List String}
    (h : finding.problem.lookup? = some (sought, candidates)) :
    finding.toDiagnostic.help = (closest? sought candidates).map hint := by
  rw [help_toDiagnostic]
  obtain ⟨problem, _, _, _⟩ := finding
  cases problem <;> cases h
  all_goals
    simp only [describe, Diagnostic.help_withHelp?, Diagnostic.help_withNote?]
    exact Option.or_none

/-- Help is a hint after a failed look-up, or is about a return. Other help begins with other
letters. -/
theorem help_cases {help : String} (h : finding.toDiagnostic.help = some help) :
    (∃ sought candidates name, finding.problem.lookup? = some (sought, candidates) ∧
      closest? sought candidates = some name ∧ help = hint name) ∨
    (∃ mode required actual, finding.problem = .notReturnable mode required actual ∧
      help = returnHelp mode actual) ∨
    help.toList.head? = some 'r' ∨ help.toList.head? = some 't' := by
  cases hlookup : finding.problem.lookup? with
  | some lookup =>
    rw [help_of_lookup? hlookup] at h
    obtain ⟨name, hnearest, rfl⟩ := Option.map_eq_some_iff.1 h
    exact .inl ⟨_, _, name, rfl, hnearest, rfl⟩
  | none =>
    rw [help_toDiagnostic] at h
    obtain ⟨problem, _, _, _⟩ := finding
    cases problem with
    | unknownBinding | unknownMember | unknownShape => cases hlookup
    | notReturnable mode required actual =>
      cases h
      exact .inr (.inl ⟨mode, required, actual, rfl, rfl⟩)
    | receiverReturned =>
      cases h
      exact .inr (.inr (.inl rfl))
    | mixedArguments =>
      cases h
      exact .inr (.inr (.inr rfl))
    | escapingAssignment mode =>
      cases mode with
      | value => cases h
      | ref =>
        cases h
        exact .inr (.inr (.inl rfl))

theorem closest?_of_help {name : String} (h : finding.toDiagnostic.help = some (hint name)) :
    ∃ sought candidates, finding.problem.lookup? = some (sought, candidates) ∧
      closest? sought candidates = some name := by
  rcases help_cases h with
    ⟨sought, candidates, nearest, hlookup, hnearest, heq⟩ | ⟨mode, _, actual, -, heq⟩ | hfirst | hfirst
  · exact ⟨sought, candidates, hlookup, hint_injective heq ▸ hnearest⟩
  · have hother : (returnHelp mode actual).toList.head? ≠ some 'd' := by
      cases mode <;> cases actual <;> decide
    exact absurd (heq ▸ head?_hint name) hother
  all_goals cases (head?_hint name).symm.trans hfirst

end Finding

/-! ## What a suggestion is good for -/

/-- Whether the node names a shape itself. -/
def Expr.namesShape {α : Type} : Expr α → Bool
  | .alloc _ shape => shape.isSome
  | .construct _ _ => true
  | _ => false

/-- Whether a node of the kind would find a member of the name in the shape. -/
def Expr.finds {α : Type} (expr : Expr α) (shape : Shape) (name : String) : Bool :=
  match expr with
  | .field _ _ => (shape.field? name).isSome
  | .call _ _ _ => (shape.method? name).isSome
  | _ => false

theorem Expr.Alike.namesShape_eq {α β : Type} {expr : Expr α} {expr' : Expr β}
    (h : expr.Alike expr') : expr.namesShape = expr'.namesShape := by
  cases h <;> rfl

theorem Expr.Alike.finds_eq {α β : Type} {expr : Expr α} {expr' : Expr β} (h : expr.Alike expr')
    (shape : Shape) (name : String) : expr.finds shape name = expr'.finds shape name := by
  cases h <;> rfl

section Usable

variable (ctx : Context) (body : Body) (finding : Finding)

/-- The suggested name is another one, which is visible at the node. -/
structure UsableName (sought name : String) : Prop where
  ne : name ≠ sought
  visible : body.Visible name finding.path.positions ∨ name ∈ ctx.bindings.names
  repairs : ctx.Repairs body finding.node name

/-- The suggested shape is another one, which is registered. The node can be repaired if the unknown
shape is named by the node, and not by what its base was made from. -/
structure UsableShape (sought name : String) : Prop where
  ne : name ≠ sought
  registered : name ∈ ctx.shapes.names
  repairs : ∀ node, body.node? finding.node = some node → node.expr.namesShape = true →
    ctx.Repairs body finding.node name

/-- The suggested member is one of the shape. It is another one if the shape has no member of the
name that was sought, and it repairs the node if it is of the kind that the node looks for. -/
structure UsableMember (shape : Shape) (sought name : String) : Prop where
  isMember : name ∈ shape.memberNames
  ne : sought ∉ shape.memberNames → name ≠ sought
  repairs : ∀ node, body.node? finding.node = some node → node.expr.finds shape name = true →
    name ≠ sought ∧ ctx.Repairs body finding.node name

/-- What a suggestion is good for, by what was looked up. -/
def Usable (name : String) : Prop :=
  match finding.problem with
  | .unknownBinding sought _ => UsableName ctx body finding sought name
  | .unknownShape sought _ => UsableShape ctx body finding sought name
  | .unknownMember shapeName sought _ =>
    ∃ shape, ctx.shapes.get? shapeName = some shape ∧
      UsableMember ctx body finding shape sought name
  | _ => False

end Usable

/-! ## The look-up that failed -/

section

variable {ctx : Context} {body : Body} {report : Report} {finding : Finding} {sought name : String}
  {candidates : List String} {w : Visit} {node : Node} {before inside : Scope}
  {inputs : Expr Resolved} {R : NodeId → Resolved → Prop}

theorem Context.bindings_get?_ne_none (hmem : name ∈ ctx.namesInScope inside)
    (hscope : inside.get? name = none) : ctx.bindings.get? name ≠ none := by
  rcases Names.mem_union.1 hmem with hmem | hmem
  · exact absurd hmem (Scope.get?_eq_none_iff.1 hscope)
  · obtain ⟨binding, hbinding⟩ := NameTable.mem_names_iff.1 hmem
    rw [hbinding]
    exact Option.some_ne_none binding

theorem usableName_of_mem (hcheck : body.check ctx = .ok report)
    (hbehind : ctx.Behind body R w finding.path.positions node before inside (.var sought))
    (hid : w.node = finding.node) (hscope : inside.get? sought = none)
    (hbinding : ctx.bindings.get? sought = none) (hmem : name ∈ ctx.namesInScope inside) :
    UsableName ctx body finding sought name := by
  refine ⟨?ne, ?visible, ?repairs⟩
  case ne =>
    rintro rfl
    exact Context.bindings_get?_ne_none hmem hscope hbinding
  case visible =>
    exact (Names.mem_union.1 hmem).imp_left hbehind.mem_names_iff_of_var.1
  case repairs =>
    rw [← hid]
    refine .of_found hcheck hbehind fun problem hmisses => ?_
    cases hmisses with
    | var hscope hbinding => exact Context.bindings_get?_ne_none hmem hscope hbinding

theorem usableShape_of_mem {steps : List Nat} (hcheck : body.check ctx = .ok report)
    (hbehind : ctx.Behind body R w steps node before inside inputs) (hid : w.node = finding.node)
    (hunknown : ctx.shapes.get? sought = none) (hmem : name ∈ ctx.shapes.names) :
    UsableShape ctx body finding sought name := by
  have hregistered : ctx.shapes.get? name ≠ none := by
    obtain ⟨shape, hshape⟩ := NameTable.mem_names_iff.1 hmem
    rw [hshape]
    exact Option.some_ne_none shape
  refine ⟨?ne, hmem, fun node' hnode' hnames => ?_⟩
  case ne =>
    rintro rfl
    exact hregistered hunknown
  rw [← hid] at hnode' ⊢
  cases hbehind.node_eq.symm.trans hnode'
  rw [hbehind.rel.alike.namesShape_eq] at hnames
  refine .of_found hcheck hbehind fun problem hmisses => ?_
  cases inputs with
  | alloc region shape =>
    cases shape with
    | none => cases hnames
    | some _ =>
      cases hmisses with
      | alloc hshape => exact hregistered (Context.shape_eq_error_iff.1 hshape).1
  | construct _ args =>
    cases hmisses with
    | construct hshape => exact hregistered (Context.shape_eq_error_iff.1 hshape).1
  | _ => cases hnames

/-- The candidates are the members of the shape, whatever the node looks for. `hkind` is what there
is to say of a member of the right kind. -/
theorem usable_of_member {α : Type} {find : Shape → Option α} {value : Value} {steps : List Nat}
    {key : String} (hcheck : body.check ctx = .ok report)
    (hbehind : ctx.Behind body R w steps node before inside inputs) (hid : w.node = finding.node)
    (hmember : ctx.member value key find = .error finding.problem)
    (hlookup : finding.problem.lookup? = some (sought, candidates)) (hmem : name ∈ candidates)
    (hkind : ∀ shapeName shape, value.shape = some shapeName →
      ctx.shapes.get? shapeName = some shape → find shape = none →
      inputs.finds shape name = true →
      name ≠ key ∧ ∀ problem, ¬ ctx.Misses inside (inputs.respell name) problem) :
    Usable ctx body finding name := by
  unfold Usable
  rcases Context.member_eq_error hmember with
    ⟨-, hproblem⟩ | ⟨shapeName, hunknown, hproblem⟩ |
      ⟨shapeName, shape, hname, hshape, hfind, hproblem⟩
  all_goals
    rw [hproblem] at hlookup ⊢
    cases hlookup
  · cases hmem
  · exact usableShape_of_mem hcheck hbehind hid hunknown hmem
  · have hisMember : name ∈ shape.memberNames := (Names.sort_perm _).mem_iff.1 hmem
    refine ⟨shape, hshape, hisMember, fun hnone => ?_, fun node' hnode' hfinds => ?_⟩
    · rintro rfl
      exact hnone hisMember
    · rw [← hid] at hnode' ⊢
      cases hbehind.node_eq.symm.trans hnode'
      rw [hbehind.rel.alike.finds_eq] at hfinds
      obtain ⟨hne, hfound⟩ := hkind shapeName shape hname hshape hfind hfinds
      exact ⟨hne, .of_found hcheck hbehind hfound⟩

/-- Each kind of look-up offers what it could have found. -/
theorem usable_of_misses (hcheck : body.check ctx = .ok report)
    (hbehind : ctx.Behind body R w finding.path.positions node before inside inputs)
    (hid : w.node = finding.node) (hmisses : ctx.Misses inside inputs finding.problem)
    (hlookup : finding.problem.lookup? = some (sought, candidates)) (hmem : name ∈ candidates) :
    Usable ctx body finding name := by
  obtain ⟨problem, id, path, span⟩ := finding
  cases hmisses with
  | var hscope hbinding =>
    cases hlookup
    exact usableName_of_mem hcheck hbehind hid hscope hbinding hmem
  | alloc hshape | construct hshape =>
    obtain ⟨hunknown, rfl⟩ := Context.shape_eq_error_iff.1 hshape
    cases hlookup
    exact usableShape_of_mem hcheck hbehind hid hunknown hmem
  | field hmember =>
    refine usable_of_member hcheck hbehind hid hmember hlookup hmem
      fun shapeName shape hname hshape hfind hfinds => ⟨?_, fun problem hmisses => ?_⟩
    · rintro rfl
      exact Option.isSome_iff_ne_none.1 hfinds hfind
    · cases hmisses with
      | field hmissed =>
        have hnone := Context.find_eq_none_of_member hname hshape hmissed
        exact Option.isSome_iff_ne_none.1 hfinds hnone
  | call hmember =>
    refine usable_of_member hcheck hbehind hid hmember hlookup hmem
      fun shapeName shape hname hshape hfind hfinds => ⟨?_, fun problem hmisses => ?_⟩
    · rintro rfl
      exact Option.isSome_iff_ne_none.1 hfinds hfind
    · cases hmisses with
      | call hmissed =>
        have hnone := Context.find_eq_none_of_member hname hshape hmissed
        exact Option.isSome_iff_ne_none.1 hfinds hnone
  | index hmember =>
    refine usable_of_member hcheck hbehind hid hmember hlookup hmem
      fun shapeName shape _ _ _ hfinds => ?_
    cases hfinds

end

/-! ## The headline -/

/-- **A suggestion can be followed.** It is a visible name, a registered shape, or a member of the
shape that was looked into. A visible name repairs the node, and so does a shape if the node names
one, or a member of the kind that the node looks for. -/
theorem suggestion_usable {ctx : Context} {body : Body} {report : Report} {finding : Finding}
    {name : String} (hcheck : body.check ctx = .ok report) (hfinding : finding ∈ report.findings)
    (hhelp : finding.toDiagnostic.help = some s!"did you mean `{name}`?") :
    Usable ctx body finding name := by
  obtain ⟨sought, candidates, hlookup, hclosest⟩ := Finding.closest?_of_help hhelp
  obtain ⟨w, node, before, inside, inputs, hbehind, hid, hmisses⟩ :=
    Context.misses_of_finding hcheck hfinding (Problem.failedLookup_of_lookup? hlookup)
  exact usable_of_misses hcheck hbehind hid hmisses hlookup (mem_of_closest? hclosest)

/-- A value `x` of a shape `S` with a method `Length`, and a value `y` of an unknown shape `T`. -/
def lengthContext : Context where
  bindings := .ofList [("x", ⟨.heap, false, some "S"⟩), ("y", ⟨.heap, false, some "T"⟩)]
  shapes := .ofList [("S", ⟨[], [⟨"Length", .ref, [], .value, none⟩], none⟩)]
  config := {}

/-- `{ let count = 1; coun; new R; x.Lenght() }` -/
def misspelledBody : Body where
  name := "misspelled"
  nodes := #[⟨.literal, .zero⟩, ⟨.declare "count" ⟨0⟩, .zero⟩, ⟨.var "coun", .zero⟩,
    ⟨.alloc .heap (some "R"), .zero⟩, ⟨.var "x", .zero⟩, ⟨.call ⟨4⟩ "Lenght" [], .zero⟩,
    ⟨.block [⟨1⟩, ⟨2⟩, ⟨3⟩, ⟨5⟩], .zero⟩]
  root := ⟨6⟩

/-- Each of the three misspelled names is repaired by the suggestion. -/
theorem suggestion_usable_at_misspelled :
    ∃ report, misspelledBody.check lengthContext = .ok report ∧
      report.findings.map (·.node) = [⟨2⟩, ⟨3⟩, ⟨5⟩] ∧
      ∀ finding ∈ report.findings, ∃ name, name ∈ ["count", "S", "Length"] ∧
        finding.toDiagnostic.help = some s!"did you mean `{name}`?" ∧
        lengthContext.Repairs misspelledBody finding.node name := by
  have hvalid : misspelledBody.validate lengthContext.config.maxDepth = .ok () := by cbv
  obtain ⟨report, _, _, hcheck, -⟩ := Context.exists_check (Body.isTree_of_validate hvalid)
  have hfindings : (misspelledBody.check lengthContext).map Report.findings = .ok
      [⟨.unknownBinding "coun" ["count", "x", "y"], ⟨2⟩, ⟨[1]⟩, .zero⟩,
        ⟨.unknownShape "R" ["S"], ⟨3⟩, ⟨[2]⟩, .zero⟩,
        ⟨.unknownMember "S" "Lenght" ["Length"], ⟨5⟩, ⟨[3]⟩, .zero⟩] := by cbv
  have heq := Report.eq_of_map_check hcheck hfindings
  refine ⟨report, hcheck, congrArg (List.map (·.node)) heq, fun finding hfinding => ?_⟩
  have hmem := hfinding
  rw [heq, List.mem_cons, List.mem_cons, List.mem_singleton] at hmem
  rcases hmem with rfl | rfl | rfl
  · have husable : Usable lengthContext misspelledBody _ "count" :=
      suggestion_usable hcheck hfinding (by decide)
    exact ⟨"count", by decide, by decide, husable.repairs⟩
  · have husable : Usable lengthContext misspelledBody _ "S" :=
      suggestion_usable hcheck hfinding (by decide)
    exact ⟨"S", by decide, by decide, husable.repairs _ rfl rfl⟩
  · have husable : Usable lengthContext misspelledBody _ "Length" :=
      suggestion_usable hcheck hfinding (by decide)
    obtain ⟨shape, hshape, husable⟩ := husable
    cases hshape
    exact ⟨"Length", by decide, by decide, (husable.repairs _ rfl rfl).2⟩

/-- `{ x.Lenght; x.Length; y.Length }`, where no parentheses follow. -/
def uncalledBody : Body where
  name := "uncalled"
  nodes := #[⟨.var "x", .zero⟩, ⟨.field ⟨0⟩ "Lenght", .zero⟩, ⟨.var "x", .zero⟩,
    ⟨.field ⟨2⟩ "Length", .zero⟩, ⟨.var "y", .zero⟩, ⟨.field ⟨4⟩ "Length", .zero⟩,
    ⟨.block [⟨1⟩, ⟨3⟩, ⟨5⟩], .zero⟩]
  root := ⟨6⟩

/-- No suggestion repairs a field access here. The first two suggest the method, which is no field,
and the second by the name that is there. The third suggests a shape, which the access does not
name. -/
theorem suggested_method_is_no_field :
    (lengthContext.shapes.get? "S").map (·.field? "Length") = some none ∧
      ∃ report, uncalledBody.check lengthContext = .ok report ∧
        report.findings.map (fun finding =>
          (finding.node, finding.problem, finding.toDiagnostic.help)) =
          [(⟨1⟩, .unknownMember "S" "Lenght" ["Length"], some "did you mean `Length`?"),
            (⟨3⟩, .unknownMember "S" "Length" ["Length"], some "did you mean `Length`?"),
            (⟨5⟩, .unknownShape "T" ["S"], some "did you mean `S`?")] ∧
        ¬ lengthContext.Repairs uncalledBody ⟨1⟩ "Length" ∧
        ¬ lengthContext.Repairs uncalledBody ⟨3⟩ "Length" ∧
        ¬ lengthContext.Repairs uncalledBody ⟨5⟩ "S" := by
  have hvalid : uncalledBody.validate lengthContext.config.maxDepth = .ok () := by cbv
  obtain ⟨report, _, _, hcheck, -⟩ := Context.exists_check (Body.isTree_of_validate hvalid)
  have hfindings : (uncalledBody.check lengthContext).map Report.findings = .ok
      [⟨.unknownMember "S" "Lenght" ["Length"], ⟨1⟩, ⟨[0]⟩, .zero⟩,
        ⟨.unknownMember "S" "Length" ["Length"], ⟨3⟩, ⟨[1]⟩, .zero⟩,
        ⟨.unknownShape "T" ["S"], ⟨5⟩, ⟨[2]⟩, .zero⟩] := by cbv
  have hfirst : ((uncalledBody.respell ⟨1⟩ "Length").check lengthContext).map
      (·.findings.find? (·.node == ⟨1⟩)) =
      .ok (some ⟨.unknownMember "S" "Length" ["Length"], ⟨1⟩, ⟨[0]⟩, .zero⟩) := by cbv
  have hsecond : ((uncalledBody.respell ⟨3⟩ "Length").check lengthContext).map
      (·.findings.find? (·.node == ⟨3⟩)) =
      .ok (some ⟨.unknownMember "S" "Length" ["Length"], ⟨3⟩, ⟨[1]⟩, .zero⟩) := by cbv
  have hthird : ((uncalledBody.respell ⟨5⟩ "S").check lengthContext).map
      (·.findings.find? (·.node == ⟨5⟩)) =
      .ok (some ⟨.unknownShape "T" ["S"], ⟨5⟩, ⟨[2]⟩, .zero⟩) := by cbv
  refine ⟨by decide, report, hcheck, ?_, Context.not_repairs hfirst (.inr (.inl rfl)),
    Context.not_repairs hsecond (.inr (.inl rfl)), Context.not_repairs hthird (.inr (.inr rfl))⟩
  rw [Report.eq_of_map_check hcheck hfindings]
  decide

end FrameEscape
