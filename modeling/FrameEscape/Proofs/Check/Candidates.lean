import FrameEscape.Proofs.ByteOrder
import FrameEscape.Proofs.Check.Respelling

/-!
# Candidates

A failed look-up is reported together with the names that could have been found. For a variable these
are the bindings and the declarations that are visible at the node, for a shape the registered ones,
each name once. For a member they are the fields and methods of the shape that was looked into, and
as many times as it has them (`Finding.Offers`). All lists are in the order of UTF-8 bytes.

Which declarations are visible is known from the tree, and the scope that the run has at the node is
not mentioned in the statement.
-/

namespace FrameEscape

/-- The list has the names that `P` holds of, in strictly increasing order of their bytes. -/
structure Names.Lists (names : List String) (P : String → Prop) : Prop where
  increasing : (names.map Names.bytes).Pairwise (· < ·)
  mem_iff : ∀ name, name ∈ names ↔ P name

theorem Names.lists_of_sorted {names : List String} {P : String → Prop}
    (hsorted : names.Pairwise (· < ·)) (hmem : ∀ name, name ∈ names ↔ P name) :
    Names.Lists names P :=
  ⟨List.pairwise_map.2 (hsorted.imp Names.bytes_lt), hmem⟩

/-- The candidates for a member of the value: none if the value has no shape, and otherwise the
members of its shape, which is a registered one and has the name that is reported. -/
inductive Value.Members (ctx : Context) (value : Value) : String → List String → Prop where
  | shapeless (hnone : value.shape = none) : Members ctx value "value without members" []
  | shaped {shapeName shape candidates} (hname : value.shape = some shapeName)
      (hshape : ctx.shapes.get? shapeName = some shape)
      (hsorted : (candidates.map Names.bytes).Pairwise (· ≤ ·))
      (hperm : candidates.Perm (shape.fields.map (·.name) ++ shape.methods.map (·.name))) :
    Members ctx value shapeName candidates

/-- The candidates of a failed look-up are the names that could have been found at the node. -/
def Finding.Offers (ctx : Context) (body : Body) (report : Report) (finding : Finding) : Prop :=
  match finding.problem with
  | .unknownBinding sought inScope =>
    sought ∉ inScope ∧ Names.Lists inScope fun name =>
      (∃ binding, ctx.bindings.get? name = some binding) ∨
        body.Visible name finding.path.positions
  | .unknownShape sought candidates =>
    sought ∉ candidates ∧ Names.Lists candidates fun name =>
      ∃ shape, ctx.shapes.get? name = some shape
  | .unknownMember shapeName _ candidates =>
    ∃ node child value, body.node? finding.node = some node ∧
      node.expr.children.head? = some child ∧ report.value? child = some (.known value) ∧
        value.Members ctx shapeName candidates
  | _ => True

/-! ## Each kind of look-up -/

theorem exists_head?_of_rel {α β : Type} {R : α → β → Prop} {as : List α} {b : β} {bs : List β}
    (h : List.Forall₂ R as (b :: bs)) : ∃ a, as.head? = some a ∧ R a b := by
  cases h with
  | cons hab _ => exact ⟨_, rfl, hab⟩

section

variable {ctx : Context} {body : Body} {report : Report} {finding : Finding} {w : Visit}
  {node : Node} {before inside : Scope} {inputs : Expr Resolved}

theorem Finding.offers_of_var {sought : String}
    (hbehind : ctx.Behind body (fun child value => report.value? child = some value) w
      finding.path.positions node before inside (.var sought))
    (hscope : inside.get? sought = none) (hbinding : ctx.bindings.get? sought = none)
    (hproblem : finding.problem = .unknownBinding sought (ctx.namesInScope inside)) :
    finding.Offers ctx body report := by
  have hmem : ∀ name, name ∈ ctx.namesInScope inside ↔
      (∃ binding, ctx.bindings.get? name = some binding) ∨
        body.Visible name finding.path.positions := by
    intro name
    rw [Context.namesInScope, Names.mem_union, hbehind.mem_names_iff_of_var,
      NameTable.mem_names_iff, or_comm]
  rw [Offers, hproblem]
  refine ⟨fun hfound => ?_, ?_⟩
  -- If it were in the list, the look-up would have found it.
  · rcases Names.mem_union.1 hfound with hdeclared | hbound
    · exact Scope.get?_eq_none_iff.1 hscope hdeclared
    · obtain ⟨binding, hsome⟩ := NameTable.mem_names_iff.1 hbound
      cases hbinding.symm.trans hsome
  · exact Names.lists_of_sorted (Names.union_sorted _ ctx.bindings.names_sorted) hmem

theorem Finding.offers_of_shape {sought : String} (hunknown : ctx.shapes.get? sought = none)
    (hproblem : finding.problem = .unknownShape sought ctx.shapes.names) :
    finding.Offers ctx body report := by
  rw [Offers, hproblem]
  refine ⟨fun hfound => ?_, ?_⟩
  · obtain ⟨shape, hsome⟩ := NameTable.mem_names_iff.1 hfound
    cases hunknown.symm.trans hsome
  · exact Names.lists_of_sorted ctx.shapes.names_sorted fun name => NameTable.mem_names_iff

/-- What a member is looked up in is the first child of the node. -/
theorem Finding.offers_of_member {α : Type} {find : Shape → Option α} {value : Value}
    {key : String} {others : List Resolved} (hnode : body.node? finding.node = some node)
    (hchildren : List.Forall₂ (fun child value => report.value? child = some value)
      node.expr.children (.known value :: others))
    (hmember : ctx.member value key find = .error finding.problem) :
    finding.Offers ctx body report := by
  obtain ⟨child, hchild, hvalue⟩ := exists_head?_of_rel hchildren
  rcases Context.member_eq_error hmember with
    ⟨hnone, hproblem⟩ | ⟨shapeName, hunknown, hproblem⟩ |
      ⟨shapeName, shape, hname, hshape, -, hproblem⟩
  · rw [Offers, hproblem]
    exact ⟨node, child, value, hnode, hchild, hvalue, .shapeless hnone⟩
  · exact offers_of_shape hunknown hproblem
  · rw [Offers, hproblem]
    refine ⟨node, child, value, hnode, hchild, hvalue, .shaped hname hshape ?_ ?_⟩
    · exact List.pairwise_map.2 ((Names.sort_sorted _).imp Names.bytes_le)
    · exact Names.sort_perm _

theorem Finding.offers_of_misses
    (hbehind : ctx.Behind body (fun child value => report.value? child = some value) w
      finding.path.positions node before inside inputs)
    (hid : w.node = finding.node) (hmisses : ctx.Misses inside inputs finding.problem) :
    finding.Offers ctx body report := by
  have hnode : body.node? finding.node = some node := hid ▸ hbehind.node_eq
  generalize hproblem : finding.problem = problem at hmisses
  cases hmisses with
  | var hscope hbinding => exact offers_of_var hbehind hscope hbinding hproblem
  | alloc hshape | construct hshape =>
    obtain ⟨hunknown, hunknownShape⟩ := Context.shape_eq_error_iff.1 hshape
    exact offers_of_shape hunknown (hproblem.trans hunknownShape)
  | field hmember | call hmember | index hmember =>
    subst hproblem
    exact offers_of_member hnode hbehind.rel.children hmember

end

/-! ## The headline -/

/-- **Candidates are exact.** A look-up that fails is reported with the names that there are at the
node, all of them and no others, and in order. A variable or a shape that was sought is not among
them. -/
theorem candidates_exact {ctx : Context} {body : Body} {report : Report}
    (hcheck : body.check ctx = .ok report) :
    ∀ finding ∈ report.findings, finding.Offers ctx body report := by
  intro finding hfinding
  by_cases hfailed : finding.problem.FailedLookup
  · obtain ⟨w, node, before, inside, inputs, hbehind, hid, hmisses⟩ :=
      Context.misses_of_finding hcheck hfinding hfailed
    exact Finding.offers_of_misses hbehind hid hmisses
  · unfold Finding.Offers
    cases hproblem : finding.problem with
    | unknownBinding | unknownMember | unknownShape =>
      exact absurd hfailed (by simp [hproblem, Problem.FailedLookup, Problem.kind])
    | _ => trivial

/-- `{ let b = 1; { let a = 1 }; c; d.x }` -/
def forgottenBody : Body where
  name := "forgotten"
  nodes := #[⟨.literal, .zero⟩, ⟨.declare "b" ⟨0⟩, .zero⟩, ⟨.literal, .zero⟩,
    ⟨.declare "a" ⟨2⟩, .zero⟩, ⟨.block [⟨3⟩], .zero⟩, ⟨.var "c", .zero⟩, ⟨.var "d", .zero⟩,
    ⟨.field ⟨6⟩ "x", .zero⟩, ⟨.block [⟨1⟩, ⟨4⟩, ⟨5⟩, ⟨7⟩], .zero⟩]
  root := ⟨8⟩

/-- A field and a method share their name. -/
def forgottenContext : Context where
  bindings := .ofList [("b", ⟨.heap, false, none⟩), ("d", ⟨.heap, false, some "S"⟩)]
  shapes := .ofList [("S", ⟨[⟨"y", .heap, none⟩], [⟨"y", .ref, [], .value, none⟩], none⟩)]
  config := {}

/-- The name that is declared and bound is listed once, the one that the block forgets is not, and
the members that share their name are listed twice. -/
theorem candidates_exact_at_forgotten :
    ∃ report, forgottenBody.check forgottenContext = .ok report ∧
      report.findings = [⟨.unknownBinding "c" ["b", "d"], ⟨5⟩, ⟨[2]⟩, .zero⟩,
        ⟨.unknownMember "S" "x" ["y", "y"], ⟨7⟩, ⟨[3]⟩, .zero⟩] ∧
      ¬ forgottenBody.Visible "a" [2] ∧
      ∀ finding ∈ report.findings, finding.Offers forgottenContext forgottenBody report := by
  have hvalid : forgottenBody.validate forgottenContext.config.maxDepth = .ok () := by cbv
  obtain ⟨report, _, _, hcheck, -⟩ :=
    forgottenContext.exists_check (Body.isTree_of_validate hvalid)
  have hfindings : report.findings = [⟨.unknownBinding "c" ["b", "d"], ⟨5⟩, ⟨[2]⟩, .zero⟩,
      ⟨.unknownMember "S" "x" ["y", "y"], ⟨7⟩, ⟨[3]⟩, .zero⟩] :=
    Report.eq_of_map_check hcheck (by cbv)
  refine ⟨report, hcheck, hfindings, fun hvisible => ?_, candidates_exact hcheck⟩
  obtain ⟨-, hlists⟩ := candidates_exact hcheck _ (hfindings ▸ List.mem_cons_self)
  exact absurd ((hlists.mem_iff "a").2 (.inr hvisible)) (by decide)

end FrameEscape
