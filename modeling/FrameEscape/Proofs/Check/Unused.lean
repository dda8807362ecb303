import FrameEscape.Proofs.Check.Lockstep
import Mathlib

/-!
# Declarations that a body does not use

A binding is looked up by the variables of its name. A shape is looked up by the expressions that
name it and through the values that are of it, which come from such expressions, from bindings, and
from the fields, results and elements of shapes that were looked up before. So there may be a group
of bindings and shapes that the body and all other declarations leave alone.

Two contexts that differ in such a group only (`Context.AgreeBut`) go through a body in lockstep
with the same values, none of which is of a shape in the group (`Context.AgreeBut.lockstepOn`). No
look-up tells the contexts apart. All that changes is what failed look-ups list: a declaration that
is not used is inert (`unused_inert`).
-/

namespace FrameEscape

/-! ## Names that are listed -/

/-- The problem, without some names of bindings and of shapes in what it lists. -/
def Problem.hiding (bindings shapes : List String) : Problem → Problem
  | unknownBinding name inScope => unknownBinding name (inScope.filter (· ∉ bindings))
  | unknownShape name candidates => unknownShape name (candidates.filter (· ∉ shapes))
  | problem => problem

/-- The finding, without some names of bindings and of shapes in what it lists. -/
def Finding.hiding (bindings shapes : List String) (finding : Finding) : Finding :=
  { finding with problem := finding.problem.hiding bindings shapes }

/-! ## What mentions a shape -/

/-- The shape that the expression allocates memory for or constructs. -/
def Expr.shapeName? {α : Type} : Expr α → Option String
  | .alloc _ shape => shape
  | .construct shape _ => some shape
  | _ => none

namespace Shape

/-- The shapes of the fields, of the results of the methods and of the elements. -/
def references (shape : Shape) : List String :=
  shape.fields.filterMap (·.shape) ++ shape.methods.filterMap (·.result) ++
    (shape.indexer.bind (·.element)).toList

variable {shape : Shape} {name : String}

theorem mem_references_of_field {field : Field} (hfield : field ∈ shape.fields)
    (hname : field.shape = some name) : name ∈ shape.references :=
  List.mem_append_left _ (List.mem_append_left _ (List.mem_filterMap.2 ⟨field, hfield, hname⟩))

theorem mem_references_of_method {method : Method} (hmethod : method ∈ shape.methods)
    (hname : method.result = some name) : name ∈ shape.references :=
  List.mem_append_left _ (List.mem_append_right _ (List.mem_filterMap.2 ⟨method, hmethod, hname⟩))

theorem mem_references_of_indexer {indexer : Indexer} (hindexer : shape.indexer = some indexer)
    (hname : indexer.element = some name) : name ∈ shape.references := by
  refine List.mem_append_right _ (Option.mem_toList.2 ?_)
  rw [hindexer]
  exact hname

end Shape

/-- The shape, if there is one, is none of the group. -/
def Outside (shapes : List String) (shape? : Option String) : Prop :=
  ∀ name, shape? = some name → name ∉ shapes

/-- The expression uses none of the bindings and names none of the shapes. -/
structure Expr.Avoids {α : Type} (bindings shapes : List String) (expr : Expr α) : Prop where
  vars : ∀ name, expr = .var name → name ∉ bindings
  shapes : Outside shapes expr.shapeName?

/-- The contexts agree but for a group of bindings and shapes, and what they agree on does not refer
to a shape in the group. -/
structure Context.AgreeBut (bindings shapes : List String) (ctx ctx' : Context) : Prop where
  config_eq : ctx.config = ctx'.config
  bindings_eq : ∀ name, name ∉ bindings → ctx.bindings.get? name = ctx'.bindings.get? name
  shapes_eq : ∀ name, name ∉ shapes → ctx.shapes.get? name = ctx'.shapes.get? name
  bindings_outside : ∀ name binding, name ∉ bindings → ctx.bindings.get? name = some binding →
    Outside shapes binding.shape
  shapes_outside : ∀ name shape, name ∉ shapes → ctx.shapes.get? name = some shape →
    ∀ other ∈ shape.references, other ∉ shapes

/-- The values are the same, and of no shape in the group. -/
structure Resolved.SameOutside (shapes : List String) (value value' : Resolved) : Prop where
  eq : value = value'
  outside : ∀ known, value = .known known → Outside shapes known.shape

/-- The verdicts are the same but for what their problems list, and the value is of no shape in the
group. -/
structure Verdict.SameBut (bindings shapes : List String) (verdict verdict' : Verdict) : Prop where
  value : verdict.value.SameOutside shapes verdict'.value
  problem : verdict.problem?.map (·.hiding bindings shapes) =
    verdict'.problem?.map (·.hiding bindings shapes)

/-- Both look-ups find the same, which has the property, or fail with problems that are the same but
for what they list. -/
inductive LookupSame (bindings shapes : List String) {α : Type} (P : α → Prop)
    (found found' : Except Problem α) : Prop where
  | ok {a} (h : found = .ok a) (h' : found' = .ok a) (hP : P a)
  | error {problem problem'} (h : found = .error problem) (h' : found' = .error problem')
    (hhiding : problem.hiding bindings shapes = problem'.hiding bindings shapes)

variable {bindings shapes : List String} {ctx ctx' : Context}

/-! ## Values and verdicts -/

theorem outside_none : Outside shapes none := nofun

theorem outside_some {name : String} (h : name ∉ shapes) : Outside shapes (some name) :=
  fun _ heq => Option.some.inj heq ▸ h

namespace Resolved.SameOutside

variable {value value' : Resolved}

theorem poisoned : Resolved.poisoned.SameOutside shapes .poisoned := ⟨rfl, nofun⟩

theorem known {value : Value} (h : Outside shapes value.shape) :
    (Resolved.known value).SameOutside shapes (.known value) :=
  ⟨rfl, fun _ heq => known.inj heq ▸ h⟩

theorem unit : (Resolved.known .unit).SameOutside shapes (.known .unit) := known outside_none

theorem asLocal (h : value.SameOutside shapes value') :
    value.asLocal.SameOutside shapes value'.asLocal := by
  obtain ⟨rfl, houtside⟩ := h
  cases value with
  | poisoned => exact .poisoned
  | known value => exact .known (houtside value rfl)

end Resolved.SameOutside

theorem eq_of_sameOutside {values values' : List Resolved}
    (h : List.Forall₂ (Resolved.SameOutside shapes) values values') : values = values' :=
  List.forall₂_eq_eq_eq ▸ h.imp fun _ _ hvalue => hvalue.eq

namespace Verdict.SameBut

theorem ok {value value' : Resolved} (h : value.SameOutside shapes value') :
    (Verdict.ok value).SameBut bindings shapes (.ok value') :=
  ⟨h, rfl⟩

theorem poisoned {problem problem' : Problem}
    (h : problem.hiding bindings shapes = problem'.hiding bindings shapes) :
    Verdict.SameBut bindings shapes ⟨.poisoned, some problem⟩ ⟨.poisoned, some problem'⟩ :=
  ⟨.poisoned, congrArg some h⟩

theorem statement (problem? : Option Problem) :
    (Verdict.statement problem?).SameBut bindings shapes (.statement problem?) :=
  ⟨.unit, rfl⟩

end Verdict.SameBut

theorem LookupSame.ofExcept {α : Type} {P : α → Prop} {found found' : Except Problem α}
    (h : LookupSame bindings shapes P found found') {f : α → Value}
    (hf : ∀ a, P a → Outside shapes (f a).shape) :
    (Verdict.ofExcept (found.map f)).SameBut bindings shapes (.ofExcept (found'.map f)) := by
  cases h with
  | ok h h' hP =>
    rw [h, h']
    exact .ok (.known (hf _ hP))
  | error h h' hhiding =>
    rw [h, h']
    exact .poisoned hhiding

theorem Resolved.SameOutside.andThen {value value' : Resolved}
    (h : value.SameOutside shapes value') {next next' : Value → Verdict}
    (hnext : ∀ known, Outside shapes known.shape →
      (next known).SameBut bindings shapes (next' known)) :
    (value.andThen next).SameBut bindings shapes (value'.andThen next') := by
  obtain ⟨rfl, houtside⟩ := h
  cases value with
  | poisoned => exact .ok .poisoned
  | known value => exact hnext value (houtside value rfl)

/-! ## Lists of names -/

/-- Tables that agree but for some names list the others alike. -/
theorem NameTable.filter_names_eq {α : Type} {hidden : List String} {table table' : NameTable α}
    (h : ∀ name, name ∉ hidden → table.get? name = table'.get? name) :
    table.names.filter (· ∉ hidden) = table'.names.filter (· ∉ hidden) := by
  refine (table.names_sorted.filter _).eq_of_mem_iff (table'.names_sorted.filter _) fun name => ?_
  simp only [List.mem_filter, decide_eq_true_eq, mem_names_iff]
  refine and_congr_left fun hname => ?_
  rw [h name hname]

theorem Names.filter_union_eq {hidden more names names' : List String}
    (sorted : names.Pairwise (· < ·)) (sorted' : names'.Pairwise (· < ·))
    (h : names.filter (· ∉ hidden) = names'.filter (· ∉ hidden)) :
    (union more names).filter (· ∉ hidden) = (union more names').filter (· ∉ hidden) := by
  refine ((union_sorted more sorted).filter _).eq_of_mem_iff
    ((union_sorted more sorted').filter _) fun name => ?_
  have hname : name ∈ names.filter (· ∉ hidden) ↔ name ∈ names'.filter (· ∉ hidden) := by rw [h]
  simp only [List.mem_filter, decide_eq_true_eq, mem_union] at hname ⊢
  tauto

/-! ## The rules -/

namespace Context.AgreeBut

/-- The result of a member is of the shape that the member gives it, or of none. -/
theorem outside_callResult {config : Config} {receiver : Value} {returns : ReturnKind}
    {result : Option String} {member : String} (h : Outside shapes result) :
    Outside shapes (config.callResult receiver returns result member).shape := by
  cases returns with
  | unit => exact outside_none
  | _ => exact h

variable (h : ctx.AgreeBut bindings shapes ctx')
include h

theorem shape {name : String} (hname : name ∉ shapes) :
    LookupSame bindings shapes (fun shape => ∀ other ∈ shape.references, other ∉ shapes)
      (ctx.shape name) (ctx'.shape name) := by
  unfold Context.shape
  rw [← h.shapes_eq name hname]
  cases hshape : ctx.shapes.get? name with
  | some shape => exact .ok rfl rfl (h.shapes_outside name shape hname hshape)
  | none =>
    have hnames := NameTable.filter_names_eq h.shapes_eq
    exact .error rfl rfl (congrArg (Problem.unknownShape name) hnames)

/-- A member is found in the shape of a value, which refers to no shape in the group. -/
theorem member {α : Type} {P : α → Prop} {value : Value} (hvalue : Outside shapes value.shape)
    (name : String) {find : Shape → Option α}
    (hfind : ∀ shape a, find shape = some a → (∀ other ∈ shape.references, other ∉ shapes) →
      P a) :
    LookupSame bindings shapes P (ctx.member value name find) (ctx'.member value name find) := by
  unfold Context.member
  cases hshape : value.shape with
  | none => exact .error rfl rfl rfl
  | some shapeName =>
    simp only
    cases h.shape (hvalue shapeName hshape) with
    | error hfound hfound' hhiding =>
      rw [hfound, hfound']
      exact .error rfl rfl hhiding
    -- What the shape refers to is outside of the group, and the member is part of the shape.
    | @ok shape hfound hfound' hrefers =>
      rw [hfound, hfound']
      simp only
      cases hmember : find shape with
      | none => exact .error rfl rfl rfl
      | some a => exact .ok rfl rfl (hfind shape a hmember hrefers)

theorem resolveVar {name : String} (hname : name ∉ bindings) {scope scope' : Scope}
    (hscope : scope.Rel (Resolved.SameOutside shapes) scope') :
    (ctx.resolveVar scope name).SameBut bindings shapes (ctx'.resolveVar scope' name) := by
  have hlocal := hscope.get? name
  have hnames : (ctx.namesInScope scope).filter (· ∉ bindings) =
      (ctx'.namesInScope scope').filter (· ∉ bindings) := by
    unfold namesInScope
    rw [hscope.names_eq]
    exact Names.filter_union_eq ctx.bindings.names_sorted ctx'.bindings.names_sorted
      (NameTable.filter_names_eq h.bindings_eq)
  unfold Context.resolveVar
  rw [← h.bindings_eq name hname]
  revert hlocal
  -- A local hides what is bound to its name, and has a value that is the same in both runs.
  generalize scope.get? name = local?, scope'.get? name = local?'
  rintro (hvalue | _)
  · exact .ok hvalue
  · cases hbinding : ctx.bindings.get? name with
    | some binding => exact .ok (.known (h.bindings_outside name binding hname hbinding))
    | none => exact .poisoned (congrArg (Problem.unknownBinding name) hnames)

theorem resolveField {base : Value} (hbase : Outside shapes base.shape) (name : String) :
    (ctx.resolveField base name).SameBut bindings shapes (ctx'.resolveField base name) := by
  have hmember : LookupSame bindings shapes (fun field : Field => Outside shapes field.shape)
      (ctx.member base name (·.field? name)) (ctx'.member base name (·.field? name)) :=
    h.member hbase name fun shape field hfield hrefers other hother =>
      hrefers other (Shape.mem_references_of_field (List.mem_of_find?_eq_some hfield) hother)
  exact hmember.ofExcept fun _ hfield => hfield

theorem resolveCall {receiver : Value} (hreceiver : Outside shapes receiver.shape) (name : String)
    (args : List Resolved) :
    (ctx.resolveCall receiver name args).SameBut bindings shapes
      (ctx'.resolveCall receiver name args) := by
  have hmember : LookupSame bindings shapes (fun method : Method => Outside shapes method.result)
      (ctx.member receiver name (·.method? name)) (ctx'.member receiver name (·.method? name)) :=
    h.member hreceiver name fun shape method hmethod hrefers other hother =>
      hrefers other (Shape.mem_references_of_method (List.mem_of_find?_eq_some hmethod) hother)
  unfold Context.resolveCall
  rw [← h.config_eq]
  cases hmember with
  | error hfound hfound' hhiding =>
    rw [hfound, hfound']
    exact .poisoned hhiding
  | ok hfound hfound' hresult =>
    rw [hfound, hfound']
    exact ⟨.known (outside_callResult hresult), rfl⟩

theorem resolveIndex {base : Value} (hbase : Outside shapes base.shape) (position : Resolved)
    (access : Access) :
    (ctx.resolveIndex base position access).SameBut bindings shapes
      (ctx'.resolveIndex base position access) := by
  have hmember : LookupSame bindings shapes
      (fun indexer : Indexer => Outside shapes indexer.element)
      (ctx.member base "[]" (·.indexer)) (ctx'.member base "[]" (·.indexer)) :=
    h.member hbase "[]" fun shape indexer hindexer hrefers other hother =>
      hrefers other (Shape.mem_references_of_indexer hindexer hother)
  unfold Context.resolveIndex
  rw [← h.config_eq]
  cases hmember with
  | error hfound hfound' hhiding =>
    rw [hfound, hfound']
    exact .poisoned hhiding
  | ok hfound hfound' helement =>
    rw [hfound, hfound']
    refine ⟨.known ?_, rfl⟩
    cases access with
    | value => exact helement
    | ref => exact outside_callResult helement

theorem resolveConstruct {name : String} (hname : name ∉ shapes) (args : List Resolved) :
    (ctx.resolveConstruct name args).SameBut bindings shapes
      (ctx'.resolveConstruct name args) := by
  unfold Context.resolveConstruct
  cases h.shape hname with
  | error hfound hfound' hhiding =>
    rw [hfound, hfound']
    exact .poisoned hhiding
  | ok hfound hfound' =>
    rw [hfound, hfound']
    simp only
    split
    · exact .ok .poisoned
    · exact .ok (.known (outside_some hname))

/-- Every kind of node that leaves the group alone has the same value in both contexts, and the same
problem but for what it lists. -/
theorem lockstepOn :
    LockstepOn (Expr.Avoids bindings shapes) (Resolved.SameOutside shapes)
      (Verdict.SameBut bindings shapes) ctx ctx' := by
  refine ⟨Verdict.SameBut.value, Resolved.SameOutside.asLocal, ?_⟩
  intro expr scope scope' inputs inputs' havoids halike hscope hinputs
  cases hinputs with
  | literal => exact .ok .unit
  | alloc region name? =>
    cases name? with
    | none => exact .ok (.known outside_none)
    | some name =>
      cases halike
      -- The body avoids the group, so the name is looked up outside of it.
      have hname : name ∉ shapes := havoids.shapes name rfl
      exact (h.shape hname).ofExcept fun _ _ => outside_some hname
  | var name =>
    cases halike
    exact h.resolveVar (havoids.vars name rfl) hscope
  | field hbase name => exact hbase.andThen fun base houtside => h.resolveField houtside name
  | call hreceiver name hargs =>
    rw [← eq_of_sameOutside hargs]
    exact hreceiver.andThen fun receiver houtside => h.resolveCall houtside name _
  | index hbase hposition access =>
    rw [← hposition.eq]
    exact hbase.andThen fun base houtside => h.resolveIndex houtside _ access
  | slice hbase _ => exact hbase.andThen fun base houtside => .ok (.known houtside)
  | assign htarget hvalue mode =>
    rw [← htarget.eq, ← hvalue.eq]
    exact .statement _
  | construct name hargs =>
    rw [← eq_of_sameOutside hargs]
    cases halike
    exact h.resolveConstruct (havoids.shapes name rfl) _
  | declare name _ => exact .statement none
  | block hstmts => exact .ok (rel_getD (rel_getLast? hstmts) .unit)
  | ret hvalue mode =>
    rw [← hvalue.eq]
    exact .statement _

/-! ## Reports -/

end Context.AgreeBut

theorem Visit.finding?_hiding {w w' : Visit}
    (h : Visit.Rel (Verdict.SameBut bindings shapes) w w') :
    w.finding?.map (·.hiding bindings shapes) = w'.finding?.map (·.hiding bindings shapes) := by
  -- What is hidden is in the problem, so it may be hidden before the place is added to it.
  have hcomm : ∀ v : Visit, v.finding?.map (·.hiding bindings shapes) =
      (v.verdict.problem?.map (·.hiding bindings shapes)).map (⟨·, v.node, v.path, v.span⟩) := by
    intro v
    rw [finding?, Option.map_map, Option.map_map]
    rfl
  rw [hcomm, hcomm, h.verdict.problem, h.node_eq, h.path_eq, h.span_eq]

/-- The body has a report in both contexts: every node has the same level, and the same is found in
the same order, but for the names of the group in what failed look-ups list. -/
def Body.SameReportBut (body : Body) (bindings shapes : List String) (ctx ctx' : Context) : Prop :=
  ∃ report report', body.check ctx = .ok report ∧ body.check ctx' = .ok report' ∧
    (∀ id, report'.level? id = report.level? id) ∧
    report'.findings.map (·.hiding bindings shapes) =
      report.findings.map (·.hiding bindings shapes)

/-- A body that leaves the group alone is reported on alike in both contexts. -/
theorem Context.AgreeBut.sameReportBut (h : ctx.AgreeBut bindings shapes ctx') {body : Body}
    (hvalid : body.validate ctx.config.maxDepth = .ok ())
    (havoids : ∀ id node, body.Reaches id → body.node? id = some node →
      node.expr.Avoids bindings shapes) :
    body.SameReportBut bindings shapes ctx ctx' := by
  have hthroughout : body.Throughout body.root (Expr.Avoids bindings shapes) :=
    fun steps target node hsteps hnode => havoids target node ⟨steps, hsteps⟩ hnode
  obtain ⟨report, report', hcheck, hcheck', hvisits⟩ :=
    h.lockstepOn.exists_check (congrArg Config.maxDepth h.config_eq) hvalid hthroughout
  refine ⟨report, report', hcheck, hcheck', fun id => ?_, ?_⟩
  · refine (Report.level?_eq_of_rel hvisits (fun hverdict => ?_) id).symm
    rw [hverdict.value.eq]
  · rw [Report.findings, Report.findings, List.map_filterMap, List.map_filterMap]
    exact (filterMap_eq_of_rel hvisits Visit.finding?_hiding).symm

/-! ## One declaration that is not used -/

/-- No variable of the body has the name. -/
def Body.NeverReads (body : Body) (name : String) : Prop :=
  ∀ id node, body.Reaches id → body.node? id = some node → node.expr ≠ .var name

/-- Neither the body nor a binding nor another shape mentions the shape. -/
structure Context.Unmentioned (ctx : Context) (body : Body) (name : String) : Prop where
  exprs : ∀ id node, body.Reaches id → body.node? id = some node → node.expr.shapeName? ≠ some name
  bindings : ∀ x binding, ctx.bindings.get? x = some binding → binding.shape ≠ some name
  shapes : ∀ other shape, other ≠ name → ctx.shapes.get? other = some shape →
    name ∉ shape.references

section Single

variable {body : Body} {name : String} {id : NodeId} {node : Node}

theorem outside_nil (shape? : Option String) : Outside [] shape? := fun _ _ => List.not_mem_nil

theorem outside_singleton {shape? : Option String} (h : shape? ≠ some name) :
    Outside [name] shape? :=
  fun _ hother hmem => h (List.mem_singleton.1 hmem ▸ hother)

theorem Body.NeverReads.avoids (h : body.NeverReads name) (hid : body.Reaches id)
    (hnode : body.node? id = some node) : node.expr.Avoids [name] [] where
  vars := fun _ hvar hmem => h id node hid hnode (List.mem_singleton.1 hmem ▸ hvar)
  shapes := outside_nil _

theorem Context.Unmentioned.avoids (h : ctx.Unmentioned body name) (hid : body.Reaches id)
    (hnode : body.node? id = some node) : node.expr.Avoids [] [name] where
  vars := fun _ _ => List.not_mem_nil
  shapes := outside_singleton (h.exprs id node hid hnode)

theorem Context.agreeBut_binding {bindings' : Bindings}
    (hothers : ∀ other, other ≠ name → bindings'.get? other = ctx.bindings.get? other) :
    ctx.AgreeBut [name] [] { ctx with bindings := bindings' } where
  config_eq := rfl
  bindings_eq := fun other hother => (hothers other (List.ne_of_not_mem_cons hother)).symm
  shapes_eq := fun _ _ => rfl
  bindings_outside := fun _ _ _ _ => outside_nil _
  shapes_outside := fun _ _ _ _ _ _ => List.not_mem_nil

theorem Context.Unmentioned.agreeBut (h : ctx.Unmentioned body name) {shapes' : Shapes}
    (hothers : ∀ other, other ≠ name → shapes'.get? other = ctx.shapes.get? other) :
    ctx.AgreeBut [] [name] { ctx with shapes := shapes' } where
  config_eq := rfl
  bindings_eq := fun _ _ => rfl
  shapes_eq := fun other hother => (hothers other (List.ne_of_not_mem_cons hother)).symm
  bindings_outside := fun x binding _ hx => outside_singleton (h.bindings x binding hx)
  shapes_outside := fun other shape hother hshape _ hrefers hmem =>
    h.shapes other shape (List.ne_of_not_mem_cons hother) hshape
      (List.mem_singleton.1 hmem ▸ hrefers)

end Single

/-! ## The headline -/

/-- **What is not used is inert.** Let a body be accepted. Whatever becomes of the binding of a name
that no variable has, and whatever becomes of a shape that nothing mentions (added, replaced or
taken away), every node keeps its level and the same is found in the same order. All that may change
is whether the name is listed: the binding among the names in scope where a variable is unknown, the
shape among the candidates where a shape is unknown. -/
theorem unused_inert {ctx : Context} {body : Body}
    (hvalid : body.validate ctx.config.maxDepth = .ok ()) :
    (∀ name bindings', body.NeverReads name →
        (∀ other, other ≠ name → bindings'.get? other = ctx.bindings.get? other) →
        body.SameReportBut [name] [] ctx { ctx with bindings := bindings' }) ∧
      ∀ name shapes', ctx.Unmentioned body name →
        (∀ other, other ≠ name → shapes'.get? other = ctx.shapes.get? other) →
        body.SameReportBut [] [name] ctx { ctx with shapes := shapes' } := by
  constructor
  · intro name bindings' hreads hothers
    have hagree := Context.agreeBut_binding hothers
    exact hagree.sameReportBut hvalid fun id node hid hnode => hreads.avoids hid hnode
  · intro name shapes' hunmentioned hothers
    have hagree := hunmentioned.agreeBut hothers
    exact hagree.sameReportBut hvalid fun id node hid hnode => hunmentioned.avoids hid hnode

/-- `{ s.f; a; T() }`, where `a` and `T` mean nothing. -/
def lostBody : Body where
  name := "lost"
  nodes := #[⟨.var "s", .zero⟩, ⟨.field ⟨0⟩ "f", .zero⟩, ⟨.var "a", .zero⟩,
    ⟨.construct "T" [], .zero⟩, ⟨.block [⟨1⟩, ⟨2⟩, ⟨3⟩], .zero⟩]
  root := ⟨4⟩

/-- A local with a field. -/
def lostContext : Context where
  bindings := .ofList [("s", ⟨.heap, false, some "S"⟩)]
  shapes := .ofList [("S", ⟨[⟨"f", .heap, none⟩], [], none⟩)]
  config := {}

theorem neverReads_lost : lostBody.NeverReads "b" := by
  intro id node _ hnode
  have hreads : ∀ node ∈ lostBody.nodes, node.expr ≠ .var "b" := by decide
  exact hreads node (Array.mem_of_getElem? hnode)

theorem unmentioned_lost : lostContext.Unmentioned lostBody "B" where
  exprs := by
    intro id node _ hnode
    have hnames : ∀ node ∈ lostBody.nodes, node.expr.shapeName? ≠ some "B" := by decide
    exact hnames node (Array.mem_of_getElem? hnode)
  bindings := by
    intro x binding hx
    have hshape : ∀ e ∈ lostContext.bindings.entries, e.2.shape ≠ some "B" := by decide
    exact hshape (x, binding) (NameTable.get?_eq_some_iff.1 hx)
  shapes := by
    intro other shape _ hother
    have hrefers : ∀ e ∈ lostContext.shapes.entries, "B" ∉ e.2.references := by decide
    exact hrefers (other, shape) (NameTable.get?_eq_some_iff.1 hother)

/-- A binding `b` and a shape `B` that are not used are listed, and change nothing else. -/
theorem unused_inert_at_unknown :
    ∃ bindings' shapes',
      lostBody.SameReportBut ["b"] [] lostContext { lostContext with bindings := bindings' } ∧
      lostBody.SameReportBut [] ["B"] lostContext { lostContext with shapes := shapes' } ∧
      (lostBody.check ⟨bindings', shapes', {}⟩).map Report.findings = .ok
        [⟨.unknownBinding "a" ["b", "s"], ⟨2⟩, ⟨[1]⟩, .zero⟩,
          ⟨.unknownShape "T" ["B", "S"], ⟨3⟩, ⟨[2]⟩, .zero⟩] := by
  have hvalid : lostBody.validate lostContext.config.maxDepth = .ok () := by cbv
  obtain ⟨hbinding, hshape⟩ := unused_inert hvalid
  refine ⟨lostContext.bindings.insert "b" ⟨.stackOnly, true, some "S"⟩,
    lostContext.shapes.insert "B" ⟨[⟨"g", .stackOnly, some "B"⟩], [], none⟩, ?_, ?_, by cbv⟩
  · refine hbinding "b" _ neverReads_lost fun other hother => ?_
    rw [NameTable.get?_insert, if_neg hother]
  · refine hshape "B" _ unmentioned_lost fun other hother => ?_
    rw [NameTable.get?_insert, if_neg hother]

end FrameEscape
