import FrameEscape.Proofs.Check.Lockstep
import FrameEscape.Proofs.HashTable
import Mathlib

/-!
# The order of registration

Bindings and shapes are registered one by one, and kept with the locals of each open block in hash
tables that may list them in any order. `HashContext` is what a body is checked against in that
form: look-ups go to the tables, and the names that a failed look-up lists are collected from them
as they come, sorted, and freed of repeated ones. A declaration may rearrange the table of its
block, so a check is a relation (`HashContext.Checks`).

No order shows. A node has the same verdict as with tables in order (`HashContext.Shows.resolve_eq`),
so every run with hash tables is a run of the checker (`HashContext.Run.exists_run`), and there is
always one (`HashContext.Shows.exists_run`). What is reported of a body depends on the last entry
made for each name, and on nothing else about the registration (`registration_order_irrelevant`).
-/

namespace FrameEscape

/-! ## Frames -/

/-- The names declared in the body and visible at a point of it: a table for each block that is
open, the innermost first. -/
abbrev Frames := List (HashTable Resolved)

namespace Frames

/-- The value of the innermost declaration of a name. -/
def get? (frames : Frames) (name : String) : Option Resolved := frames.findSome? (·.lookup name)

/-- The declared names, those of the outermost block first. -/
def names (frames : Frames) : List String := frames.reverse.flatMap (·.keys)

/-- A name has been declared in the innermost block. The first declaration outside of all blocks
opens a table of its own. -/
inductive Declared : Frames → String → Resolved → Frames → Prop where
  | opened {name value table} (h : HashTable.Inserted ∅ name value table) :
    Declared [] name value [table]
  | innermost {frame rest name value frame'} (h : frame.Inserted name value frame') :
    Declared (frame :: rest) name value (frame' :: rest)

/-- The frames and the scope have the same look-ups. -/
def Shows (frames : Frames) (scope : Scope) : Prop := ∀ name, frames.get? name = scope.get? name

variable {frames frames' : Frames} {scope : Scope} {name : String} {value : Resolved}

theorem get?_cons (frame : HashTable Resolved) (frames : Frames) (name : String) :
    get? (frame :: frames) name = (frame.lookup name).or (frames.get? name) := by
  rw [get?, List.findSome?_cons]
  cases frame.lookup name <;> rfl

theorem Declared.get?_eq (h : frames.Declared name value frames') (key : String) :
    frames'.get? key = if key = name then some value else frames.get? key := by
  cases h with
  | opened hinserted =>
    rw [get?_cons, hinserted.lookup_eq]
    split <;> rfl
  | innermost hinserted =>
    rw [get?_cons, get?_cons, hinserted.lookup_eq]
    split <;> rfl

theorem Declared.tail_eq (h : frames.Declared name value frames') :
    frames'.tail = frames.tail := by
  cases h <;> rfl

theorem exists_declared (frames : Frames) (name : String) (value : Resolved) :
    ∃ frames', frames.Declared name value frames' := by
  cases frames with
  | nil => exact ⟨_, .opened (.refl _)⟩
  | cons frame rest => exact ⟨_, .innermost (.refl _)⟩

theorem mem_names_iff : name ∈ frames.names ↔ ∃ value, frames.get? name = some value := by
  simp only [names, get?, List.mem_flatMap, List.mem_reverse, HashTable.mem_keys_iff]
  rw [← Option.isSome_iff_exists, List.findSome?_isSome_iff]
  simp only [Option.isSome_iff_exists]

theorem Shows.mem_names_iff (h : frames.Shows scope) :
    name ∈ frames.names ↔ name ∈ scope.names := by
  rw [Frames.mem_names_iff, h name]
  exact NameTable.mem_map_fst_iff.symm

theorem Shows.declare {init : Resolved} (h : frames.Shows scope)
    (hdeclared : frames.Declared name init.asLocal frames') :
    frames'.Shows (scope.declare name init) := fun key => by
  rw [hdeclared.get?_eq, h key]
  exact (NameTable.lookup_cons_ite key (name, init.asLocal) scope).symm

end Frames

/-! ## The rules, with hash tables

The look-ups and the lists of names are those of hash tables. What is made of them is as in the
rules of `Context` that have the same names. -/

/-- What a body is checked against, in hash tables. -/
structure HashContext where
  bindings : HashTable Binding
  shapes : HashTable Shape
  config : Config

namespace HashContext

/-- The names that may be used: those of the bindings and those declared, sorted, each once. -/
def namesInScope (h : HashContext) (frames : Frames) : List String :=
  Names.dropRepeats (Names.sort (h.bindings.keys ++ frames.names))

def shape (h : HashContext) (name : String) : Except Problem Shape :=
  match h.shapes.lookup name with
  | some shape => .ok shape
  -- The candidates are collected in the order of the table.
  | none => .error (.unknownShape name (Names.sort h.shapes.keys))

def member {α : Type} (h : HashContext) (value : Value) (name : String)
    (find : Shape → Option α) : Except Problem α :=
  match value.shape with
  | none => .error (.unknownMember "value without members" name [])
  | some shapeName =>
    match h.shape shapeName with
    | .error problem => .error problem
    | .ok shape =>
      match find shape with
      | some found => .ok found
      | none => .error (.unknownMember shapeName name (Names.sort shape.memberNames))

def resolveVar (h : HashContext) (frames : Frames) (name : String) : Verdict :=
  match frames.get? name with
  | some value => .ok value
  | none =>
    match h.bindings.lookup name with
    | some binding => .ok (.ofBinding binding)
    | none => ⟨.poisoned, some (.unknownBinding name (h.namesInScope frames))⟩

def resolveField (h : HashContext) (base : Value) (name : String) : Verdict :=
  .ofExcept <| (h.member base name (·.field? name)).map fun field =>
    ⟨base.level.meet field.level, field.shape, base.origin.ofField⟩

def resolveCall (h : HashContext) (receiver : Value) (name : String) (args : List Resolved) :
    Verdict :=
  match h.member receiver name (·.method? name) with
  | .error problem => ⟨.poisoned, some problem⟩
  | .ok method =>
    let positions := (method.receiver, .known receiver) ::
      args.mapIdx fun i arg => (method.paramMode i, arg)
    ⟨.known (h.config.callResult receiver method.returns method.result name),
      h.config.mixedArguments? positions⟩

def resolveIndex (h : HashContext) (base : Value) (position : Resolved) (access : Access) :
    Verdict :=
  match h.member base "[]" (·.indexer) with
  | .error problem => ⟨.poisoned, some problem⟩
  | .ok indexer =>
    let element : Value := match access with
      | .value => .temporary base.level indexer.element
      | .ref => h.config.callResult base indexer.byRef indexer.element "[]"
    ⟨.known { element with origin := base.origin.ofElement element.origin },
      h.config.mixedArguments? [(access, .known base), (.value, position)]⟩

def resolveConstruct (h : HashContext) (name : String) (args : List Resolved) : Verdict :=
  match h.shape name with
  | .error problem => ⟨.poisoned, some problem⟩
  | .ok shape =>
    if args.any Resolved.isPoisoned then .ok .poisoned
    else
      .ok (.known (.temporary ((Level.meetAll (args.map Resolved.level)).meet shape.level)
        (some name)))

/-- The value of a node and what is wrong with it, from the values of its children. -/
def resolve (h : HashContext) (frames : Frames) : Expr Resolved → Verdict
  | .literal => .ok (.known .unit)
  | .alloc region none => .ok (.known (.temporary region.level none))
  | .alloc region (some name) =>
    .ofExcept <| (h.shape name).map fun shape =>
      .temporary (region.level.meet shape.level) (some name)
  | .var name => h.resolveVar frames name
  | .field base name => base.andThen (h.resolveField · name)
  | .call receiver name args => receiver.andThen (h.resolveCall · name args)
  | .index base position access => base.andThen (h.resolveIndex · position access)
  | .slice base _ => base.andThen fun base => .ok (.known (.temporary base.level base.shape))
  | .assign target value mode => .statement (storeProblem? target value mode)
  | .construct name args => h.resolveConstruct name args
  | .declare _ _ => .statement none
  | .block stmts => .ok (stmts.getLast?.getD (.known .unit))
  | .ret value mode => .statement (returnProblem? value mode)

end HashContext

/-- The members that are trusted, collected from the shapes as they come and sorted. -/
def HashTable.trustedMembers (shapes : HashTable Shape) : List String :=
  Names.sort (shapes.entries.flatMap fun e => e.2.trustedMembers e.1)

/-! ## Runs, with hash tables -/

/-- The frames that the children of a node start from: a block opens one. -/
def Expr.enter {α : Type} (expr : Expr α) (frames : Frames) : Frames :=
  match expr with
  | .block _ => ∅ :: frames
  | _ => frames

/-- The frames after a node, from those after its children: a declaration adds a name, and a block
closes the innermost frame. -/
def Expr.Leaves (expr : Expr Resolved) (inside after : Frames) : Prop :=
  match expr with
  | .declare name init => inside.Declared name init.asLocal after
  | .block _ => after = inside.tail
  | _ => after = inside

namespace HashContext

/-- The listed nodes are evaluated in order, as in `Context.Run`, with the names in frames. -/
inductive Run (h : HashContext) (body : Body) :
    List (List Nat × NodeId) → Frames → List Resolved → Frames → List Visit → Prop where
  | nil (frames : Frames) : Run h body [] frames [] frames []
  | cons {steps id rest node inputs before inside left after values visits visits'}
      (hnode : body.node? id = some node) (halike : node.expr.Alike inputs)
      (hkids : Run h body (siblings steps 0 node.expr.children) (node.expr.enter before)
        inputs.children inside visits)
      (hleaves : inputs.Leaves inside left) (hrest : Run h body rest left values after visits') :
      Run h body ((steps, id) :: rest) before ((h.resolve inside inputs).value :: values) after
        (visits ++ ⟨id, .ofSteps steps, node.span, h.resolve inside inputs⟩ :: visits')

/-- Checking the body may have the result: the reason for which it is rejected, or a report of the
visits of a run from the root. -/
def Checks (h : HashContext) (body : Body) (result : Except Malformed Report) : Prop :=
  match body.validate h.config.maxDepth with
  | .error mistake => result = .error mistake
  | .ok () => ∃ value after visits, h.Run body [([], body.root)] [] [value] after visits ∧
      result = .ok ⟨body.name, visits⟩

/-- The hash tables have the same look-ups as the tables in order, and the choices are the same. -/
structure Shows (h : HashContext) (ctx : Context) : Prop where
  bindings : h.bindings.Shows ctx.bindings
  shapes : h.shapes.Shows ctx.shapes
  config_eq : h.config = ctx.config

variable {h : HashContext} {ctx : Context} {frames : Frames} {scope : Scope}

/-! ## No order shows in a verdict -/

namespace Shows

theorem shape_eq (hshows : h.Shows ctx) : h.shape = ctx.shape := by
  funext name
  have hlookup := hshows.shapes name
  unfold HashContext.shape Context.shape
  cases hfound : ctx.shapes.get? name with
  | some shape => rw [hlookup.trans hfound]
  | none => rw [hlookup.trans hfound, hshows.shapes.sort_keys]

theorem member_eq {α : Type} (hshows : h.Shows ctx) (value : Value) (name : String)
    (find : Shape → Option α) : h.member value name find = ctx.member value name find := by
  unfold HashContext.member Context.member
  cases value.shape with
  | none => rfl
  | some shapeName =>
    have hshape := congrFun hshows.shape_eq shapeName
    cases hfound : ctx.shape shapeName with
    | error problem => simp only [hshape.trans hfound, hfound]
    | ok shape => cases hmember : find shape <;> simp only [hshape.trans hfound, hfound, hmember]

/-- The names in scope are the same list: both are strictly sorted and have the same members. -/
theorem namesInScope_eq (hshows : h.Shows ctx) (hframes : frames.Shows scope) :
    h.namesInScope frames = ctx.namesInScope scope := by
  have hsorted : (h.namesInScope frames).Pairwise (· < ·) :=
    Names.dropRepeats_sorted (Names.sort_sorted _)
  have hsorted' : (ctx.namesInScope scope).Pairwise (· < ·) :=
    Names.union_sorted scope.names ctx.bindings.names_sorted
  -- So only the members count, and those do not depend on where they come from.
  refine hsorted.eq_of_mem_iff hsorted' fun name => ?_
  rw [HashContext.namesInScope, Context.namesInScope, Names.mem_dropRepeats,
    (Names.sort_perm _).mem_iff, List.mem_append, Names.mem_union,
    hshows.bindings.keys_perm.mem_iff, hframes.mem_names_iff, or_comm]

theorem resolveVar_eq (hshows : h.Shows ctx) (hframes : frames.Shows scope) (name : String) :
    h.resolveVar frames name = ctx.resolveVar scope name := by
  have hlookup := hshows.bindings name
  unfold HashContext.resolveVar Context.resolveVar
  rw [hframes name]
  cases scope.get? name with
  | some value => rfl
  | none =>
    cases hfound : ctx.bindings.get? name with
    | some binding => rw [hlookup.trans hfound]
    | none => rw [hlookup.trans hfound, hshows.namesInScope_eq hframes]

theorem resolveField_eq (hshows : h.Shows ctx) (base : Value) (name : String) :
    h.resolveField base name = ctx.resolveField base name := by
  rw [HashContext.resolveField, Context.resolveField, hshows.member_eq]

theorem resolveCall_eq (hshows : h.Shows ctx) (receiver : Value) (name : String)
    (args : List Resolved) :
    h.resolveCall receiver name args = ctx.resolveCall receiver name args := by
  have hmember := hshows.member_eq receiver name (·.method? name)
  unfold HashContext.resolveCall Context.resolveCall
  cases hfound : ctx.member receiver name (·.method? name) with
  | error problem => rw [hmember.trans hfound]
  | ok method => rw [hmember.trans hfound, hshows.config_eq]

theorem resolveIndex_eq (hshows : h.Shows ctx) (base : Value) (position : Resolved)
    (access : Access) :
    h.resolveIndex base position access = ctx.resolveIndex base position access := by
  have hmember := hshows.member_eq base "[]" (·.indexer)
  unfold HashContext.resolveIndex Context.resolveIndex
  cases hfound : ctx.member base "[]" (·.indexer) with
  | error problem => rw [hmember.trans hfound]
  | ok indexer => cases access <;> rw [hmember.trans hfound, hshows.config_eq]

theorem resolveConstruct_eq (hshows : h.Shows ctx) (name : String) (args : List Resolved) :
    h.resolveConstruct name args = ctx.resolveConstruct name args := by
  have hshape := congrFun hshows.shape_eq name
  unfold HashContext.resolveConstruct Context.resolveConstruct
  cases hfound : ctx.shape name with
  | error problem => rw [hshape.trans hfound]
  | ok shape => rw [hshape.trans hfound]

/-- A node has the same verdict with hash tables as with tables in order. -/
theorem resolve_eq (hshows : h.Shows ctx) (hframes : frames.Shows scope)
    (inputs : Expr Resolved) : h.resolve frames inputs = ctx.resolve scope inputs := by
  cases inputs with
  | alloc region name? =>
    cases name? with
    | none => rfl
    | some name => rw [HashContext.resolve, Context.resolve, hshows.shape_eq]
  | var name => exact hshows.resolveVar_eq hframes name
  | field base name =>
    exact congrArg base.andThen (funext fun base => hshows.resolveField_eq base name)
  | call receiver name args =>
    exact congrArg receiver.andThen
      (funext fun receiver => hshows.resolveCall_eq receiver name args)
  | index base position access =>
    exact congrArg base.andThen (funext fun base => hshows.resolveIndex_eq base position access)
  | construct name args => exact hshows.resolveConstruct_eq name args
  | literal | slice | assign | declare | block | ret => rfl

end Shows

/-! ## No order shows in a run -/

variable {body : Body} {entries : List (List Nat × NodeId)} {before inside left after : Frames}
  {values : List Resolved} {visits : List Visit} {expr : Expr NodeId} {inputs : Expr Resolved}

theorem leaves_tail (halike : expr.Alike inputs) (hleaves : inputs.Leaves inside left)
    (htail : inside.tail = (expr.enter before).tail) : left.tail = before.tail := by
  cases halike with
  | declare => exact hleaves.tail_eq.trans htail
  | block =>
    -- The frame that the block opened is gone, and those around it are as they were.
    cases hleaves
    rw [htail]
    rfl
  | _ =>
    cases hleaves
    exact htail

/-- A run changes the innermost frame only. -/
theorem Run.tail_eq (hrun : h.Run body entries before values after visits) :
    after.tail = before.tail := by
  induction hrun with
  | nil => rfl
  | cons hnode halike _ hleaves _ ihkids ihrest =>
    exact ihrest.trans (leaves_tail halike hleaves ihkids)

theorem shows_enter (hframes : before.Shows scope) : (expr.enter before).Shows scope := by
  cases expr with
  | block => exact fun name => (Frames.get?_cons ∅ before name).trans (hframes name)
  | _ => exact hframes

/-- Closing a block brings back the frames before it, and so the scope before it. -/
theorem shows_leaves {scopeInside : Scope} (halike : expr.Alike inputs)
    (hleaves : inputs.Leaves inside left) (hbefore : before.Shows scope)
    (hinside : inside.Shows scopeInside) (htail : inside.tail = (expr.enter before).tail) :
    left.Shows (inputs.scopeAfter scope scopeInside) := by
  cases halike with
  | declare => exact hinside.declare hleaves
  | block =>
    cases hleaves
    rw [htail]
    exact hbefore
  | _ =>
    cases hleaves
    exact hinside

/-- A run with hash tables is a run of the checker. -/
theorem Run.exists_run (hshows : h.Shows ctx)
    (hrun : h.Run body entries before values after visits) (hbefore : before.Shows scope) :
    ∃ scope', after.Shows scope' ∧ ctx.Run body entries scope values scope' visits := by
  induction hrun generalizing scope with
  | nil => exact ⟨scope, hbefore, .nil scope⟩
  | cons hnode halike hkids hleaves _ ihkids ihrest =>
    -- The frames show a scope after the children, after the node, and after the nodes listed next.
    obtain ⟨scopeInside, hinside, hkids'⟩ := ihkids (shows_enter hbefore)
    obtain ⟨scope', hafter, hrest'⟩ :=
      ihrest (shows_leaves halike hleaves hbefore hinside hkids.tail_eq)
    refine ⟨scope', hafter, ?_⟩
    rw [hshows.resolve_eq hinside]
    exact .cons hnode halike hkids' hrest'

theorem exists_leaves (inputs : Expr Resolved) (inside : Frames) :
    ∃ left, inputs.Leaves inside left := by
  cases inputs with
  | declare name init => exact Frames.exists_declared inside name init.asLocal
  | _ => exact ⟨_, rfl⟩

/-- What the checker runs can be run with hash tables. -/
theorem Shows.exists_run {scope' : Scope} (hshows : h.Shows ctx)
    (hrun : ctx.Run body entries scope values scope' visits) (hbefore : before.Shows scope) :
    ∃ after, after.Shows scope' ∧ h.Run body entries before values after visits := by
  induction hrun generalizing before with
  | nil => exact ⟨before, hbefore, .nil before⟩
  | @cons _ _ _ _ inputs _ _ _ _ _ _ hnode halike _ _ ihkids ihrest =>
    obtain ⟨inside, hinside, hkids⟩ := ihkids (shows_enter hbefore)
    -- Any order that a declaration leaves will do.
    obtain ⟨left, hleaves⟩ := exists_leaves inputs inside
    obtain ⟨after, hafter, hrest⟩ :=
      ihrest (shows_leaves halike hleaves hbefore hinside hkids.tail_eq)
    refine ⟨after, hafter, ?_⟩
    rw [← hshows.resolve_eq hinside]
    exact .cons hnode halike hkids hleaves hrest

/-- Checking a body with hash tables has one result, which is that of the checker. -/
theorem Shows.checks_iff (hshows : h.Shows ctx) {result : Except Malformed Report} :
    h.Checks body result ↔ body.check ctx = result := by
  have hempty : Frames.Shows [] [] := fun _ => rfl
  unfold Checks
  rw [hshows.config_eq]
  cases hvalid : body.validate ctx.config.maxDepth with
  | error mistake =>
    rw [Context.check_rejected hvalid]
    exact eq_comm
  | ok _ =>
    obtain ⟨report, value, scope, hcheck, hrun⟩ :=
      Context.exists_check (Body.isTree_of_validate hvalid)
    have hreport : report = ⟨body.name, report.visits⟩ := Report.body_eq hcheck ▸ rfl
    rw [hcheck]
    constructor
    -- Both runs of the checker start from the root with no names, so they make the same visits.
    · rintro ⟨value', after, visits, hhash, rfl⟩
      obtain ⟨_, -, hrun'⟩ := hhash.exists_run hshows hempty
      rw [hreport, hrun.visits_eq hrun']
    · rintro rfl
      obtain ⟨after, -, hhash⟩ := hshows.exists_run hrun hempty
      exact ⟨value, after, report.visits, hhash, congrArg Except.ok hreport⟩

end HashContext

/-- The members that are trusted are the same list as from a table in order. -/
theorem HashTable.Shows.trustedMembers_eq {shapes : HashTable Shape} {sorted : Shapes}
    (h : shapes.Shows sorted) : shapes.trustedMembers = sorted.trustedMembers := by
  refine Names.sort_eq_of_perm ?_
  have hperm := h.entries_perm.flatMap_right fun e => e.2.trustedMembers e.1
  rwa [List.flatMap_map] at hperm

/-! ## The headline -/

/-- The tables may be what some registrations leave, one after another. -/
structure HashContext.RegisteredBy (h : HashContext) (bindings : List (String × Binding))
    (shapes : List (String × Shape)) : Prop where
  bindings : h.bindings.FilledBy bindings
  shapes : h.shapes.FilledBy shapes

theorem HashContext.RegisteredBy.shows {h : HashContext} {bindings : List (String × Binding)}
    {shapes : List (String × Shape)} (hregistered : h.RegisteredBy bindings shapes) :
    h.Shows ⟨.ofList bindings, .ofList shapes, h.config⟩ :=
  ⟨hregistered.bindings.shows, hregistered.shapes.shows, rfl⟩

/-- **No order of registration shows.** Let two sequences of registrations make the same last entry
for each name, and let hash tables be what they leave, in whatever order. Then a body has one and
the same result with both, lists of names included, which is that of the checker; and the same
members are listed as trusted. -/
theorem registration_order_irrelevant {bindings bindings' : List (String × Binding)}
    {shapes shapes' : List (String × Shape)} (hbindings : SameEntries bindings bindings')
    (hshapes : SameEntries shapes shapes') {h h' : HashContext}
    (hregistered : h.RegisteredBy bindings shapes)
    (hregistered' : h'.RegisteredBy bindings' shapes') (hconfig : h.config = h'.config)
    (body : Body) :
    (∃ result, (∀ r, h.Checks body r ↔ r = result) ∧ (∀ r, h'.Checks body r ↔ r = result) ∧
        body.check ⟨.ofList bindings, .ofList shapes, h.config⟩ = result ∧
        body.check ⟨.ofList bindings', .ofList shapes', h'.config⟩ = result) ∧
      h.shapes.trustedMembers = h'.shapes.trustedMembers ∧
      Shapes.trustedMembers (.ofList shapes) = h.shapes.trustedMembers ∧
      Shapes.trustedMembers (.ofList shapes') = h'.shapes.trustedMembers := by
  have htrusted := hregistered.shapes.shows.trustedMembers_eq
  have htrusted' := hregistered'.shapes.shows.trustedMembers_eq
  have hshapesEq := NameTable.ofList_eq_of_sameEntries hshapes
  have hctx : (⟨.ofList bindings, .ofList shapes, h.config⟩ : Context) =
      ⟨.ofList bindings', .ofList shapes', h'.config⟩ := by
    rw [NameTable.ofList_eq_of_sameEntries hbindings, hshapesEq, hconfig]
  refine ⟨⟨body.check ⟨.ofList bindings, .ofList shapes, h.config⟩, fun r => ?_, fun r => ?_, rfl,
    by rw [hctx]⟩, ?_, htrusted.symm, htrusted'.symm⟩
  · exact hregistered.shows.checks_iff.trans eq_comm
  · rw [hctx]
    exact hregistered'.shows.checks_iff.trans eq_comm
  · rw [htrusted, htrusted', hshapesEq]

/-- `{ let y = 0; x }`, where `x` means nothing. -/
def strayBody : Body where
  name := "stray"
  nodes := #[⟨.literal, .zero⟩, ⟨.declare "y" ⟨0⟩, .zero⟩, ⟨.var "x", .zero⟩,
    ⟨.block [⟨1⟩, ⟨2⟩], .zero⟩]
  root := ⟨3⟩

/-- A shape with one member that is trusted. -/
def trustedShape (name : String) : Shape :=
  ⟨[], [⟨name, .value, [], .refIndependent, none⟩], none⟩

/-- Two registrations in two orders, one of which replaces a binding. The tables list the names in
different orders, and the report and the trusted members are the same. -/
theorem registration_order_irrelevant_at_stray :
    ∃ (h h' : HashContext) (report : Report), h.bindings.keys = ["a", "b"] ∧
      h'.bindings.keys = ["b", "a"] ∧ h.Checks strayBody (.ok report) ∧
      h'.Checks strayBody (.ok report) ∧
      report.findings = [⟨.unknownBinding "x" ["a", "b", "y"], ⟨2⟩, ⟨[1]⟩, .zero⟩] ∧
      h.shapes.trustedMembers = ["S.f", "T.g"] ∧ h'.shapes.trustedMembers = ["S.f", "T.g"] := by
  let bindings : List (String × Binding) :=
    [("a", ⟨.stackOnly, false, none⟩), ("b", ⟨.heap, true, none⟩), ("a", ⟨.heap, false, none⟩)]
  let bindings' : List (String × Binding) :=
    [("a", ⟨.heap, false, none⟩), ("b", ⟨.heap, true, none⟩)]
  let shapes : List (String × Shape) := [("S", trustedShape "f"), ("T", trustedShape "g")]
  let h : HashContext := ⟨.ofList bindings, .ofList shapes, {}⟩
  let h' : HashContext := ⟨.ofList bindings', .ofList shapes.reverse, {}⟩
  have hbindings : SameEntries bindings bindings' := by
    intro name
    simp only [lastEntry, bindings, bindings', List.reverse_cons, List.reverse_nil, List.nil_append,
      List.cons_append, NameTable.lookup_cons_ite]
    grind
  have hshapes : SameEntries shapes shapes.reverse := by
    intro name
    simp only [lastEntry, shapes, List.reverse_cons, List.reverse_nil, List.nil_append,
      List.cons_append, NameTable.lookup_cons_ite]
    grind
  have hregistered : h.RegisteredBy bindings shapes :=
    ⟨HashTable.filledBy_ofList bindings, HashTable.filledBy_ofList shapes⟩
  have hregistered' : h'.RegisteredBy bindings' shapes.reverse :=
    ⟨HashTable.filledBy_ofList bindings', HashTable.filledBy_ofList shapes.reverse⟩
  obtain ⟨⟨result, hchecks, hchecks', hcheck, -⟩, htrusted, hmembers, -⟩ :=
    registration_order_irrelevant hbindings hshapes hregistered hregistered' rfl strayBody
  have hsorted : Shapes.trustedMembers (.ofList shapes) = ["S.f", "T.g"] := by cbv
  have hlisted : h.shapes.trustedMembers = ["S.f", "T.g"] := hmembers.symm.trans hsorted
  have hreport : ∃ report, result = .ok report ∧
      report.findings = [⟨.unknownBinding "x" ["a", "b", "y"], ⟨2⟩, ⟨[1]⟩, .zero⟩] := by
    rw [← hcheck]
    exact ⟨_, by cbv, by cbv⟩
  obtain ⟨report, hresult, hfindings⟩ := hreport
  exact ⟨h, h', report, by cbv, by cbv, (hchecks _).2 hresult.symm, (hchecks' _).2 hresult.symm,
    hfindings, hlisted, htrusted ▸ hlisted⟩

end FrameEscape
