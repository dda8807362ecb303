import FrameEscape.Check.Problem
import FrameEscape.Check.Value
import FrameEscape.Shape

/-!
# The rule for one node

`Context.resolve` gives the value of a node, and the problem it has if any, from the values
of its children and the names in scope. It is the whole of what the checker knows about the
language: the rest is the order of evaluation.
-/

namespace FrameEscape

/-- Choices for one run of the checker. -/
structure Config where
  /-- Believe members that promise independence from their receiver. Otherwise their results
  depend on it like any other. -/
  trustIndependentRefs : Bool := true
  /-- Report calls that mix caller-owned references with stack-only data. -/
  checkArgumentMixing : Bool := true
  /-- The greatest distance of a node from the root. -/
  maxDepth : Nat := 512
  deriving DecidableEq

/-- What a body is checked against. -/
structure Context where
  bindings : Bindings
  shapes : Shapes
  config : Config

/-- The outcome for one node: its value, and what is wrong with it. -/
structure Verdict where
  value : Resolved
  problem? : Option Problem
  deriving DecidableEq

namespace Verdict

/-- A value, and nothing wrong. -/
def ok (value : Resolved) : Verdict := ⟨value, none⟩

/-- A value, or the problem that left the node without one. -/
def ofExcept : Except Problem Value → Verdict
  | .ok value => ⟨.known value, none⟩
  | .error problem => ⟨.poisoned, some problem⟩

/-- A statement, and what is wrong with it. -/
def statement (problem? : Option Problem) : Verdict := ⟨.known .unit, problem?⟩

end Verdict

/-- Go on from a value. What is made of a poisoned one is poisoned and not reported. -/
def Resolved.andThen (value : Resolved) (next : Value → Verdict) : Verdict :=
  match value with
  | poisoned => .ok poisoned
  | known value => next value

/-- The level of memory allocated in a region. -/
def Region.level : Region → Level
  | .stack => .stackOnly
  | .heap => .heap

/-- The level that a value needs to be stored in a place. Storage that the caller owns
outlives the frame; other places need only outlive the statement. -/
def Level.requiredForStore (callerOwned : Bool) (mode : Access) : Level :=
  match callerOwned, mode with
  | true, _ => .valueScoped
  | false, .ref => .refScoped
  | false, .value => .stackOnly

/-- What is wrong with a store, if both sides are known. -/
def storeProblem? (target value : Resolved) (mode : Access) : Option Problem :=
  match target, value with
  | .known _, .known value =>
    let required := Level.requiredForStore target.isCallerPlace mode
    if value.level < required then some (.escapingAssignment mode required value.level)
    else none
  | _, _ => none

/-- The level of a value in a return. A reference to a local's own storage dies with the
frame. -/
def Value.returnedLevel (value : Value) (mode : Access) : Level :=
  if mode = .ref ∧ value.origin = .frame then .stackOnly else value.level

/-- What is wrong with a return, if the value is known. -/
def returnProblem? (value : Resolved) (mode : Access) : Option Problem :=
  match value with
  | .poisoned => none
  | .known value =>
    match mode, value.origin with
    | .ref, .receiver member => some (.receiverReturned member)
    | mode, _ =>
      let required := Level.requiredForReturn mode
      let actual := value.returnedLevel mode
      if actual < required then some (.notReturnable mode required actual) else none

namespace Config

/-- The result of a member, given what the member promises about it. -/
def callResult (config : Config) (receiver : Value) (returns : ReturnKind)
    (shape : Option String) (member : String) : Value :=
  match returns with
  | .unit => .unit
  | .value | .ref => .temporary receiver.level shape
  | .refIndependent =>
    .temporary (if config.trustIndependentRefs then .valueScoped else receiver.level) shape
  | .refToSelfField => ⟨.stackOnly, shape, .receiver member⟩

/-- What is wrong with the values passed to a member, each with how it is passed. A
reference that the caller owns must not go together with stack-only data: the callee may
store one into the other. -/
def mixedArguments? (config : Config) (positions : List (Access × Resolved)) :
    Option Problem :=
  if config.checkArgumentMixing then do
    let reference ← positions.findIdx? fun (mode, value) => mode == .ref && value.isCallerPlace
    let stackData ← positions.zipIdx.findIdx? fun ((_, value), i) =>
      i != reference && value.isStackOnly
    pure (.mixedArguments reference stackData)
  else none

end Config

namespace Context

/-- The names that may be used, in order. -/
def namesInScope (ctx : Context) (scope : Scope) : List String :=
  Names.union scope.names ctx.bindings.names

/-- The shape of a name. -/
def shape (ctx : Context) (name : String) : Except Problem Shape :=
  match ctx.shapes.get? name with
  | some shape => .ok shape
  | none => .error (.unknownShape name ctx.shapes.names)

/-- A member of a value, found in its shape. -/
def member {α : Type} (ctx : Context) (value : Value) (name : String)
    (find : Shape → Option α) : Except Problem α :=
  match value.shape with
  | none => .error (.unknownMember "value without members" name [])
  | some shapeName =>
    match ctx.shape shapeName with
    | .error problem => .error problem
    | .ok shape =>
      match find shape with
      | some found => .ok found
      | none => .error (.unknownMember shapeName name (Names.sort shape.memberNames))

theorem member_eq_ok_iff {α : Type} {ctx : Context} {value : Value} {name : String}
    {find : Shape → Option α} {found : α} :
    ctx.member value name find = .ok found ↔ ∃ shapeName shape, value.shape = some shapeName ∧
      ctx.shapes.get? shapeName = some shape ∧ find shape = some found := by
  unfold member Context.shape
  cases value.shape with
  | none => simp
  | some shapeName =>
    cases hshape : ctx.shapes.get? shapeName with
    | none => simp [hshape]
    | some shape => cases hfound : find shape <;> simp [hshape, hfound]

/-- A variable means the innermost declaration of its name, or else what the name is bound
to from outside. -/
def resolveVar (ctx : Context) (scope : Scope) (name : String) : Verdict :=
  match scope.get? name with
  | some value => .ok value
  | none =>
    match ctx.bindings.get? name with
    | some binding => .ok (.ofBinding binding)
    | none => ⟨.poisoned, some (.unknownBinding name (ctx.namesInScope scope))⟩

/-- A field is never safer than what it is read from. -/
def resolveField (ctx : Context) (base : Value) (name : String) : Verdict :=
  .ofExcept <| (ctx.member base name (·.field? name)).map fun field =>
    ⟨base.level.meet field.level, field.shape, base.origin.ofField⟩

/-- A call passes the receiver and then the arguments, and has the result that the method
promises. -/
def resolveCall (ctx : Context) (receiver : Value) (name : String) (args : List Resolved) :
    Verdict :=
  match ctx.member receiver name (·.method? name) with
  | .error problem => ⟨.poisoned, some problem⟩
  | .ok method =>
    let positions := (method.receiver, .known receiver) ::
      args.mapIdx fun i arg => (method.paramMode i, arg)
    ⟨.known (ctx.config.callResult receiver method.returns method.result name),
      ctx.config.mixedArguments? positions⟩

/-- An index passes the base as it is accessed, and the position by value. An element by
value is as safe as its base; one by reference is what the indexer promises. -/
def resolveIndex (ctx : Context) (base : Value) (position : Resolved) (access : Access) :
    Verdict :=
  match ctx.member base "[]" (·.indexer) with
  | .error problem => ⟨.poisoned, some problem⟩
  | .ok indexer =>
    let element : Value := match access with
      | .value => .temporary base.level indexer.element
      | .ref => ctx.config.callResult base indexer.byRef indexer.element "[]"
    ⟨.known { element with origin := base.origin.ofElement element.origin },
      ctx.config.mixedArguments? [(access, .known base), (.value, position)]⟩

/-- A new value is as safe as its least safe part, and as the fields of its shape. -/
def resolveConstruct (ctx : Context) (name : String) (args : List Resolved) : Verdict :=
  match ctx.shape name with
  | .error problem => ⟨.poisoned, some problem⟩
  | .ok shape =>
    if args.any Resolved.isPoisoned then .ok .poisoned
    else
      .ok (.known (.temporary ((Level.meetAll (args.map Resolved.level)).meet shape.level)
        (some name)))

/-- The value of a node and what is wrong with it, from the values of its children. -/
def resolve (ctx : Context) (scope : Scope) : Expr Resolved → Verdict
  | .literal => .ok (.known .unit)
  | .alloc region none => .ok (.known (.temporary region.level none))
  | .alloc region (some name) =>
    .ofExcept <| (ctx.shape name).map fun shape =>
      .temporary (region.level.meet shape.level) (some name)
  | .var name => ctx.resolveVar scope name
  | .field base name => base.andThen (ctx.resolveField · name)
  | .call receiver name args => receiver.andThen (ctx.resolveCall · name args)
  | .index base position access => base.andThen (ctx.resolveIndex · position access)
  | .slice base _ => base.andThen fun base => .ok (.known (.temporary base.level base.shape))
  | .assign target value mode => .statement (storeProblem? target value mode)
  | .construct name args => ctx.resolveConstruct name args
  | .declare _ _ => .statement none
  | .block stmts => .ok (stmts.getLast?.getD (.known .unit))
  | .ret value mode => .statement (returnProblem? value mode)

end Context

end FrameEscape
