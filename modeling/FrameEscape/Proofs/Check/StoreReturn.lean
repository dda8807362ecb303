import FrameEscape.Proofs.Check.Stores

/-!
# Stores and returns

A store into storage of the caller and a return both let a value out of this frame. They are
checked apart: a store asks for the level of the value only, and a return by reference asks whose
storage the value is as well. So what passes in a store passes in a return, but for a place of
this frame that goes by reference (`stored_returnable_iff`). At a high level it is stored, and the
reference dangles when the frame dies.

* **`Context.Slot`**: places of this frame, said of the tree. They are the nodes with the origin
  `frame` (`Context.Run.slot_of_frame`, `Context.Slot.origin_eq`).
* **`Context.Run.confined`**: a reference into a receiver is stack-only, in every run.
* **`Context.Run.unique`**: the two checks see the same value, as it does not depend on the path.
-/

namespace FrameEscape

/-! ## Places -/

/-- The node is the variable, or is made from it by reading fields and indexing by value. -/
inductive Body.ValuePlace (body : Body) (name : String) : NodeId → Prop where
  | var {id node} (hnode : body.node? id = some node) (hexpr : node.expr = .var name) :
    ValuePlace body name id
  | field {id node base field} (hnode : body.node? id = some node)
      (hexpr : node.expr = .field base field) (hbase : ValuePlace body name base) :
    ValuePlace body name id
  | element {id node base position} (hnode : body.node? id = some node)
      (hexpr : node.expr = .index base position .value) (hbase : ValuePlace body name base) :
    ValuePlace body name id

namespace Context

/-- The name stands for a parameter by reference. -/
def RefParam (ctx : Context) (scope : Scope) (name : String) : Prop :=
  name ∉ scope.names ∧ ∃ binding, ctx.bindings.get? name = some binding ∧ binding.isRefParam = true

/-- The node is a place in storage of this frame, where the names in `declared` are those of
declarations. It is a local or a by-value parameter, a field of such a place, or a block that
ends with one. -/
inductive Slot (ctx : Context) (body : Body) : (String → Prop) → NodeId → Prop where
  | var {declared id node name} (hnode : body.node? id = some node)
      (hexpr : node.expr = .var name)
      (hlocal : declared name ∨
        ∃ binding, ctx.bindings.get? name = some binding ∧ binding.isRefParam = false) :
    Slot ctx body declared id
  | field {declared id node base name} (hnode : body.node? id = some node)
      (hexpr : node.expr = .field base name) (hbase : Slot ctx body declared base) :
    Slot ctx body declared id
  | block {declared id node front last} (hnode : body.node? id = some node)
      (hexpr : node.expr = .block (front ++ [last]))
      (hlast : Slot ctx body (fun name => declared name ∨ ∃ stmt ∈ front, body.Exports name stmt)
        last) :
    Slot ctx body declared id

theorem Slot.mono {ctx : Context} {body : Body} {declared declared' : String → Prop} {id : NodeId}
    (h : ctx.Slot body declared id) (hsub : ∀ name, declared name → declared' name) :
    ctx.Slot body declared' id := by
  induction h generalizing declared' with
  | var hnode hexpr hlocal => exact .var hnode hexpr (hlocal.imp_left (hsub _))
  | field hnode hexpr _ ih => exact .field hnode hexpr (ih hsub)
  | block hnode hexpr _ ih =>
    exact .block hnode hexpr (ih fun name hname => hname.imp_left (hsub name))

end Context

/-! ## Where a value comes from -/

/-- The value is not a place of this frame, and if it is a reference into a receiver it is
stack-only. -/
structure Value.Made (value : Value) : Prop where
  not_frame : value.origin ≠ .frame
  confined : ∀ member, value.origin = .receiver member → value.level = .stackOnly

/-- The value is made so, unless it is poisoned. -/
inductive Resolved.Made : Resolved → Prop where
  | poisoned : Made .poisoned
  | known {value : Value} (h : value.Made) : Made (.known value)

/-- Where a value comes from: a variable, the base of a field or the end of a block, or else it is
made anew. -/
inductive Value.Source (value : Value) : Expr Resolved → Prop where
  | var (name : String) : Source value (.var name)
  | field {base : Value} (name : String) (horigin : value.origin = base.origin.ofField) :
    Source value (.field (.known base) name)
  | block {stmts : List Resolved} (hlast : stmts.getLast? = some (.known value)) :
    Source value (.block stmts)
  | made {inputs : Expr Resolved} (h : value.Made) : Source value inputs

theorem Resolved.exists_known_of_ne {value : Resolved} (h : value ≠ .poisoned) :
    ∃ known, value = .known known := by
  cases value with
  | poisoned => exact absurd rfl h
  | known known => exact ⟨known, rfl⟩

theorem Value.made_temporary (level : Level) (shape : Option String) :
    (Value.temporary level shape).Made :=
  ⟨Origin.noConfusion, fun _ h => Origin.noConfusion h⟩

theorem Value.Made.ofElement {element : Value} (h : element.Made) (base : Origin) :
    Value.Made { element with origin := base.ofElement element.origin } := by
  obtain ⟨level, shape, origin⟩ := element
  obtain ⟨hframe, hconfined⟩ := h
  cases base with
  | caller =>
    cases origin with
    | temporary => exact ⟨Origin.noConfusion, fun _ h => Origin.noConfusion h⟩
    | _ => exact ⟨hframe, hconfined⟩
  | _ => exact ⟨hframe, hconfined⟩

theorem Origin.ofField_eq_frame_iff {origin : Origin} :
    origin.ofField = .frame ↔ origin = .frame := by
  cases origin <;> simp [Origin.ofField]

theorem Origin.ofField_ne_receiver (origin : Origin) (member : String) :
    origin.ofField ≠ .receiver member := by
  cases origin <;> exact Origin.noConfusion

theorem Config.callResult_made (config : Config) (receiver : Value) (returns : ReturnKind)
    (shape : Option String) (member : String) :
    (config.callResult receiver returns shape member).Made := by
  cases returns with
  | refToSelfField => exact ⟨Origin.noConfusion, fun _ _ => rfl⟩
  | _ => exact Value.made_temporary _ _

theorem Resolved.andThen_made {value : Resolved} {next : Value → Verdict}
    (hnext : ∀ known, (next known).value.Made) : (value.andThen next).value.Made := by
  cases value with
  | poisoned => exact .poisoned
  | known known => exact hnext known

namespace Context

variable {ctx : Context} {scope : Scope}

theorem resolveCall_made (receiver : Value) (name : String) (args : List Resolved) :
    (ctx.resolveCall receiver name args).value.Made := by
  unfold resolveCall
  cases ctx.member receiver name (·.method? name) with
  | error problem => exact .poisoned
  | ok method => exact .known (Config.callResult_made _ _ _ _ _)

theorem resolveIndex_made (base : Value) (position : Resolved) (access : Access) :
    (ctx.resolveIndex base position access).value.Made := by
  unfold resolveIndex
  cases ctx.member base "[]" (·.indexer) with
  | error problem => exact .poisoned
  | ok indexer =>
    cases access with
    | value => exact .known ((Value.made_temporary _ _).ofElement _)
    | ref => exact .known ((Config.callResult_made _ _ _ _ _).ofElement _)

theorem resolveConstruct_made (name : String) (args : List Resolved) :
    (ctx.resolveConstruct name args).value.Made := by
  unfold resolveConstruct
  cases ctx.shape name with
  | error problem => exact .poisoned
  | ok shape =>
    simp only
    split
    · exact .poisoned
    · exact .known (Value.made_temporary _ _)

theorem resolve_source {inputs : Expr Resolved} {value : Value}
    (hvalue : (ctx.resolve scope inputs).value = .known value) : value.Source inputs := by
  have hmade : (ctx.resolve scope inputs).value.Made → value.Source inputs := by
    intro h
    rw [hvalue] at h
    cases h with
    | known h => exact .made h
  have hunit : Value.unit.Made := Value.made_temporary _ _
  cases inputs with
  | var name => exact .var name
  | field input name =>
    obtain ⟨base, rfl, horigin⟩ := resolve_field_known hvalue
    exact .field name horigin
  | block stmts =>
    change stmts.getLast?.getD (.known .unit) = .known value at hvalue
    cases hlast : stmts.getLast? with
    | none =>
      rw [hlast] at hvalue
      exact .made (Resolved.known.inj hvalue ▸ hunit)
    | some last =>
      rw [hlast] at hvalue
      exact .block (hlast.trans (congrArg some hvalue))
  | literal | assign | declare | ret => exact hmade (.known hunit)
  | alloc region name? =>
    refine hmade ?_
    cases name? with
    | none => exact .known (Value.made_temporary _ _)
    | some name =>
      simp only [resolve]
      cases ctx.shape name with
      | error problem => exact .poisoned
      | ok shape => exact .known (Value.made_temporary _ _)
  | call receiver name args =>
    exact hmade (Resolved.andThen_made fun _ => resolveCall_made _ _ _)
  | index base position access =>
    exact hmade (Resolved.andThen_made fun _ => resolveIndex_made _ _ _)
  | slice base args =>
    exact hmade (Resolved.andThen_made fun _ => .known (Value.made_temporary _ _))
  | construct name args => exact hmade (resolveConstruct_made _ _)

/-- A variable that is known is a local or what its name is bound to. -/
theorem resolveVar_known {name : String} {value : Value} (hscope : scope.Local)
    (hvalue : (ctx.resolveVar scope name).value = .known value) :
    (name ∈ scope.names ∧ value.origin = .frame) ∨
      (name ∉ scope.names ∧ ∃ binding, ctx.bindings.get? name = some binding ∧
        value.origin = if binding.isRefParam then .caller else .frame) := by
  unfold resolveVar at hvalue
  cases hget : scope.get? name with
  | some found =>
    rw [hget] at hvalue
    cases hvalue
    have hlocal := hscope _ (Scope.mem_of_get? hget)
    refine .inl ⟨?_, (congrArg Value.origin (Resolved.known.inj hlocal)).symm⟩
    by_contra hmem
    exact absurd (hget.symm.trans (Scope.get?_eq_none_iff.2 hmem)) (by simp)
  | none =>
    rw [hget] at hvalue
    refine .inr ⟨Scope.get?_eq_none_iff.1 hget, ?_⟩
    cases hbinding : ctx.bindings.get? name with
    | none =>
      rw [hbinding] at hvalue
      exact absurd hvalue (by simp)
    | some binding =>
      rw [hbinding] at hvalue
      cases hvalue
      exact ⟨binding, rfl, rfl⟩

theorem resolveVar_origin_eq_frame_iff {name : String} {value : Value} (hscope : scope.Local)
    (hvalue : (ctx.resolveVar scope name).value = .known value) :
    value.origin = .frame ↔ name ∈ scope.names ∨
      ∃ binding, ctx.bindings.get? name = some binding ∧ binding.isRefParam = false := by
  rcases resolveVar_known hscope hvalue with
    ⟨hname, hframe⟩ | ⟨hname, binding, hbinding, hbound⟩
  · exact iff_of_true hframe (.inl hname)
  · rw [hbound, hbinding]
    cases hparam : binding.isRefParam <;> simp [hname, hparam]

/-! ## Runs -/

variable {body : Body} {entries : List (List Nat × NodeId)} {before after : Scope}
  {values : List Resolved} {visits : List Visit}

/-- In a run every reference into a receiver is stack-only. -/
theorem Run.confined (h : ctx.Run body entries before values after visits) (hbefore : before.Local)
    {value : Value} (hvalue : .known value ∈ values) {member : String}
    (horigin : value.origin = .receiver member) : value.level = .stackOnly := by
  induction h generalizing value with
  | nil => exact absurd hvalue List.not_mem_nil
  | cons _ _ hkids _ ihkids ihrest =>
    have hinside := hkids.isLocal hbefore
    rcases List.mem_cons.1 hvalue with hvalue | hvalue
    · cases resolve_source hvalue.symm with
      | var name =>
        -- A variable is a place, and not a reference that a member returned.
        rcases resolveVar_known hinside hvalue.symm with ⟨-, hframe⟩ | ⟨-, binding, -, hbound⟩
        · exact absurd (hframe.symm.trans horigin) Origin.noConfusion
        · rw [hbound] at horigin
          split at horigin <;> exact absurd horigin Origin.noConfusion
      | field name hfield =>
        exact absurd (hfield.symm.trans horigin) (Origin.ofField_ne_receiver _ _)
      | block hlast => exact ihkids hbefore (List.mem_of_getLast? hlast) horigin
      | made hmade => exact hmade.confined member horigin
    · exact ihrest (hbefore.scopeAfter hinside) hvalue horigin

/-- A node whose value is a place of this frame stands for one, if its children do whose values
are. -/
theorem slot_of_resolve {id : NodeId} {node : Node} {inside : Scope} {inputs : Expr Resolved}
    {value : Value} (hnode : body.node? id = some node) (halike : node.expr.Alike inputs)
    (hkids : ctx.Run body entries before inputs.children inside visits) (hbefore : before.Local)
    (hchildren : ∀ i child kid, node.expr.children[i]? = some child →
      inputs.children[i]? = some (.known kid) → kid.origin = .frame →
      ctx.Slot body (fun name => name ∈ before.names ∨
        ∃ earlier ∈ node.expr.children.take i, body.Exports name earlier) child)
    (hvalue : (ctx.resolve inside inputs).value = .known value) (horigin : value.origin = .frame) :
    ctx.Slot body (· ∈ before.names) id := by
  have hsource := resolve_source hvalue
  generalize hexpr : node.expr = expr at halike hchildren
  cases hsource with
  | var name =>
    cases halike
    cases hkids
    exact .var hnode hexpr ((resolveVar_origin_eq_frame_iff hbefore hvalue).1 horigin)
  | @field base name hfield =>
    cases halike
    have hbase : base.origin = .frame := Origin.ofField_eq_frame_iff.1 (hfield.symm.trans horigin)
    refine .field hnode hexpr ((hchildren 0 _ base rfl rfl hbase).mono fun name hname => ?_)
    simpa using hname
  | @block stmts hlast =>
    cases halike with
    | @block ids _ hstmts =>
      -- There is a last statement, as there is a last value.
      have hne : ids ≠ [] := by
        rintro rfl
        cases hstmts
        exact absurd hlast (by simp)
      obtain ⟨front, last, rfl⟩ : ∃ front last, ids = front ++ [last] :=
        ⟨_, _, (List.dropLast_append_getLast hne).symm⟩
      have hlength : stmts.length = front.length + 1 := by simpa using hstmts.length_eq.symm
      have hkid : stmts[front.length]? = some (.known value) := by
        rw [← hlast, List.getLast?_eq_getElem?, hlength, Nat.add_sub_cancel]
      refine .block hnode hexpr ((hchildren front.length last value ?_ hkid horigin).mono ?_)
      · simp [Expr.children]
      · intro name hname
        simpa [Expr.children] using hname
  | made hmade => exact absurd horigin hmade.not_frame

/-- In a run every value that is a place of this frame is one of a node that stands for such a
place, with the names declared before it. Induction on the run. -/
theorem Run.slot_of_frame (h : ctx.Run body entries before values after visits)
    (hbefore : before.Local) {i : Nat} {e : List Nat × NodeId} {value : Value}
    (he : entries[i]? = some e) (hvalue : values[i]? = some (.known value))
    (horigin : value.origin = .frame) :
    ctx.Slot body (fun name => name ∈ before.names ∨
      ∃ earlier ∈ entries.take i, body.Exports name earlier.2) e.2 := by
  induction h generalizing i e value with
  | nil => exact absurd he (by simp)
  | @cons steps id rest node inputs before inside _ _ _ _ hnode halike hkids hrest ihkids ihrest =>
    cases i with
    | zero =>
      cases he
      refine (slot_of_resolve hnode halike hkids hbefore ?_ (Option.some.inj hvalue)
        horigin).mono fun name hname => .inl hname
      intro i child kid hchild hkid hframe
      have hsibling : (siblings steps 0 node.expr.children)[i]? = some (steps ++ [i], child) := by
        rw [getElem?_siblings, hchild]
        rfl
      refine (ihkids hbefore hsibling hkid hframe).mono fun name hname => ?_
      rwa [take_siblings, exists_mem_siblings_iff] at hname
    | succ i =>
      have hnext : (inputs.scopeAfter before inside).Local :=
        hbefore.scopeAfter (hkids.isLocal hbefore)
      refine (ihrest hnext he hvalue horigin).mono fun name hname => ?_
      have hhead : ctx.Run body [(steps, id)] before _ (inputs.scopeAfter before inside) _ :=
        .single hnode halike hkids
      rw [hhead.mem_names_iff] at hname
      simpa [or_assoc] using hname

/-- The value of a node that stands for a place of this frame is one. Induction on the place,
for all scopes that have the declared names. -/
theorem Slot.origin_eq {declared : String → Prop} {id : NodeId} (h : ctx.Slot body declared id)
    {steps : List Nat} {value : Value}
    (hrun : ctx.Run body [(steps, id)] before [.known value] after visits)
    (hbefore : before.Local) (hdeclared : ∀ name, declared name → name ∈ before.names) :
    value.origin = .frame := by
  induction h generalizing steps value before after visits with
  | @var declared id node name hnode hexpr hlocal =>
    obtain ⟨inputs, inside, _, halike, hkids, hvalue⟩ := hrun.exists_inputs hnode hexpr
    cases halike
    cases hkids
    exact (resolveVar_origin_eq_frame_iff hbefore hvalue).2 (hlocal.imp_left (hdeclared name))
  | field hnode hexpr _ ih =>
    obtain ⟨inputs, inside, _, halike, hkids, hvalue⟩ := hrun.exists_inputs hnode hexpr
    cases halike
    obtain ⟨base, rfl, horigin⟩ := resolve_field_known hvalue
    rw [horigin, ih hkids hbefore hdeclared]
    rfl
  | @block declared id node front last hnode hexpr _ ih =>
    obtain ⟨inputs, inside, _, halike, hkids, hvalue⟩ := hrun.exists_inputs hnode hexpr
    cases halike with
    | @block _ stmts _ =>
      change ctx.Run body (siblings steps 0 (front ++ [last])) before stmts inside _ at hkids
      rw [siblings_append] at hkids
      obtain ⟨values, back, middle, _, _, rfl, hfront, hlast⟩ := hkids.exists_split
      obtain ⟨_, rfl⟩ := hlast.exists_value
      simp only [resolve, Verdict.ok, List.getLast?_concat, Option.getD_some] at hvalue
      subst hvalue
      refine ih hlast (hfront.isLocal hbefore) fun name hname => ?_
      rw [hfront.mem_names_iff, exists_mem_siblings_iff]
      exact hname.imp_left (hdeclared name)

theorem Run.origin_eq_frame_iff {id : NodeId} {steps : List Nat} {value : Value}
    (h : ctx.Run body [(steps, id)] before [.known value] after visits) (hbefore : before.Local) :
    value.origin = .frame ↔ ctx.Slot body (· ∈ before.names) id := by
  constructor
  · intro horigin
    refine (h.slot_of_frame hbefore (i := 0) rfl rfl horigin).mono fun name hname => ?_
    simpa using hname
  · intro hslot
    exact hslot.origin_eq h hbefore fun _ hname => hname

end Context

/-- The value of a place in a parameter by reference is a place of the caller. Induction on the
place: its base is evaluated first, from the same names. -/
theorem Body.ValuePlace.origin_eq {ctx : Context} {body : Body} {name : String} {id : NodeId}
    (h : body.ValuePlace name id) {steps : List Nat} {before after : Scope} {visits : List Visit}
    {value : Value} (hrun : ctx.Run body [(steps, id)] before [.known value] after visits)
    (hbefore : before.Local) (hparam : ctx.RefParam before name) : value.origin = .caller := by
  induction h generalizing steps value after visits with
  | var hnode hexpr =>
    obtain ⟨inputs, inside, _, halike, hkids, hvalue⟩ := hrun.exists_inputs hnode hexpr
    cases halike
    cases hkids
    obtain ⟨hname, binding, hbinding, hisParam⟩ := hparam
    rcases Context.resolveVar_known hbefore hvalue with
      ⟨hname', -⟩ | ⟨-, binding', hbinding', hbound⟩
    · exact absurd hname' hname
    · cases hbinding.symm.trans hbinding'
      rw [hbound, hisParam]
      rfl
  | field hnode hexpr _ ih =>
    obtain ⟨inputs, inside, _, halike, hkids, hvalue⟩ := hrun.exists_inputs hnode hexpr
    cases halike
    obtain ⟨base, rfl, horigin⟩ :=
      Context.resolve_field_known hvalue
    rw [horigin, ih hkids]
    rfl
  | element hnode hexpr _ ih =>
    obtain ⟨inputs, inside, _, halike, hkids, hvalue⟩ := hrun.exists_inputs hnode hexpr
    cases halike
    obtain ⟨base, indexer, element, rfl, -, horigin, helement⟩ :=
      Context.resolve_index_known hvalue
    rw [if_neg (fun h => absurd h.1 (by simp))] at helement
    obtain ⟨_, _, _, _, _, hvalues, hbase, -⟩ := hkids.exists_pair
    cases hvalues
    rw [horigin, ih hbase, helement]
    rfl

/-! ## The problem at a node -/

namespace Context

variable {ctx : Context} {body : Body} {id : NodeId} {node : Node} {expr : Expr NodeId}
  {depth : Nat} {scope before after : Scope} {values : List Resolved} {visits : List Visit}

/-- The problem found at the node itself, when it is evaluated with these names in scope. The
visit to it is the last one. -/
def problemAt? (ctx : Context) (body : Body) (depth : Nat) (id : NodeId) (scope : Scope) :
    Option Problem :=
  (ctx.evaluate body depth .root id scope).visits.getLast?.bind (·.verdict.problem?)

theorem exists_problemAt? (hfits : body.Fits depth id) (hnode : body.node? id = some node)
    (hexpr : node.expr = expr) (scope : Scope) :
    ∃ inputs inside visits, expr.Alike inputs ∧
      ctx.Run body (siblings [] 0 expr.children) scope inputs.children inside visits ∧
      ctx.problemAt? body depth id scope = (ctx.resolve inside inputs).problem? := by
  have hrun := run_evaluate ctx body depth [] id scope hfits
  obtain ⟨node', inputs, inside, visits, hnode', halike, hkids, -, -, hvisits⟩ := hrun.exists_kids
  cases hnode.symm.trans hnode'
  subst hexpr
  refine ⟨inputs, inside, visits, halike, hkids, ?_⟩
  rw [Path.ofSteps_nil] at hvisits
  rw [problemAt?, hvisits, List.getLast?_concat]
  rfl

/-- Whatever path leads to it, a node evaluates to the same. -/
theorem Run.eq_evaluate {steps : List Nat} {value : Resolved}
    (h : ctx.Run body [(steps, id)] before [value] after visits) (hfits : body.Fits depth id) :
    value = (ctx.evaluate body depth .root id before).result ∧
      after = (ctx.evaluate body depth .root id before).scope := by
  obtain ⟨hvalue, hafter⟩ := h.unique (run_evaluate ctx body depth [] id before hfits) rfl
  exact ⟨List.head_eq_of_cons_eq hvalue, hafter⟩

variable {target source : NodeId} {mode : Access}

/-- A store is judged by its target, and by the value from the names in scope after that. -/
theorem problemAt?_assign (hfits : body.Fits (depth + 1) id) (hnode : body.node? id = some node)
    (hexpr : node.expr = .assign target source mode) (scope : Scope) :
    ctx.problemAt? body (depth + 1) id scope =
      let place := ctx.evaluate body depth .root target scope
      storeProblem? place.result (ctx.evaluate body depth .root source place.scope).result mode := by
  have hmem : target ∈ node.expr.children ∧ source ∈ node.expr.children := by
    simp [hexpr, Expr.children]
  obtain ⟨inputs, inside, _, halike, hkids, hproblem⟩ := exists_problemAt? hfits hnode hexpr scope
  cases halike
  obtain ⟨_, _, _, _, _, hvalues, htarget, hsource⟩ := hkids.exists_pair
  cases hvalues
  obtain ⟨rfl, rfl⟩ := htarget.eq_evaluate (hfits.child hnode hmem.1)
  obtain ⟨rfl, -⟩ := hsource.eq_evaluate (hfits.child hnode hmem.2)
  exact hproblem

theorem problemAt?_ret (hfits : body.Fits (depth + 1) id) (hnode : body.node? id = some node)
    (hexpr : node.expr = .ret source mode) (scope : Scope) :
    ctx.problemAt? body (depth + 1) id scope =
      returnProblem? (ctx.evaluate body depth .root source scope).result mode := by
  have hmem : source ∈ node.expr.children := by simp [hexpr, Expr.children]
  obtain ⟨inputs, inside, _, halike, hkids, hproblem⟩ := exists_problemAt? hfits hnode hexpr scope
  cases halike
  obtain ⟨rfl, -⟩ := Run.eq_evaluate hkids (hfits.child hnode hmem)
  exact hproblem

end Context

/-! ## The two checks -/

theorem storeProblem?_caller_eq_none_iff {place stored : Value} {mode : Access}
    (hcaller : place.origin = .caller) :
    storeProblem? (.known place) (.known stored) mode = none ↔ .valueScoped ≤ stored.level := by
  simp only [storeProblem?, Resolved.isCallerPlace_known, hcaller, decide_true,
    Level.requiredForStore]
  exact Level.ite_lt_eq_none_iff

/-- Where a store is reported, both sides are known, and the level is below the one required. -/
theorem storeProblem?_eq_some {target value : Resolved} {mode : Access} {problem : Problem}
    (h : storeProblem? target value mode = some problem) :
    ∃ stored required, value = .known stored ∧
      problem = .escapingAssignment mode required stored.level ∧ stored.level < required := by
  unfold storeProblem? at h
  split at h
  next stored =>
    simp only at h
    split at h
    next hbelow =>
      cases h
      exact ⟨stored, _, rfl, rfl, hbelow⟩
    next => cases h
  · cases h

/-- Where a return is reported, the value is known. It is a reference into a receiver, or its level
is below the one required. -/
theorem returnProblem?_eq_some {value : Resolved} {mode : Access} {problem : Problem}
    (h : returnProblem? value mode = some problem) :
    ∃ returned, value = .known returned ∧
      ((∃ member, mode = .ref ∧ problem = .receiverReturned member) ∨
        (problem = .notReturnable mode (.requiredForReturn mode) (returned.returnedLevel mode) ∧
          returned.returnedLevel mode < .requiredForReturn mode)) := by
  unfold returnProblem? at h
  split at h
  · cases h
  next returned =>
    refine ⟨returned, rfl, ?_⟩
    split at h
    · cases h
      exact .inl ⟨_, rfl, rfl⟩
    · simp only at h
      split at h
      next hbelow =>
        cases h
        exact .inr ⟨rfl, hbelow⟩
      next => cases h

theorem kind_of_storeProblem? {target value : Resolved} {mode : Access} {problem : Problem}
    (h : storeProblem? target value mode = some problem) :
    problem.kind = .escapingAssignment := by
  obtain ⟨_, _, -, rfl, -⟩ := storeProblem?_eq_some h
  rfl

theorem kind_of_returnProblem? {value : Resolved} {mode : Access} {problem : Problem}
    (h : returnProblem? value mode = some problem) :
    problem.kind = .receiverReturned ∨ problem.kind = .notReturnable := by
  obtain ⟨_, -, ⟨_, -, rfl⟩ | ⟨rfl, -⟩⟩ := returnProblem?_eq_some h
  · exact .inl rfl
  · exact .inr rfl

/-- A value that is safe enough for the caller's storage is fit for a return, but for a place of
this frame by reference. -/
theorem returnProblem?_eq_none_iff {value : Value} {mode : Access}
    (hsafe : .valueScoped ≤ value.level)
    (hconfined : ∀ member, value.origin = .receiver member → value.level = .stackOnly) :
    returnProblem? (.known value) mode = none ↔ ¬ (mode = .ref ∧ value.origin = .frame) := by
  have hfit : ¬ value.level < .valueScoped := fun h => Level.not_le.2 h hsafe
  have hfitRef : ¬ value.level < .refScoped := fun h => hfit (Nat.lt_trans h (by decide))
  cases mode with
  | value =>
    have hlevel : value.returnedLevel .value = value.level :=
      if_neg fun h => absurd h.1 (by simp)
    simp [returnProblem?, Level.requiredForReturn, hlevel, hfit]
  | ref =>
    cases horigin : value.origin with
    | receiver member =>
      rw [hconfined member horigin] at hsafe
      exact absurd hsafe (by decide)
    | frame =>
      have hlevel : value.returnedLevel .ref = .stackOnly := if_pos ⟨rfl, horigin⟩
      have hbelow : Level.stackOnly < .refScoped := by decide
      simp [returnProblem?, Level.requiredForReturn, horigin, hlevel, hbelow]
    | caller | temporary =>
      have hlevel : value.returnedLevel .ref = value.level :=
        if_neg fun h => absurd (horigin.symm.trans h.2) Origin.noConfusion
      simp [returnProblem?, Level.requiredForReturn, horigin, hlevel, hfitRef]

/-! ## The headline -/

section Headline

variable {ctx : Context} {body : Body} {store ret target source : NodeId}
  {storeNode retNode : Node} {mode : Access} {depth : Nat} {scope middle : Scope} {name : String}

/-- **What may be stored into storage of the caller may be returned in the same way, but for a
place of this frame by reference.** If a store through a parameter by reference is known on both
sides and not reported, the return of the same expression, from the names in scope there, is fine
if and only if it is not of such a place by reference. The names are those before the store,
unless the target declares one. Every scope that a run comes to is local
(`Context.Comes.isLocal`). -/
theorem stored_returnable_iff (hfits : body.Fits (depth + 1) store)
    (hstore : body.node? store = some storeNode)
    (hassign : storeNode.expr = .assign target source mode)
    (hret : body.node? ret = some retNode) (hreturn : retNode.expr = .ret source mode)
    (hscope : scope.Local) (hplace : body.ValuePlace name target) (hparam : ctx.RefParam scope name)
    (hmiddle : (ctx.evaluate body depth .root target scope).scope = middle)
    (htarget : (ctx.evaluate body depth .root target scope).result ≠ .poisoned)
    (hsource : (ctx.evaluate body depth .root source middle).result ≠ .poisoned)
    (hpass : ∀ problem, ctx.problemAt? body (depth + 1) store scope = some problem →
      problem.kind ≠ .escapingAssignment) :
    (ctx.problemAt? body (depth + 1) ret middle = none ↔
        ¬ (mode = .ref ∧ ctx.Slot body (· ∈ middle.names) source)) ∧
      ((∀ declared, ¬ body.Exports declared target) → middle = scope) := by
  have hmem : target ∈ storeNode.expr.children ∧ source ∈ storeNode.expr.children := by
    simp [hassign, Expr.children]
  have hfitsTarget : body.Fits depth target := hfits.child hstore hmem.1
  have hfitsSource : body.Fits depth source := hfits.child hstore hmem.2
  have hfitsRet : body.Fits (depth + 1) ret := by
    refine .of_children hret fun child hchild => ?_
    rw [hreturn] at hchild
    cases List.mem_singleton.1 hchild
    exact hfitsSource
  have hrun := Context.run_evaluate ctx body depth [] target scope hfitsTarget
  have hrun' := Context.run_evaluate ctx body depth [] source middle hfitsSource
  have hproblem : ctx.problemAt? body (depth + 1) store scope = _ :=
    Context.problemAt?_assign hfits hstore hassign scope
  simp only [hmiddle] at hproblem
  rw [Path.ofSteps_nil, hmiddle] at hrun
  rw [Path.ofSteps_nil] at hrun'
  have hlocal : middle.Local := hrun.isLocal hscope
  refine ⟨?_, fun hnone => hrun.scope_eq fun e he => ?_⟩
  · rw [Context.problemAt?_ret hfitsRet hret hreturn]
    obtain ⟨place, hknown⟩ := Resolved.exists_known_of_ne htarget
    obtain ⟨stored, hknown'⟩ := Resolved.exists_known_of_ne hsource
    rw [hknown] at hrun hproblem
    rw [hknown'] at hrun' hproblem ⊢
    have hnone : storeProblem? (.known place) (.known stored) mode = none := by
      by_contra hsome
      obtain ⟨problem, hsome⟩ := Option.ne_none_iff_exists'.1 hsome
      exact hpass problem (hproblem.trans hsome) (kind_of_storeProblem? hsome)
    have hcaller : place.origin = .caller := hplace.origin_eq hrun hscope hparam
    have hsafe : .valueScoped ≤ stored.level := (storeProblem?_caller_eq_none_iff hcaller).1 hnone
    rw [← hrun'.origin_eq_frame_iff hlocal]
    exact returnProblem?_eq_none_iff hsafe fun _ horigin =>
      hrun'.confined hlocal (List.mem_singleton_self _) horigin
  · cases List.mem_singleton.1 he
    exact hnone

end Headline

/-- `p.f = ref v` and `return ref v`, with one node for `v`. -/
def slotBody (name : String) : Body where
  name := "slot"
  nodes := #[⟨.var "p", .zero⟩, ⟨.field ⟨0⟩ "f", .zero⟩, ⟨.var name, .zero⟩,
    ⟨.assign ⟨1⟩ ⟨2⟩ .ref, .zero⟩, ⟨.ret ⟨2⟩ .ref, .zero⟩]
  root := ⟨3⟩

/-- Heap data in two parameters by reference and in one by value. -/
def slotContext : Context where
  bindings := .ofList [("p", ⟨.heap, true, some "S"⟩), ("q", ⟨.heap, true, none⟩),
    ("x", ⟨.heap, false, none⟩)]
  shapes := .ofList [("S", ⟨[⟨"f", .heap, none⟩], [], none⟩)]
  config := {}

theorem valuePlace_slot (name : String) : (slotBody name).ValuePlace "p" ⟨1⟩ :=
  .field rfl rfl (.var rfl rfl)

theorem refParam_slot : slotContext.RefParam [] "p" :=
  ⟨List.not_mem_nil, ⟨.heap, true, some "S"⟩, by cbv, rfl⟩

/-- A parameter by reference may be stored in another one, and returned. -/
theorem stored_returnable_at_parameter :
    slotContext.problemAt? (slotBody "q") 3 ⟨4⟩ [] = none := by
  have hvalid : (slotBody "q").validate 2 = .ok () := by cbv
  have hfits : (slotBody "q").Fits 3 ⟨3⟩ := (Body.isTree_of_validate hvalid).fits
  have hscope : Scope.Local [] := fun _ he => absurd he List.not_mem_nil
  have htarget : (slotContext.evaluate (slotBody "q") 2 .root ⟨1⟩ []).result =
      .known ⟨.heap, none, .caller⟩ := by cbv
  have hsource : (slotContext.evaluate (slotBody "q") 2 .root ⟨2⟩ []).result =
      .known ⟨.heap, none, .caller⟩ := by cbv
  have hmiddle : (slotContext.evaluate (slotBody "q") 2 .root ⟨1⟩ []).scope = [] := by cbv
  have hstore : slotContext.problemAt? (slotBody "q") 3 ⟨3⟩ [] = none := by cbv
  have hret : (slotBody "q").node? ⟨4⟩ = some ⟨.ret ⟨2⟩ .ref, .zero⟩ := rfl
  refine (stored_returnable_iff hfits rfl rfl hret rfl hscope (valuePlace_slot "q") refParam_slot
    hmiddle (by simp [htarget]) (by simp [hsource]) (by simp [hstore])).1.2 ?_
  rintro ⟨-, hslot⟩
  cases hslot with
  | var hnode hexpr hlocal =>
    cases hnode
    cases hexpr
    rcases hlocal with hdeclared | ⟨binding, hbinding, hparam⟩
    · exact absurd hdeclared List.not_mem_nil
    · have hq : slotContext.bindings.get? "q" = some ⟨.heap, true, none⟩ := by cbv
      cases hq.symm.trans hbinding
      exact absurd hparam (by simp)
  | field hnode hexpr | block hnode hexpr =>
    cases hnode
    cases hexpr

/-- A parameter by value may be stored by reference, though it may not be returned so. -/
theorem stored_not_returnable_at_local :
    (slotBody "x").ValuePlace "p" ⟨1⟩ ∧ slotContext.RefParam [] "p" ∧
      (slotContext.evaluate (slotBody "x") 2 .root ⟨1⟩ []).scope = [] ∧
      (slotContext.evaluate (slotBody "x") 2 .root ⟨1⟩ []).result =
        .known ⟨.heap, none, .caller⟩ ∧
      (slotContext.evaluate (slotBody "x") 2 .root ⟨2⟩ []).result =
        .known ⟨.heap, none, .frame⟩ ∧
      slotContext.problemAt? (slotBody "x") 3 ⟨3⟩ [] = none ∧
      slotContext.problemAt? (slotBody "x") 3 ⟨4⟩ [] =
        some (.notReturnable .ref .refScoped .stackOnly) :=
  ⟨valuePlace_slot "x", refParam_slot, by cbv, by cbv, by cbv, by cbv, by cbv⟩

end FrameEscape
