import FrameEscape.Proofs.Check.Mixing
import FrameEscape.Proofs.Check.Poison

/-!
# The search for mixed arguments is a filter

Calls and indexes look for mixed arguments while they are evaluated, and this search can be switched
off. It reports a problem or it does not: no value is made of its answer, and where it answers,
nothing else is wrong with the node. So a verdict with the search off is the one with it on, without
a report of mixed arguments (`Context.resolve_mixing`), and a run is the same run but for those
reports (`mixing_switch_filters`).
-/

namespace FrameEscape

/-! ## The switch -/

/-- The configuration, with the given answer to whether mixed arguments are looked for. -/
def Config.mixing (config : Config) (look : Bool) : Config :=
  { config with checkArgumentMixing := look }

/-- The context, with the given answer to whether mixed arguments are looked for. -/
def Context.mixing (ctx : Context) (look : Bool) : Context :=
  { ctx with config := ctx.config.mixing look }

/-- Not a call that mixes its arguments. -/
def Problem.isUnmixed (problem : Problem) : Bool := problem.kind != .mixedArguments

/-- The verdict, without a report of mixed arguments. -/
def Verdict.unmixed (verdict : Verdict) : Verdict :=
  { verdict with problem? := verdict.problem?.filter Problem.isUnmixed }

/-! ## Problems of other kinds -/

theorem Problem.FailedLookup.isUnmixed {problem : Problem} (h : problem.FailedLookup) :
    problem.isUnmixed = true := by
  rcases h with h | h | h <;> simp [Problem.isUnmixed, h]

theorem isUnmixed_of_returnProblem? {value : Resolved} {mode : Access} {problem : Problem}
    (h : returnProblem? value mode = some problem) : problem.isUnmixed = true := by
  rcases kind_of_returnProblem? h with h | h <;> simp [Problem.isUnmixed, h]

namespace Verdict

/-- A verdict that reports nothing of the kind is kept. -/
theorem unmixed_eq_self {verdict : Verdict}
    (h : ∀ problem, verdict.problem? = some problem → problem.isUnmixed = true) :
    verdict.unmixed = verdict := by
  obtain ⟨value, problem?⟩ := verdict
  cases problem? with
  | none => rfl
  | some problem => simp [unmixed, h problem rfl]

theorem unmixed_ofExcept {α : Type} {found : Except Problem α} {f : α → Value}
    (hfound : ∀ problem, found = .error problem → problem.FailedLookup) :
    (ofExcept (found.map f)).unmixed = ofExcept (found.map f) := by
  refine unmixed_eq_self fun problem hproblem => ?_
  cases found with
  | ok a => cases hproblem
  | error =>
    cases hproblem
    exact (hfound _ rfl).isUnmixed

/-- A look-up that failed. -/
theorem unmixed_poisoned {problem : Problem} (h : problem.FailedLookup) :
    (⟨.poisoned, some problem⟩ : Verdict).unmixed = ⟨.poisoned, some problem⟩ :=
  unmixed_eq_self fun _ hproblem => Option.some.inj hproblem ▸ h.isUnmixed

end Verdict

theorem Resolved.andThen_unmixed {value : Resolved} {next next' : Value → Verdict}
    (h : ∀ known, next' known = (next known).unmixed) :
    value.andThen next' = (value.andThen next).unmixed := by
  cases value with
  | poisoned => rfl
  | known known => exact h known

/-! ## The rules -/

/-- What the search reports is a call that mixes its arguments. -/
theorem Config.mixedArguments?_filter (config : Config) (positions : List (Access × Resolved)) :
    (config.mixedArguments? positions).filter Problem.isUnmixed = none := by
  rw [Option.filter_eq_none_iff]
  intro problem hproblem
  cases hmixing : config.checkArgumentMixing with
  | false => simp [mixedArguments?, hmixing] at hproblem
  | true =>
    obtain ⟨_, _, rfl, -⟩ := (Config.mixedArguments?_eq_some_iff hmixing).1 hproblem
    simp [Problem.isUnmixed, Problem.kind]

namespace Context

variable (ctx : Context)

theorem resolveVar_mixing (scope : Scope) (name : String) :
    (ctx.mixing false).resolveVar scope name =
      ((ctx.mixing true).resolveVar scope name).unmixed := by
  have hbinding : (ctx.mixing false).bindings.get? name = (ctx.mixing true).bindings.get? name :=
    rfl
  unfold resolveVar
  rw [hbinding]
  cases scope.get? name with
  | some value => rfl
  | none => cases (ctx.mixing true).bindings.get? name <;> rfl

theorem resolveCall_mixing (receiver : Value) (name : String) (args : List Resolved) :
    (ctx.mixing false).resolveCall receiver name args =
      ((ctx.mixing true).resolveCall receiver name args).unmixed := by
  have hmember : (ctx.mixing false).member receiver name (·.method? name) =
      (ctx.mixing true).member receiver name (·.method? name) := rfl
  unfold resolveCall
  rw [hmember]
  cases hmethod : (ctx.mixing true).member receiver name (·.method? name) with
  | error problem => exact (Verdict.unmixed_poisoned (failedLookup_of_member hmethod)).symm
  | ok method =>
    simp only [Verdict.unmixed, Config.mixedArguments?_filter]
    rfl

theorem resolveIndex_mixing (base : Value) (position : Resolved) (access : Access) :
    (ctx.mixing false).resolveIndex base position access =
      ((ctx.mixing true).resolveIndex base position access).unmixed := by
  have hmember : (ctx.mixing false).member base "[]" (·.indexer) =
      (ctx.mixing true).member base "[]" (·.indexer) := rfl
  unfold resolveIndex
  rw [hmember]
  cases hindexer : (ctx.mixing true).member base "[]" (·.indexer) with
  | error problem => exact (Verdict.unmixed_poisoned (failedLookup_of_member hindexer)).symm
  | ok indexer =>
    simp only [Verdict.unmixed, Config.mixedArguments?_filter]
    rfl

theorem resolveConstruct_mixing (name : String) (args : List Resolved) :
    (ctx.mixing false).resolveConstruct name args =
      ((ctx.mixing true).resolveConstruct name args).unmixed := by
  have hshape : (ctx.mixing false).shape name = (ctx.mixing true).shape name := rfl
  unfold resolveConstruct
  rw [hshape]
  cases hfound : (ctx.mixing true).shape name with
  | error problem => exact (Verdict.unmixed_poisoned (failedLookup_of_shape hfound)).symm
  | ok shape =>
    simp only
    split <;> rfl

/-- Every kind of node has the same verdict with the search on and off, but for its report. -/
theorem resolve_mixing (scope : Scope) (inputs : Expr Resolved) :
    (ctx.mixing false).resolve scope inputs =
      ((ctx.mixing true).resolve scope inputs).unmixed := by
  cases inputs with
  | literal | declare | block => rfl
  | alloc region shape =>
    cases shape with
    | none => rfl
    | some name =>
      have hfailed : ∀ problem, (ctx.mixing true).shape name = .error problem →
          problem.FailedLookup := fun _ => failedLookup_of_shape
      exact (Verdict.unmixed_ofExcept hfailed).symm
  | var name => exact ctx.resolveVar_mixing scope name
  | field base name =>
    refine Resolved.andThen_unmixed fun base => ?_
    have hfailed : ∀ problem, (ctx.mixing true).member base name (·.field? name) = .error problem →
        problem.FailedLookup := fun _ => failedLookup_of_member
    exact (Verdict.unmixed_ofExcept hfailed).symm
  | call receiver name args =>
    exact Resolved.andThen_unmixed fun receiver => ctx.resolveCall_mixing receiver name args
  | index base position access =>
    exact Resolved.andThen_unmixed fun base => ctx.resolveIndex_mixing base position access
  | slice base args => exact Resolved.andThen_unmixed fun base => rfl
  | assign target value mode =>
    refine (Verdict.unmixed_eq_self fun problem hproblem => ?_).symm
    have hkind : problem.kind = .escapingAssignment := kind_of_storeProblem? hproblem
    simp [Problem.isUnmixed, hkind]
  | construct name args => exact ctx.resolveConstruct_mixing name args
  | ret value mode =>
    exact (Verdict.unmixed_eq_self fun _ => isUnmixed_of_returnProblem?).symm

end Context

/-! ## Runs -/

theorem filterMap_eq_filter_of_rel {α β γ : Type} {P : α → β → Prop} {as : List α} {bs : List β}
    {f : α → Option γ} {g : β → Option γ} {p : γ → Bool} (h : List.Forall₂ P as bs)
    (hfg : ∀ {a b}, P a b → g b = (f a).filter p) :
    bs.filterMap g = (as.filterMap f).filter p := by
  rw [List.filter_filterMap]
  exact (filterMap_eq_of_rel h fun hab => (hfg hab).symm).symm

theorem Visit.finding?_unmixed {w w' : Visit}
    (h : Visit.Rel (fun verdict verdict' => verdict' = verdict.unmixed) w w') :
    w'.finding? = w.finding?.filter (·.problem.isUnmixed) := by
  rw [finding?, finding?, h.verdict, h.node_eq, h.path_eq, h.span_eq, Option.filter_map]
  rfl

/-! ## The headline -/

/-- **Switching the search off is a filter.** With the search for mixed arguments off a body is
rejected for the same reason as with it on, or both report on it: every node has the same level, and
what is found with the search off is what is found with it on, in the same order and with all that
the problems say, without the calls that mix their arguments. -/
theorem mixing_switch_filters (ctx : Context) (body : Body) :
    (∃ mistake, body.check (ctx.mixing true) = .error mistake ∧
        body.check (ctx.mixing false) = .error mistake) ∨
      ∃ on off, body.check (ctx.mixing true) = .ok on ∧
        body.check (ctx.mixing false) = .ok off ∧ off.body = on.body ∧
        (∀ id, off.level? id = on.level? id) ∧
        off.findings = on.findings.filter (·.problem.kind != .mixedArguments) := by
  cases hvalid : body.validate ctx.config.maxDepth with
  | error mistake =>
    exact .inl ⟨mistake, Context.check_rejected hvalid, Context.check_rejected hvalid⟩
  | ok _ =>
    have hlockstep : Lockstep Eq (fun verdict verdict' => verdict' = verdict.unmixed)
        (ctx.mixing true) (ctx.mixing false) :=
      .of_resolve_eq (fun _ => rfl) ctx.resolve_mixing
    obtain ⟨on, off, hon, hoff, hvisits⟩ := hlockstep.exists_check rfl hvalid
    refine .inr ⟨on, off, hon, hoff, ?_, fun id => ?_, ?_⟩
    · rw [Report.body_eq hoff, Report.body_eq hon]
    · refine (Report.level?_eq_of_rel hvisits (fun hverdict => ?_) id).symm
      rw [hverdict]
      rfl
    · exact filterMap_eq_filter_of_rel hvisits Visit.finding?_unmixed

end FrameEscape
