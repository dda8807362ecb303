import FrameEscape.Proofs.Check.Report
import Mathlib

/-!
# Calls that mix caller-owned references with stack-only data

A call passes values at positions: the receiver at 0, the arguments after it. The rule is
about pairs of different positions, a reference that the caller owns at one and stack-only
data at the other (`Mixes`). The checker looks for the data only beside the first reference
(`Config.mixedArguments?_eq_some_iff`). So each pair that it reports is one (no false alarm),
but it overlooks the pairs of a call whose first reference is itself the only stack-only value
(`mixing_reported_iff`).
-/

namespace FrameEscape

/-! ## Positions -/

/-- The position passes by reference a place in storage that the caller owns. -/
def RefLive (positions : List (Access × Resolved)) (i : Nat) : Prop :=
  ∃ value, positions[i]? = some (.ref, value) ∧ value.isCallerPlace = true

/-- The position passes a value that is known, and known to be stack-only. -/
def StackData (positions : List (Access × Resolved)) (j : Nat) : Prop :=
  ∃ mode value, positions[j]? = some (mode, value) ∧ value.isStackOnly = true

/-- The callee could store the stack-only data at `j` through the reference at `i`. -/
def Mixes (positions : List (Access × Resolved)) (i j : Nat) : Prop :=
  i ≠ j ∧ RefLive positions i ∧ StackData positions j

/-- The only stack-only value of the call is the first of its references, of which there are
others. -/
def OnlyFirstReference (positions : List (Access × Resolved)) : Prop :=
  ∃ i, (RefLive positions i ∧ ∀ k < i, ¬ RefLive positions k) ∧
    (∀ j, StackData positions j ↔ j = i) ∧ ∃ k, k ≠ i ∧ RefLive positions k

/-! ## The search -/

theorem findIdx?_eq_some_iff_first {α : Type} {as : List α} {p : α → Bool} {i : Nat} :
    as.findIdx? p = some i ↔
      (∃ a, as[i]? = some a ∧ p a = true) ∧
        ∀ k < i, ¬ ∃ a, as[k]? = some a ∧ p a = true := by
  rw [List.findIdx?_eq_some_iff_getElem]
  constructor
  · rintro ⟨hi, hp, hfirst⟩
    refine ⟨⟨as[i], List.getElem?_eq_getElem hi, hp⟩, ?_⟩
    rintro k hk ⟨a, ha, hpa⟩
    obtain ⟨_, rfl⟩ := List.getElem?_eq_some_iff.1 ha
    exact hfirst k hk hpa
  · rintro ⟨⟨a, ha, hpa⟩, hfirst⟩
    obtain ⟨hi, rfl⟩ := List.getElem?_eq_some_iff.1 ha
    refine ⟨hi, hpa, fun k hk hpk => hfirst k hk ⟨as[k], ?_, hpk⟩⟩
    exact List.getElem?_eq_getElem (Nat.lt_trans hk hi)

variable {config : Config} {positions : List (Access × Resolved)}

/-- The search commits to the first reference, and takes the first stack-only value beside
it. -/
theorem Config.mixedArguments?_eq_some_iff (hmixing : config.checkArgumentMixing = true)
    {problem : Problem} :
    config.mixedArguments? positions = some problem ↔
      ∃ i j, problem = .mixedArguments i j ∧
        (RefLive positions i ∧ ∀ k < i, ¬ RefLive positions k) ∧
        (i ≠ j ∧ StackData positions j) ∧ ∀ k < j, ¬ (i ≠ k ∧ StackData positions k) := by
  -- What the two searches look for, in terms of positions.
  have hlive : ∀ k, (∃ e, positions[k]? = some e ∧ (e.1 == .ref && e.2.isCallerPlace) = true) ↔
      RefLive positions k := by
    intro k
    constructor
    · rintro ⟨⟨mode, value⟩, he, hlive⟩
      simp only [Bool.and_eq_true, beq_iff_eq] at hlive
      exact ⟨value, hlive.1 ▸ he, hlive.2⟩
    · rintro ⟨value, he, hlive⟩
      exact ⟨_, he, by simpa using hlive⟩
  have hdata : ∀ i k, (∃ e, positions.zipIdx[k]? = some e ∧
      (e.2 != i && e.1.2.isStackOnly) = true) ↔ i ≠ k ∧ StackData positions k := by
    intro i k
    simp only [List.getElem?_zipIdx, Nat.zero_add, Option.map_eq_some_iff, Bool.and_eq_true,
      bne_iff_ne]
    constructor
    · rintro ⟨_, ⟨⟨mode, value⟩, he, rfl⟩, hne, hdata⟩
      exact ⟨Ne.symm hne, mode, value, he, hdata⟩
    · rintro ⟨hne, mode, value, he, hdata⟩
      exact ⟨_, ⟨_, he, rfl⟩, Ne.symm hne, hdata⟩
  unfold mixedArguments?
  rw [if_pos hmixing]
  simp only [Option.bind_eq_bind, Option.bind_eq_some_iff, findIdx?_eq_some_iff_first, hlive,
    hdata, Option.pure_def, Option.some.injEq]
  constructor
  · rintro ⟨i, hi, j, hj, rfl⟩
    exact ⟨i, j, rfl, hi, hj⟩
  · rintro ⟨i, j, rfl, hi, hj⟩
    exact ⟨i, hi, j, hj, rfl⟩

theorem RefLive.exists_first {i : Nat} (h : RefLive positions i) :
    ∃ first, RefLive positions first ∧ ∀ k < first, ¬ RefLive positions k := by
  classical
  have hex : ∃ i, RefLive positions i := ⟨i, h⟩
  exact ⟨Nat.find hex, Nat.find_spec hex, fun k hk => Nat.find_min hex hk⟩

theorem Config.exists_mixedArguments?_iff (hmixing : config.checkArgumentMixing = true) :
    (∃ problem, config.mixedArguments? positions = some problem) ↔
      ∃ i j, (RefLive positions i ∧ ∀ k < i, ¬ RefLive positions k) ∧ i ≠ j ∧
        StackData positions j := by
  classical
  constructor
  · rintro ⟨problem, hproblem⟩
    obtain ⟨i, j, -, hi, hj, -⟩ := (mixedArguments?_eq_some_iff hmixing).1 hproblem
    exact ⟨i, j, hi, hj.1, hj.2⟩
  · rintro ⟨i, j, hi, hne, hdata⟩
    have hex : ∃ j, i ≠ j ∧ StackData positions j := ⟨j, hne, hdata⟩
    exact ⟨_, (mixedArguments?_eq_some_iff hmixing).2
      ⟨i, Nat.find hex, rfl, hi, Nat.find_spec hex, fun k hk => Nat.find_min hex hk⟩⟩

/-- The search finds a pair whenever there is one, but for the calls whose first reference is
their only stack-only value. -/
theorem Config.search_complete_iff (hmixing : config.checkArgumentMixing = true) :
    ((∃ problem, config.mixedArguments? positions = some problem) ↔
        ∃ i j, Mixes positions i j) ↔ ¬ OnlyFirstReference positions := by
  rw [exists_mixedArguments?_iff hmixing]
  constructor
  · rintro hiff ⟨i, hi, honly, k, hne, hk⟩
    obtain ⟨i', j, hi', hne', hj⟩ := hiff.2 ⟨k, i, hne, hk, (honly i).2 rfl⟩
    -- There is one first reference, and the data is at it.
    have heq : i' = i := by
      rcases Nat.lt_trichotomy i' i with h | h | h
      · exact absurd hi'.1 (hi.2 i' h)
      · exact h
      · exact absurd hi.1 (hi'.2 i h)
    exact hne' (heq.trans ((honly j).1 hj).symm)
  · intro hnot
    constructor
    · rintro ⟨i, j, hi, hne, hj⟩
      exact ⟨i, j, hne, hi.1, hj⟩
    · rintro ⟨i, j, hne, hi, hj⟩
      obtain ⟨first, hfirst⟩ := hi.exists_first
      -- There is data beside the first reference, or all of it is at that position.
      by_cases hother : ∃ k, first ≠ k ∧ StackData positions k
      · obtain ⟨k, hk, hdata⟩ := hother
        exact ⟨first, k, hfirst, hk, hdata⟩
      · have honly : ∀ k, StackData positions k → k = first := fun k hk =>
          Classical.byContradiction fun h => hother ⟨k, Ne.symm h, hk⟩
        have hjfirst : j = first := honly j hj
        refine absurd ⟨first, hfirst, fun k => ⟨honly k, ?_⟩, i, ?_, hi⟩ hnot
        · rintro rfl
          exact hjfirst ▸ hj
        · exact fun h => hne (h.trans hjfirst.symm)

/-! ## The positions of a node -/

/-- The values that an evaluated call or index passes, each with how it is passed: the
receiver is known and has the method, or the base is known and has an indexer. -/
inductive Passes (ctx : Context) (body : Body) (report : Report) :
    NodeId → List (Access × Resolved) → Prop where
  | call {id node receiver name args value shapeName shape method values}
      (hnode : body.node? id = some node) (hexpr : node.expr = .call receiver name args)
      (hvalue : report.value? receiver = some (.known value))
      (hshapeName : value.shape = some shapeName) (hshape : ctx.shapes.get? shapeName = some shape)
      (hmethod : shape.method? name = some method)
      (hvalues : List.Forall₂ (fun arg value => report.value? arg = some value) args values) :
      Passes ctx body report id ((method.receiver, .known value) ::
        values.mapIdx fun i arg => (method.paramMode i, arg))
  | index {id node base position access value shapeName shape indexer positionValue}
      (hnode : body.node? id = some node) (hexpr : node.expr = .index base position access)
      (hvalue : report.value? base = some (.known value))
      (hshapeName : value.shape = some shapeName) (hshape : ctx.shapes.get? shapeName = some shape)
      (hindexer : shape.indexer = some indexer)
      (hposition : report.value? position = some positionValue) :
      Passes ctx body report id [(access, .known value), (.value, positionValue)]

variable {ctx : Context} {body : Body} {report : Report} {id : NodeId}

/-- The only problem that such a node can have is that of the values it passes. -/
theorem Passes.exists_verdict? (hcheck : body.check ctx = .ok report) (hid : body.Reaches id)
    (h : Passes ctx body report id positions) :
    ∃ verdict, report.verdict? id = some verdict ∧
      verdict.problem? = ctx.config.mixedArguments? positions := by
  obtain ⟨steps, hsteps⟩ := hid
  cases h with
  | @call _ _ name _ value _ _ method _ hnode hexpr hvalue hshapeName hshape hmethod hvalues =>
    obtain ⟨_, _, inputs, -, hrel, -, hverdict⟩ := Report.exists_resolve hcheck hsteps hnode hexpr
    refine ⟨_, hverdict, ?_⟩
    cases hrel with
    | call hreceiver _ hargs =>
      cases hvalue.symm.trans hreceiver
      have hunique : Relator.RightUnique fun arg value => report.value? arg = some value :=
        fun _ _ _ ha hb => Option.some.inj (ha.symm.trans hb)
      have hmember : ctx.member value name (·.method? name) = .ok method :=
        Context.member_eq_ok_iff.2 ⟨_, _, hshapeName, hshape, hmethod⟩
      rw [List.right_unique_forall₂' hunique hvalues hargs]
      simp only [Context.resolve, Resolved.andThen, Context.resolveCall, hmember]
  | @index _ _ _ _ value _ _ indexer _ hnode hexpr hvalue hshapeName hshape hindexer hposition =>
    obtain ⟨_, _, inputs, -, hrel, -, hverdict⟩ := Report.exists_resolve hcheck hsteps hnode hexpr
    refine ⟨_, hverdict, ?_⟩
    cases hrel with
    | index hbase hpos access =>
      cases hvalue.symm.trans hbase
      cases hposition.symm.trans hpos
      have hmember : ctx.member value "[]" (·.indexer) = .ok indexer :=
        Context.member_eq_ok_iff.2 ⟨_, _, hshapeName, hshape, hindexer⟩
      simp only [Context.resolve, Resolved.andThen, Context.resolveIndex, hmember]

/-! ## The headline -/

/-- **A call that mixes is reported, but for one arrangement.** Where a node passes values at
`positions`, every problem found is a pair that mixes, and at most one is found. One is found
whenever there is a pair, if and only if the first reference is not the only stack-only value
beside other references. -/
theorem mixing_reported_iff (hcheck : body.check ctx = .ok report)
    (hmixing : ctx.config.checkArgumentMixing = true) (hid : body.Reaches id)
    (hpasses : Passes ctx body report id positions) :
    (∀ finding ∈ report.findings, finding.node = id →
        ∃ i j, finding.problem = .mixedArguments i j ∧ Mixes positions i j) ∧
      (report.findings.map (·.node)).count id ≤ 1 ∧
      (((∃ finding ∈ report.findings, finding.node = id ∧
            finding.problem.kind = .mixedArguments) ↔ ∃ i j, Mixes positions i j) ↔
        ¬ OnlyFirstReference positions) := by
  obtain ⟨verdict, hverdict, hproblem⟩ := hpasses.exists_verdict? hcheck hid
  have hsearch : ∀ problem, ctx.config.mixedArguments? positions = some problem →
      ∃ i j, problem = .mixedArguments i j ∧ Mixes positions i j := by
    intro problem hsome
    obtain ⟨i, j, heq, hi, hj, -⟩ := (Config.mixedArguments?_eq_some_iff hmixing).1 hsome
    exact ⟨i, j, heq, hj.1, hi.1, hj.2⟩
  have hfound : (∃ finding ∈ report.findings, finding.node = id ∧
      finding.problem.kind = .mixedArguments) ↔
      ∃ problem, ctx.config.mixedArguments? positions = some problem := by
    rw [Report.exists_finding_iff hcheck (P := fun problem => problem.kind = .mixedArguments)]
    constructor
    · rintro ⟨verdict', problem, hverdict', hsome, -⟩
      cases hverdict.symm.trans hverdict'
      exact ⟨problem, hproblem.symm.trans hsome⟩
    · rintro ⟨problem, hsome⟩
      obtain ⟨i, j, rfl, -⟩ := hsearch problem hsome
      exact ⟨verdict, _, hverdict, hproblem.trans hsome, rfl⟩
  refine ⟨?_, Report.count_findings_le_one hcheck id, ?_⟩
  · intro finding hfinding hnode
    obtain ⟨verdict', _, hverdict', hsome, rfl⟩ := (Report.exists_finding_iff hcheck).1
      ⟨finding, hfinding, hnode, (rfl : finding.problem = finding.problem)⟩
    cases hverdict.symm.trans hverdict'
    exact hsearch _ (hproblem.symm.trans hsome)
  · rw [hfound]
    exact Config.search_complete_iff hmixing

/-! ## Two parameters that are swapped -/

/-- `receiver.Swap(ref arg)` -/
def swapBody (receiver arg : String) : Body where
  name := "swap"
  nodes := #[⟨.var receiver, .zero⟩, ⟨.var arg, .zero⟩, ⟨.call ⟨0⟩ "Swap" [⟨1⟩], .zero⟩]
  root := ⟨2⟩

def swapShape : Shape := ⟨[], [⟨"Swap", .ref, [.ref], .unit, none⟩], none⟩

/-- Two parameters by reference, of which `p` may hold stack-only data. -/
def swapContext : Context where
  bindings := .ofList [("p", ⟨.stackOnly, true, some "S"⟩), ("q", ⟨.heap, true, some "S"⟩)]
  shapes := .ofList [("S", swapShape)]
  config := {}

/-- The parameters as the call passes them. -/
def swapPosition (level : Level) : Access × Resolved := (.ref, .known ⟨level, some "S", .caller⟩)

/-- The report of the call. -/
def swapReport (receiver arg : Level) (problem? : Option Problem) : Report where
  body := "swap"
  visits := [
    ⟨⟨0⟩, ⟨[0]⟩, .zero, .ok (swapPosition receiver).2⟩,
    ⟨⟨1⟩, ⟨[1]⟩, .zero, .ok (swapPosition arg).2⟩,
    ⟨⟨2⟩, ⟨[]⟩, .zero, .statement problem?⟩]

theorem passes_swap (receiverName argName : String) (receiver arg : Level)
    (problem? : Option Problem) :
    Passes swapContext (swapBody receiverName argName) (swapReport receiver arg problem?) ⟨2⟩
      [swapPosition receiver, swapPosition arg] := by
  have hshape : swapContext.shapes.get? "S" = some swapShape := by cbv
  have hmethod : swapShape.method? "Swap" = some ⟨"Swap", .ref, [.ref], .unit, none⟩ := rfl
  have hargs : List.Forall₂
      (fun id value => (swapReport receiver arg problem?).value? id = some value) [⟨1⟩]
      [(swapPosition arg).2] := .cons rfl .nil
  exact .call rfl rfl rfl rfl hshape hmethod hargs

/-- A stack-only argument of a receiver that is safe is found. -/
theorem mixing_reported_at_swap :
    ∃ report, (swapBody "q" "p").check swapContext = .ok report ∧
      ∃ finding ∈ report.findings, finding.node = ⟨2⟩ ∧
        finding.problem.kind = .mixedArguments := by
  have hcheck : (swapBody "q" "p").check swapContext =
      .ok (swapReport .heap .stackOnly (some (.mixedArguments 0 1))) := by cbv
  have hpasses := passes_swap "q" "p" .heap .stackOnly (some (.mixedArguments 0 1))
  obtain ⟨-, -, hiff⟩ := mixing_reported_iff hcheck rfl ⟨[], rfl⟩ hpasses
  refine ⟨_, hcheck, (hiff.2 ?_).2 ⟨0, 1, by decide, ⟨_, rfl, rfl⟩, ⟨_, _, rfl, rfl⟩⟩⟩
  -- The stack-only value is not the first reference.
  rintro ⟨i, ⟨-, hfirst⟩, honly, -⟩
  have hi : 1 = i := (honly 1).1 ⟨_, _, rfl, rfl⟩
  exact hfirst 0 (by omega) ⟨_, rfl, rfl⟩

/-- With the two exchanged the pair is overlooked, though the call is as unsafe. -/
theorem mixing_overlooked_at_swap :
    ∃ report positions, (swapBody "p" "q").check swapContext = .ok report ∧
      swapContext.config.checkArgumentMixing = true ∧
      Passes swapContext (swapBody "p" "q") report ⟨2⟩ positions ∧ Mixes positions 1 0 ∧
      report.findings = [] :=
  ⟨_, _, by cbv, rfl, passes_swap "p" "q" .stackOnly .heap none,
    ⟨by decide, ⟨_, rfl, rfl⟩, ⟨_, _, rfl, rfl⟩⟩, rfl⟩

end FrameEscape
