import FrameEscape.Proofs.Check.Order
import Mathlib

/-!
# Each node is evaluated once

`Context.evaluate` has two ways out that are no evaluation of a node: the bound on the depth may
be used up, and an id may lead nowhere. Neither is ever taken on a body that was accepted. This
is said as a congruence: put anything in the place of the two ways out, raise the bound by any
amount, and the evaluation is the same (`Context.evaluateOr_congr`). So the bound is no part of
what evaluation computes, and the recursion ends by itself.

What is left is the order of the visits. The nodes that the root reaches are visited once each,
after their children, and no others (`evaluated_exactly_once`).
-/

namespace FrameEscape

/-! ## Replacing children by functions that agree -/

namespace Expr

variable {m : Type → Type} [Monad m] {α β : Type} {f g : Nat → α → m β}

theorem mapFromM_congr {as : List α} {start : Nat}
    (h : ∀ position, ∀ a ∈ as, f position a = g position a) :
    mapFromM f start as = mapFromM g start as := by
  induction as generalizing start with
  | nil => rfl
  | cons a rest ih =>
    rw [mapFromM, mapFromM, h start a List.mem_cons_self,
      ih fun position b hb => h position b (List.mem_cons_of_mem _ hb)]

/-- Only the children are replaced, so only there need the functions agree. -/
theorem mapIdxM_congr {expr : Expr α}
    (h : ∀ position, ∀ a ∈ expr.children, f position a = g position a) :
    expr.mapIdxM f = expr.mapIdxM g := by
  -- The children after the first one, of an expression with a row of them.
  have htail : ∀ {a args}, expr.children = a :: args → mapFromM f 1 args = mapFromM g 1 args :=
    fun heq => mapFromM_congr fun position b hb =>
      h position b (heq ▸ List.mem_cons_of_mem _ hb)
  cases expr with
  | literal | alloc | var => rfl
  | field base _ | declare _ base | ret base _ =>
    rw [mapIdxM, mapIdxM, h 0 base List.mem_cons_self]
  | call receiver _ args =>
    rw [mapIdxM, mapIdxM, h 0 receiver List.mem_cons_self, htail rfl]
  | slice base args => rw [mapIdxM, mapIdxM, h 0 base List.mem_cons_self, htail rfl]
  | index fst snd _ | assign fst snd _ =>
    rw [mapIdxM, mapIdxM, h 0 fst List.mem_cons_self,
      h 1 snd (List.mem_cons_of_mem _ List.mem_cons_self)]
  | construct _ args | block args =>
    have hargs : mapFromM f 0 args = mapFromM g 0 args := mapFromM_congr h
    rw [mapIdxM, mapIdxM, hargs]

end Expr

/-! ## Neither way out is taken -/

namespace Context

variable {ctx : Context} {body : Body}

/-- Evaluate one node that is there, given how its children are evaluated. -/
def evaluateNode (ctx : Context) (path : Path) (id : NodeId) (node : Node)
    (child : Nat → NodeId → Evaluation Resolved) : Evaluation Resolved := fun before =>
  let children := node.expr.mapIdxM child before
  let verdict := ctx.resolve children.scope children.result
  ⟨verdict.value, children.result.scopeAfter before children.scope,
    children.visits ++ [⟨id, path, node.span, verdict⟩]⟩

/-- `Context.evaluate` with `giveUp` for a node that the bound does not reach and for an id that
leads nowhere. -/
def evaluateOr (ctx : Context) (body : Body) (giveUp : NodeId → Evaluation Resolved) :
    Nat → Path → NodeId → Evaluation Resolved
  | 0, _, id => giveUp id
  | depth + 1, path, id =>
    match body.node? id with
    | none => giveUp id
    | some node => ctx.evaluateNode path id node fun position child =>
      ctx.evaluateOr body giveUp depth (path.child position) child

/-- The checker gives up with a poisoned value. -/
theorem evaluateOr_poisoned (ctx : Context) (body : Body) (depth : Nat) (path : Path)
    (id : NodeId) :
    ctx.evaluateOr body (fun _ => pure .poisoned) depth path id =
      ctx.evaluate body depth path id := by
  induction depth generalizing path id with
  | zero => rfl
  | succ depth ih =>
    rw [evaluateOr, evaluate]
    simp only [ih]
    rfl

/-- If the bound reaches all that is below a node, and all of that is there, then neither a higher
bound nor another way out makes a difference. Induction on the bound. -/
theorem evaluateOr_congr (giveUp giveUp' : NodeId → Evaluation Resolved) {depth depth' : Nat}
    {id : NodeId} (path : Path) (hfits : body.Fits depth id) (hle : depth ≤ depth') :
    ctx.evaluateOr body giveUp depth path id = ctx.evaluateOr body giveUp' depth' path id := by
  induction depth generalizing depth' path id with
  | zero => exact absurd (hfits [] id rfl).1 (Nat.not_lt_zero _)
  | succ depth ih =>
    obtain ⟨node, hnode⟩ := hfits.exists_node
    obtain ⟨more, rfl⟩ := Nat.exists_eq_add_of_le' hle
    have hchildren : ∀ position, ∀ child ∈ node.expr.children,
        ctx.evaluateOr body giveUp depth (path.child position) child =
          ctx.evaluateOr body giveUp' (more + depth) (path.child position) child :=
      fun position child hchild =>
        ih (path.child position) (hfits.child hnode hchild) (Nat.le_add_left _ _)
    rw [← Nat.add_assoc, evaluateOr, evaluateOr, hnode]
    funext before
    simp only [evaluateNode, Expr.mapIdxM_congr hchildren]

end Context

/-! ## Reports -/

namespace Report

variable {ctx : Context} {body : Body} {report : Report} {id : NodeId}

/-- The visits of a report do not depend on what the checker would do at a missing node, or with
a bound that is used up. -/
theorem visits_evaluateOr (hcheck : body.check ctx = .ok report)
    (giveUp : NodeId → Evaluation Resolved) {depth : Nat} (hdepth : ctx.config.maxDepth < depth) :
    (ctx.evaluateOr body giveUp depth .root body.root []).visits = report.visits := by
  obtain ⟨htree, -⟩ := Context.run_of_check hcheck
  unfold Body.check at hcheck
  rw [htree.validate] at hcheck
  cases hcheck
  rw [← Context.evaluateOr_poisoned,
    Context.evaluateOr_congr _ giveUp .root htree.fits hdepth]

theorem exists_level?_iff (hcheck : body.check ctx = .ok report) :
    (∃ level, report.level? id = some level) ↔ body.Reaches id := by
  rw [← exists_verdict?_iff hcheck]
  simp only [level?, Option.map_eq_some_iff]
  constructor
  · rintro ⟨_, verdict, hverdict, -⟩
    exact ⟨verdict, hverdict⟩
  · rintro ⟨verdict, hverdict⟩
    exact ⟨_, verdict, hverdict, rfl⟩

/-- A child is done with before its parent. -/
theorem before_of_child (hcheck : body.check ctx = .ok report) (hid : body.Reaches id)
    {node : Node} (hnode : body.node? id = some node) {child : NodeId}
    (hchild : child ∈ node.expr.children) : report.Before child id :=
  before_of_above hcheck hid ((Body.above_iff hnode).2 ⟨child, hchild, [], rfl⟩)

end Report

/-! ## The headline -/

/-- **Each node that the root reaches is evaluated once, and no other.** The evaluation of an
accepted body ends by itself and never meets a missing node: with any bound above the limit, and
anything in the place of the two ways out, it makes the same visits. These are one for each node
that the root reaches, after its children, and none for any other id. The same ids have levels. -/
theorem evaluated_exactly_once {ctx : Context} {body : Body}
    (hvalid : body.validate ctx.config.maxDepth = .ok ()) :
    ∃ report, body.check ctx = .ok report ∧
      (∀ giveUp depth, ctx.config.maxDepth < depth →
        (ctx.evaluateOr body giveUp depth .root body.root []).visits = report.visits) ∧
      (∀ id, body.Reaches id → (report.visits.map (·.node)).count id = 1) ∧
      (∀ id, ¬ body.Reaches id → (report.visits.map (·.node)).count id = 0) ∧
      (∀ id node, body.Reaches id → body.node? id = some node →
        ∀ child ∈ node.expr.children, report.Before child id) ∧
      (∀ id, (∃ level, report.level? id = some level) ↔ body.Reaches id) ∧
      ∀ id, body.contains id = false → report.level? id = none := by
  have htree : body.IsTree ctx.config.maxDepth := Body.isTree_of_validate hvalid
  obtain ⟨report, _, _, hcheck, -⟩ := Context.exists_check htree
  refine ⟨report, hcheck, ?_, ?_, ?_, ?_, ?_, ?_⟩
  · intro giveUp depth hdepth
    exact Report.visits_evaluateOr hcheck giveUp hdepth
  · intro id hid
    exact List.count_eq_one_of_mem (Report.nodup_visits hcheck)
      ((Report.mem_visits_iff hcheck).2 hid)
  · intro id hid
    exact List.count_eq_zero.2 fun hmem => hid ((Report.mem_visits_iff hcheck).1 hmem)
  · intro id node hid hnode child hchild
    exact Report.before_of_child hcheck hid hnode hchild
  · intro id
    exact Report.exists_level?_iff hcheck
  · intro id hmissing
    rw [Option.eq_none_iff_forall_ne_some]
    intro level hlevel
    obtain ⟨steps, hsteps⟩ := (Report.exists_level?_iff hcheck).1 ⟨level, hlevel⟩
    rw [htree.contains_of_follow? hsteps] at hmissing
    cases hmissing

/-- `x.f`, with a literal that nothing refers to. -/
def spareBody : Body where
  name := "spare"
  nodes := #[⟨.literal, .zero⟩, ⟨.var "x", .zero⟩, ⟨.field ⟨1⟩ "f", .zero⟩]
  root := ⟨2⟩

/-- No names and no shapes. -/
def bareContext : Context where
  bindings := .ofList []
  shapes := .ofList []
  config := {}

/-- The variable is evaluated once, before the field, and the literal is not. -/
theorem evaluated_exactly_once_at_spare :
    ∃ report, spareBody.check bareContext = .ok report ∧
      (report.visits.map (·.node)).count ⟨1⟩ = 1 ∧ report.Before ⟨1⟩ ⟨2⟩ ∧
      (report.visits.map (·.node)).count ⟨0⟩ = 0 ∧ report.level? ⟨3⟩ = none := by
  have hvalid : spareBody.validate bareContext.config.maxDepth = .ok () := by cbv
  obtain ⟨report, hcheck, -, honce, hnever, hafter, hlevel, houtside⟩ :=
    evaluated_exactly_once hvalid
  have hspare : (spareBody.check bareContext).map (·.level? ⟨0⟩) = .ok none := by cbv
  have hunreached : ¬ spareBody.Reaches ⟨0⟩ := by
    intro hreach
    obtain ⟨level, h⟩ := (hlevel ⟨0⟩).2 hreach
    exact absurd (h.symm.trans (Report.eq_of_map_check hcheck hspare)) (by simp)
  refine ⟨report, hcheck, honce ⟨1⟩ ⟨[0], rfl⟩, ?_, hnever ⟨0⟩ hunreached, houtside ⟨3⟩ rfl⟩
  exact hafter ⟨2⟩ _ ⟨[], rfl⟩ rfl ⟨1⟩ List.mem_cons_self

end FrameEscape
