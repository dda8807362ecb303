import FrameEscape.Proofs.Check.PostOrder
import FrameEscape.Proofs.Diagnostic.ShownRows
import FrameEscape.Proofs.Diagnostic.Verdict
import Mathlib

/-!
# Paths that are shown

A finding shows the path to its node as numbers with dots between them, and the path to the root
as a word. No two paths are shown alike: the text can be split at its dots, a number can be read
back from its digits, and the word is no number.

* **`Path.splitOn_text`**: split at its dots, the text of a path gives the digits of the steps.
* **`Path.text_injective`**: paths that are shown alike are the same.
* **`Diagnostic.ShowsPath`**: on a terminal and in JSON, the diagnostic has this text for a path.
* **`Body.LedTo`**: followed from the root, the text leads to this node.
* **`shown_paths_identify`**: the headline.
-/

namespace FrameEscape

open LineIndex (ofText)

/-! ## The text of a path -/

namespace Path

theorem dot_not_mem_repr (n : Nat) : '.' ∉ n.repr.toList := by
  intro hdot
  exact absurd (Json.isDigit_of_mem_repr hdot) (by decide)

/-- Split at its dots, the text of a path gives the digits of the steps. -/
theorem splitOn_text {steps : List UInt32} (h : steps ≠ []) :
    (Path.mk steps).text.toList.splitOn '.' = steps.map (·.toNat.repr.toList) := by
  obtain ⟨first, rest, rfl⟩ := List.exists_cons_of_ne_nil h
  have htext : (Path.mk (first :: rest)).text.toList =
      ['.'].intercalate ((first :: rest).map (·.toNat.repr.toList)) := by
    show (".".intercalate ((first :: rest).map (·.toNat.repr))).toList = _
    rw [String.toList_intercalate, List.map_map]
    rfl
  rw [htext]
  apply List.splitOn_intercalate
  · intro digits hdigits
    obtain ⟨step, -, rfl⟩ := List.mem_map.1 hdigits
    exact dot_not_mem_repr _
  · exact List.cons_ne_nil _ _

theorem repr_toNat_injective :
    Function.Injective fun step : UInt32 => step.toNat.repr.toList := by
  intro step step' h
  have hdigits : step.toNat.repr.toList = step'.toNat.repr.toList := h
  apply UInt32.toNat_inj.1
  rw [← Json.digitsValue_repr step.toNat, hdigits, Json.digitsValue_repr]

/-- The word for the root is no number. -/
theorem text_ne_root {steps : List UInt32} (h : steps ≠ []) :
    (Path.mk steps).text ≠ root.text := by
  intro heq
  have hroot : root.text.toList.splitOn '.' = [root.text.toList] := by decide
  have hsteps := splitOn_text h
  rw [heq, hroot] at hsteps
  obtain ⟨step, -, hdigits⟩ := List.mem_map.1 (hsteps ▸ List.mem_singleton_self root.text.toList)
  -- The only part of the word would be the digits of a step, and it begins with a bracket.
  have hmem : '<' ∈ step.toNat.repr.toList := by
    rw [hdigits]
    decide
  exact absurd (Json.isDigit_of_mem_repr hmem) (by decide)

/-- Paths that are shown alike are the same. -/
theorem text_injective : Function.Injective text := by
  rintro ⟨steps⟩ ⟨steps'⟩ h
  by_cases hsteps : steps = [] <;> by_cases hsteps' : steps' = []
  · rw [hsteps, hsteps']
  · subst hsteps
    exact absurd h.symm (text_ne_root hsteps')
  · subst hsteps'
    exact absurd h (text_ne_root hsteps)
  · have hdigits := splitOn_text hsteps
    rw [h, splitOn_text hsteps'] at hdigits
    rw [repr_toNat_injective.list_map hdigits]

end Path

/-! ## Where a path is shown -/

/-- The diagnostic has the text for its path: in the only remark of that kind on a terminal, and in
JSON. -/
structure Diagnostic.ShowsPath (d : Diagnostic) (text : String) : Prop where
  terminal : ∀ source file inColour, d.Shows source file inColour (.remark .path text)
  unique : ∀ source file other,
    Row.remark .path other ∈ d.rows (ofText source) source file → other = text
  json : ∀ source, (d.toJson (ofText source) source).member? "path" = some (.str text)

/-- No row of the snippet is a remark. -/
theorem Diagnostic.remark_not_mem_snippet (d : Diagnostic) (source : String) (file : Option String)
    (about : Remark) (text : String) :
    Row.remark about text ∉ d.snippet (ofText source) source file := by
  unfold snippet
  split
  · exact List.not_mem_nil
  · split
    · exact List.not_mem_nil
    · simp [Label.rows]

theorem Diagnostic.showsPath {d : Diagnostic} {text : String} (h : d.path = some text) :
    d.ShowsPath text := by
  have hremark : ∀ other, Row.remark .path other ∈ d.remarks ↔ other = text := by
    intro other
    rw [remarks_eq, h]
    simp
  constructor
  case terminal =>
    intro source file inColour
    apply shows_of_mem
    exact List.mem_cons_of_mem _ (List.mem_append_right _ ((hremark text).2 rfl))
  case unique =>
    intro source file other hother
    simp only [rows, List.mem_cons, List.mem_append, reduceCtorEq, false_or] at hother
    exact (hremark other).1 (hother.resolve_left (d.remark_not_mem_snippet source file _ _))
  case json =>
    intro source
    simp [toJson, h]

/-- A path that is shown as this text leads from the root to the node. -/
def Body.LedTo (body : Body) (text : String) (id : NodeId) : Prop :=
  ∃ path : Path, path.text = text ∧ body.follow? body.root path.positions = some id

namespace Report

variable {ctx : Context} {body : Body} {report : Report}

/-- The path that a finding shows leads to its node and nowhere else. -/
theorem ledTo_iff (hcheck : body.check ctx = .ok report) {finding : Finding}
    (hfinding : finding ∈ report.findings) (id : NodeId) :
    body.LedTo finding.path.text id ↔ id = finding.node := by
  obtain ⟨w, hw, hnode, hpath, -⟩ := mem_findings_iff.1 hfinding
  have hfollow : body.follow? body.root finding.path.positions = some finding.node := by
    rw [← hnode, ← hpath]
    exact (visit_located hcheck hw).1
  constructor
  · -- Another path with this text would be the same path.
    rintro ⟨path, htext, hid⟩
    rw [Path.text_injective htext] at hid
    exact Option.some.inj (hid.symm.trans hfollow)
  · rintro rfl
    exact ⟨finding.path, rfl, hfollow⟩

/-- The paths of the findings are in order, so no two are the same. -/
theorem nodup_path_text (hcheck : body.check ctx = .ok report) :
    (report.findings.map (·.path.text)).Nodup := by
  have horder := List.pairwise_map.1 (pairwise_findings hcheck)
  refine List.pairwise_map.2 (horder.imp fun hbefore htext => ?_)
  rw [Path.text_injective htext] at hbefore
  exact PostOrder.irrefl _ hbefore

end Report

/-! ## The headline -/

/-- **Paths that are shown identify nodes.** No two paths are shown alike, that to the root
included. What a finding shows as its path, on a terminal and in JSON, leads from the root of its
body to its node and nowhere else, and no two findings of a report show the same. -/
theorem shown_paths_identify :
    (∀ path path' : Path, path.text = path'.text → path = path') ∧
    ∀ (ctx : Context) (body : Body) (report : Report), body.check ctx = .ok report →
      (∀ finding ∈ report.findings,
        finding.toDiagnostic.ShowsPath finding.path.text ∧
          ∀ id, body.LedTo finding.path.text id ↔ id = finding.node) ∧
      (report.findings.map (·.path.text)).Nodup := by
  refine ⟨fun path path' h => Path.text_injective h, fun ctx body report hcheck => ⟨?_, ?_⟩⟩
  · intro finding hfinding
    exact ⟨Diagnostic.showsPath (presents_toDiagnostic finding).path,
      Report.ledTo_iff hcheck hfinding⟩
  · exact Report.nodup_path_text hcheck

/-- A block of eleven statements. There is an unknown name in the second of them, which is a block,
and the last one is an unknown name. -/
def longBody : Body where
  name := "long"
  nodes := Array.replicate 9 (⟨.literal, .zero⟩ : Node) ++ #[⟨.var "x", .zero⟩,
    ⟨.block [⟨9⟩], .zero⟩, ⟨.var "y", .zero⟩,
    ⟨.block [⟨0⟩, ⟨10⟩, ⟨1⟩, ⟨2⟩, ⟨3⟩, ⟨4⟩, ⟨5⟩, ⟨6⟩, ⟨7⟩, ⟨8⟩, ⟨11⟩], .zero⟩]
  root := ⟨12⟩

/-- The paths of the two findings have the same digits. -/
theorem shown_paths_identify_at_eleventh :
    ∃ report, longBody.check namelessCtx = .ok report ∧
      report.findings.map (·.path.text) = ["1.0", "10"] ∧
      (report.findings.map (·.path.text)).Nodup ∧
      (∀ id, longBody.LedTo "1.0" id ↔ id = ⟨9⟩) ∧ ∀ id, longBody.LedTo "10" id ↔ id = ⟨11⟩ := by
  have hvalid : longBody.validate namelessCtx.config.maxDepth = .ok () := by cbv
  obtain ⟨report, _, _, hcheck, -⟩ := Context.exists_check (Body.isTree_of_validate hvalid)
  have hfindings : (longBody.check namelessCtx).map Report.findings = .ok
      [⟨.unknownBinding "x" [], ⟨9⟩, ⟨[1, 0]⟩, .zero⟩,
        ⟨.unknownBinding "y" [], ⟨11⟩, ⟨[10]⟩, .zero⟩] := by cbv
  have heq := Report.eq_of_map_check hcheck hfindings
  obtain ⟨hshown, hnodup⟩ := shown_paths_identify.2 _ _ _ hcheck
  rw [heq] at hshown
  refine ⟨report, hcheck, by rw [heq]; decide, hnodup, ?_, ?_⟩
  · exact (hshown _ List.mem_cons_self).2
  · exact (hshown _ (List.mem_cons_of_mem _ List.mem_cons_self)).2

end FrameEscape
