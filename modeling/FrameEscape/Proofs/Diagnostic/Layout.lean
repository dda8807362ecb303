import FrameEscape.Diagnostic.Terminal
import FrameEscape.Proofs.Json.Number
import FrameEscape.Proofs.Text.Positions
import Mathlib

/-!
# The layout of a diagnostic

Without colours, the pieces of a row are only their texts. So what is shown plainly are lines, one
for each row, and it can be said what each of them holds and where its gutter ends.

* **`Row.plain`**: the line of a row. `Diagnostic.render_plain`: the lines of all rows, each with a
  newline, are what is shown.
* **`Diagnostic.InLineOrder`**: how the labels are sorted. It leaves one order only.
* **`Diagnostic.barAt_plain`**: the bar of the gutter stands in one column, as each line number fits
  into the gutter (`Diagnostic.length_repr_le_gutter`).
* **`Diagnostic.snippet_laid_out`**: the headline.
-/

namespace FrameEscape

open LineIndex (ofText)

/-! ## Lines that are shown -/

/-- Lines, each with a newline after it. -/
def unlines (lines : List String) : String := String.join (lines.map (· ++ "\n"))

theorem spaces_succ (n : Nat) : spaces (n + 1) = spaces n ++ " " := by
  rw [spaces, spaces, List.replicate_succ', String.ofList_append]

theorem toList_spaces (n : Nat) : (spaces n).toList = List.replicate n ' ' := String.toList_ofList

/-- The mark for a label. -/
def markOf (isPrimary : Bool) : Char := if isPrimary then '^' else '-'

namespace Row

/-- The line of a row, where line numbers take up `gutter` places and one more. -/
def plain (gutter : Nat) : Row → String
  | header severity code message =>
    severity.word ++ code.elim "" ("[" ++ · ++ "]") ++ ": " ++ message
  | place file line column =>
    spaces gutter ++ "--> " ++ file ++ ":" ++ line.repr ++ ":" ++ column.repr
  | bar => spaces (gutter + 2) ++ "|"
  | source line text => padLeft (gutter + 1) line ++ " | " ++ text
  | marks column width isPrimary message =>
    spaces (gutter + 2) ++ "| " ++ spaces (column - 1) ++
      String.ofList (List.replicate width (markOf isPrimary)) ++ " " ++ message
  | remark about text => spaces (gutter + 1) ++ " = " ++ about.word ++ ": " ++ text

/-- Without colours, the pieces of a row are its line. -/
theorem renderPieces_pieces (gutter : Nat) (row : Row) :
    renderPieces false (row.pieces gutter) = row.plain gutter := by
  apply String.toList_injective
  rw [renderPieces, String.toList_join, List.flatMap_map]
  cases row with
  | header severity code message =>
    cases code <;> simp [pieces, plain, Piece.render, Piece.styled, Piece.bare]
  | place file line column =>
    have hpieces : (place file line column).pieces gutter = [.bare (spaces gutter),
        .styled (.plain .blue) "-->",
        .bare (" " ++ file ++ ":" ++ line.repr ++ ":" ++ column.repr)] := rfl
    simp [hpieces, plain, Piece.render, Piece.styled, Piece.bare]
  | bar => simp [pieces, plain, Piece.render, Piece.styled, Piece.bare, barPiece, spaces_succ]
  | source line text => simp [pieces, plain, Piece.render, Piece.styled, Piece.bare, barPiece]
  | marks column width isPrimary message =>
    simp [pieces, plain, Piece.render, Piece.styled, Piece.bare, barPiece, spaces_succ, markOf]
  | remark about text => simp [pieces, plain, Piece.render, Piece.styled, Piece.bare]

end Row

/-- What is shown plainly are the lines of the rows. -/
theorem Diagnostic.render_plain (d : Diagnostic) (source : String) (file : Option String) :
    d.render source file false = unlines ((d.rows (ofText source) source file).map
      (Row.plain (d.gutter (ofText source)))) := by
  rw [render, unlines, List.map_map]
  congr 1
  apply List.map_congr_left
  intro row _
  rw [Row.renderPieces_pieces]
  rfl

/-! ## The column of the bar -/

/-- Characters of one byte take up as many bytes as there are. -/
theorem utf8ByteSize_eq_length {text : String} (h : ∀ c ∈ text.toList, c.utf8Size = 1) :
    text.utf8ByteSize = text.length := by
  have hencode : ∀ cs : List Char, (∀ c ∈ cs, c.utf8Size = 1) → (encode cs).length = cs.length := by
    intro cs hcs
    induction cs with
    | nil => rfl
    | cons c cs ih =>
      obtain ⟨hc, hrest⟩ := List.forall_mem_cons.1 hcs
      rw [length_encode_cons, hc, ih hrest, List.length_cons, Nat.add_comm]
  rw [← length_bytes, bytes_eq_encode, hencode _ h, String.length_toList]

theorem utf8ByteSize_spaces (n : Nat) : (spaces n).utf8ByteSize = n := by
  have hsize : ∀ c ∈ (spaces n).toList, c.utf8Size = 1 := by
    intro c hc
    rw [toList_spaces] at hc
    rw [List.eq_of_mem_replicate hc]
    rfl
  rw [utf8ByteSize_eq_length hsize, ← String.length_toList, toList_spaces, List.length_replicate]

theorem utf8Size_of_isDigit {c : Char} (h : c.isDigit = true) : c.utf8Size = 1 := by
  rw [Char.utf8Size_eq_one_iff]
  simp only [Char.isDigit, Bool.and_eq_true, decide_eq_true_eq] at h
  exact UInt32.le_trans h.2 (by decide)

/-- A number that fits takes up the width that it is given. -/
theorem utf8ByteSize_padLeft {width n : Nat} (h : n.repr.length ≤ width) :
    (padLeft width n).utf8ByteSize = width := by
  have hdigits : n.repr.utf8ByteSize = n.repr.length :=
    utf8ByteSize_eq_length fun c hc => utf8Size_of_isDigit (Json.isDigit_of_mem_repr hc)
  rw [padLeft, String.utf8ByteSize_append, utf8ByteSize_spaces, hdigits]
  omega

/-- The first bar in a line is at a column, which is counted from zero in bytes. -/
def BarAt (column : Nat) (line : String) : Prop :=
  ∃ front back, line = front ++ "|" ++ back ∧ '|' ∉ front.toList ∧ front.utf8ByteSize = column

namespace Row

variable {gutter : Nat}

theorem barAt_spaces (n : Nat) (back : String) : BarAt n (spaces n ++ "|" ++ back) := by
  refine ⟨spaces n, back, rfl, fun hbar => ?_, utf8ByteSize_spaces n⟩
  rw [toList_spaces] at hbar
  exact absurd (List.eq_of_mem_replicate hbar) (by decide)

theorem barAt_bar : BarAt (gutter + 2) (bar.plain gutter) := by
  have hline : bar.plain gutter = spaces (gutter + 2) ++ "|" ++ "" := String.append_empty.symm
  rw [hline]
  exact barAt_spaces _ _

theorem barAt_marks (column width : Nat) (isPrimary : Bool) (message : String) :
    BarAt (gutter + 2) ((marks column width isPrimary message).plain gutter) := by
  have hline : (marks column width isPrimary message).plain gutter =
      spaces (gutter + 2) ++ "|" ++ (" " ++ spaces (column - 1) ++
        String.ofList (List.replicate width (markOf isPrimary)) ++ " " ++ message) := by
    apply String.toList_injective
    simp [plain]
  rw [hline]
  exact barAt_spaces _ _

/-- The number of a line does not move the bar if it fits. -/
theorem barAt_source {line : Nat} (h : line.repr.length ≤ gutter) (text : String) :
    BarAt (gutter + 2) ((source line text).plain gutter) := by
  refine ⟨padLeft (gutter + 1) line ++ " ", " " ++ text, ?_, ?_, ?_⟩
  · apply String.toList_injective
    simp [plain]
  · intro hbar
    rw [padLeft, String.toList_append, String.toList_append, toList_spaces, List.mem_append,
      List.mem_append] at hbar
    rcases hbar with (hbar | hbar) | hbar
    · exact absurd (List.eq_of_mem_replicate hbar) (by decide)
    · exact absurd (Json.isDigit_of_mem_repr hbar) (by decide)
    · exact absurd hbar (by decide)
  · rw [String.utf8ByteSize_append, utf8ByteSize_padLeft (Nat.le_succ_of_le h)]
    rfl

end Row

/-! ## The width of the gutter -/

/-- A greater number has as many digits at least. -/
theorem length_repr_mono {m n : Nat} (h : m ≤ n) : m.repr.length ≤ n.repr.length := by
  have hpos : 0 < n.repr.length := Nat.length_repr_pos
  have hn : n < 10 ^ n.repr.length := (Nat.length_repr_le_iff hpos).1 (Nat.le_refl _)
  exact (Nat.length_repr_le_iff hpos).2 (Nat.lt_of_le_of_lt h hn)

namespace Diagnostic

variable {d : Diagnostic} {label : Label}

/-- The line number of each label fits into the gutter, as the greatest one does. -/
theorem length_repr_le_gutter (index : LineIndex) (h : label ∈ d.labels) :
    (label.line index).repr.length ≤ d.gutter index := by
  have hline : label.line index ∈ (d.shownLabels index).map (·.line index) :=
    List.mem_map_of_mem ((sortBy_perm d.labels).mem_iff.2 h)
  obtain ⟨greatest, hgreatest⟩ := Option.isSome_iff_exists.1 (List.isSome_max?_of_mem hline)
  have hle : label.line index ≤ greatest := (List.max?_eq_some_iff.1 hgreatest).2 _ hline
  rw [gutter, hgreatest]
  exact Nat.le_trans (length_repr_mono hle) (Nat.le_max_left _ _)

/-- In an empty source there is only line one. -/
theorem gutter_empty (d : Diagnostic) : d.gutter (ofText "") = 2 := by
  rw [gutter]
  cases hgreatest : ((d.shownLabels (ofText "")).map (·.line (ofText ""))).max? with
  | none => rfl
  | some greatest =>
    obtain ⟨label, -, rfl⟩ := List.mem_map.1 (List.max?_mem hgreatest)
    have hline : label.line (ofText "") = 1 := rfl
    rw [hline]
    decide

end Diagnostic

/-! ## The order of labels -/

/-- The labels `shown` are `labels` in the order of the lines in which they start, primary ones
first on each line. Those on one line that are both primary, or both not, are as they were. -/
structure InLineOrder (index : LineIndex) (labels shown : List Label) : Prop where
  perm : shown.Perm labels
  ordered : shown.Pairwise fun a b => a.line index < b.line index ∨
    (a.line index = b.line index ∧ (b.isPrimary = true → a.isPrimary = true))
  stable : ∀ line isPrimary,
    shown.filter (fun label => label.line index = line ∧ label.isPrimary = isPrimary) =
      labels.filter (fun label => label.line index = line ∧ label.isPrimary = isPrimary)

namespace Label

variable {index : LineIndex} {a b c : Label}

theorem precedes_iff : precedes index a b = true ↔ a.line index < b.line index ∨
    (a.line index = b.line index ∧ (b.isPrimary = true → a.isPrimary = true)) := by
  rw [precedes, Bool.or_eq_true, decide_eq_true_eq, Bool.and_eq_true, beq_iff_eq]
  cases a.isPrimary <;> cases b.isPrimary <;> simp

theorem precedes_total (h : precedes index a b = false) : precedes index b a = true := by
  have hnot : ¬ precedes index a b = true := Bool.eq_false_iff.1 h
  rw [precedes_iff, not_or, not_and_or, Classical.not_imp] at hnot
  obtain ⟨hlt, hother⟩ := hnot
  rw [precedes_iff]
  rcases hother with hne | ⟨hb, -⟩
  · exact .inl (by omega)
  · rcases Nat.lt_or_eq_of_le (Nat.le_of_not_lt hlt) with hlt' | heq
    · exact .inl hlt'
    · exact .inr ⟨heq, fun _ => hb⟩

theorem precedes_trans (hab : precedes index a b = true) (hbc : precedes index b c = true) :
    precedes index a c = true := by
  rw [precedes_iff] at hab hbc ⊢
  rcases hab with hab | ⟨hab, hprimary⟩
  · exact .inl (by omega)
  · rcases hbc with hbc | ⟨hbc, hprimary'⟩
    · exact .inl (by omega)
    · exact .inr ⟨hab.trans hbc, fun hc => hprimary (hprimary' hc)⟩

end Label

theorem Diagnostic.inLineOrder (d : Diagnostic) (index : LineIndex) :
    InLineOrder index d.labels (d.shownLabels index) := by
  constructor
  case perm => exact sortBy_perm d.labels
  case ordered =>
    have htotal : ∀ a b, Label.precedes index a b = false → Label.precedes index b a = true :=
      fun _ _ => Label.precedes_total
    have hsorted := pairwise_sortBy htotal (fun _ _ _ => Label.precedes_trans) d.labels
    exact hsorted.imp Label.precedes_iff.1
  case stable =>
    intro line isPrimary
    apply filter_sortBy
    -- Of two labels like that, each may stand before the other.
    intro a b ha hb
    obtain ⟨haline, haprimary⟩ := of_decide_eq_true ha
    obtain ⟨hbline, hbprimary⟩ := of_decide_eq_true hb
    rw [Label.precedes_iff]
    exact .inr ⟨haline.trans hbline.symm, fun hb => haprimary.trans (hbprimary.symm.trans hb)⟩

/-! ## The headline -/

/-- The lines of a diagnostic that is about a part of the source: a header, the place, the rows of
its labels between two bars, and remarks. -/
def Diagnostic.lines (d : Diagnostic) (source : String) (file : Option String) (span : Span)
    (shown : List Label) (gutter : Nat) : List String :=
  let index := ofText source
  [(Row.header d.severity d.code d.message).plain gutter,
    (Row.place (file.getD "<source>") (index.lineOf span.start.toNat)
      (index.columnOf span.start.toNat)).plain gutter,
    Row.bar.plain gutter] ++
    shown.flatMap (fun label => (label.rows index source).map (Row.plain gutter)) ++
    (Row.bar.plain gutter :: d.remarks.map (Row.plain gutter))

/-- A diagnostic is shown with a part of the source. The labels are sorted, each has a row for the
line of the source in which it starts and one for the marks below, and all bars of the gutter are in
one column. -/
structure LaidOut (d : Diagnostic) (source : String) (file : Option String) (span : Span)
    (shown : List Label) (gutter : Nat) : Prop where
  span?_eq : d.span? = some span
  render_eq : d.render source file false = unlines (d.lines source file span shown gutter)
  inLineOrder : InLineOrder (ofText source) d.labels shown
  rows_eq : ∀ label ∈ shown, ∃ text,
    (ofText source).line? source (label.line (ofText source)) = some text ∧
      label.rows (ofText source) source = [.source (label.line (ofText source)) text,
        .marks ((ofText source).columnOf label.span.start.toNat)
          (label.width (ofText source) text) label.isPrimary label.message]
  aligned : ∀ row ∈ Row.bar :: shown.flatMap (·.rows (ofText source) source),
    BarAt (gutter + 2) (row.plain gutter)

namespace Diagnostic

variable {d : Diagnostic} {label : Label}

theorem exists_mainLabel? (h : d.labels ≠ []) : ∃ label, d.mainLabel? = some label := by
  obtain ⟨first, rest, hlabels⟩ := List.exists_cons_of_ne_nil h
  rw [← Option.isSome_iff_exists, mainLabel?, Option.isSome_or, hlabels, List.head?_cons,
    Option.isSome_some, Bool.or_true]

theorem span?_of_mainLabel? (h : d.mainLabel? = some label) : d.span? = some label.span := by
  rw [span?, h]
  rfl

theorem exists_span? (h : d.labels ≠ []) : ∃ span, d.span? = some span := by
  obtain ⟨label, hlabel⟩ := exists_mainLabel? h
  exact ⟨label.span, span?_of_mainLabel? hlabel⟩

theorem exists_rows_eq (label : Label) (source : String) : ∃ text,
    (ofText source).line? source (label.line (ofText source)) = some text ∧
      label.rows (ofText source) source = [.source (label.line (ofText source)) text,
        .marks ((ofText source).columnOf label.span.start.toNat)
          (label.width (ofText source) text) label.isPrimary label.message] := by
  obtain ⟨text, hline, -⟩ := (LineIndex.positionOf_locate source label.span.start.toNat).within
  have htext : (ofText source).line? source (label.line (ofText source)) = some text := hline
  refine ⟨text, htext, ?_⟩
  rw [Label.rows, htext]
  rfl

/-- The rows of a snippet: the place, and the labels between two bars. -/
theorem snippet_of_span? {source : String} {span : Span} (file : Option String)
    (hspan : d.span? = some span) (hsource : source ≠ "") :
    d.snippet (ofText source) source file =
      .place (file.getD "<source>") ((ofText source).lineOf span.start.toNat)
        ((ofText source).columnOf span.start.toNat) :: .bar ::
          ((d.shownLabels (ofText source)).flatMap (·.rows (ofText source) source) ++ [.bar]) := by
  have hempty : ¬ source.isEmpty = true := by
    rw [String.isEmpty_iff]
    exact hsource
  rw [snippet, hspan]
  exact if_neg hempty

theorem render_of_span? {source : String} {span : Span} (file : Option String)
    (hspan : d.span? = some span) (hsource : source ≠ "") :
    d.render source file false = unlines (d.lines source file span
      (d.shownLabels (ofText source)) (d.gutter (ofText source))) := by
  rw [render_plain, rows, snippet_of_span? file hspan hsource, lines]
  simp only [List.map_cons, List.map_append, List.map_flatMap, List.cons_append, List.nil_append,
    List.append_assoc]

/-- There is nothing to show of an empty source, nor without labels. -/
theorem snippet_eq_nil {source : String} (file : Option String)
    (h : d.labels = [] ∨ source = "") : d.snippet (ofText source) source file = [] := by
  rw [snippet]
  rcases h with hlabels | rfl
  · have hspan : d.span? = none := by
      rw [span?, mainLabel?, hlabels]
      rfl
    rw [hspan]
  · cases d.span? <;> rfl

theorem gutter_eq_two {source : String} (h : d.labels = [] ∨ source = "") :
    d.gutter (ofText source) = 2 := by
  rcases h with hlabels | rfl
  · rw [gutter, shownLabels, hlabels]
    rfl
  · exact gutter_empty d

/-- What there is to say below the snippet. -/
theorem remarks_eq (d : Diagnostic) :
    d.remarks = d.path.toList.map (.remark .path) ++
      d.levels.toList.map (fun levels => .remark .levels
        ("requires " ++ levels.required.name ++ ", found " ++ levels.actual.name)) ++
      d.notes.map (.remark .note) ++ d.help.toList.map (.remark .help) := by
  obtain ⟨_, _, _, _, path, levels, notes, help⟩ := d
  cases path <;> cases levels <;> cases help <;> rfl

/-- **The layout of a diagnostic.** If it has labels and there is a source, the lines are a header,
the place, and the labels between two bars, sorted, each of them once, with all bars in one column;
and then the remarks: the path, the levels, the notes in their order and the help, those that there
are. Otherwise there are only the header and the remarks. -/
theorem snippet_laid_out (d : Diagnostic) (source : String) (file : Option String) :
    (d.labels ≠ [] → source ≠ "" → ∃ span, LaidOut d source file span
        (d.shownLabels (ofText source)) (d.gutter (ofText source))) ∧
      (d.labels = [] ∨ source = "" → d.render source file false = unlines
        ((Row.header d.severity d.code d.message).plain 2 :: d.remarks.map (Row.plain 2))) ∧
      d.remarks = d.path.toList.map (.remark .path) ++
        d.levels.toList.map (fun levels => .remark .levels
          ("requires " ++ levels.required.name ++ ", found " ++ levels.actual.name)) ++
        d.notes.map (.remark .note) ++ d.help.toList.map (.remark .help) := by
  refine ⟨fun hlabels hsource => ?_, fun hnone => ?_, d.remarks_eq⟩
  · obtain ⟨span, hspan⟩ := exists_span? hlabels
    refine ⟨span, hspan, render_of_span? file hspan hsource, d.inLineOrder _,
      fun label _ => exists_rows_eq label source, fun row hrow => ?_⟩
    rcases List.mem_cons.1 hrow with rfl | hrow
    · exact Row.barAt_bar
    · obtain ⟨label, hlabel, hrow⟩ := List.mem_flatMap.1 hrow
      have hmem : label ∈ d.labels := (d.inLineOrder _).perm.mem_iff.1 hlabel
      -- A label has two rows, and only the first one shows a number.
      rcases List.mem_cons.1 hrow with rfl | hrow
      · exact Row.barAt_source (length_repr_le_gutter _ hmem) _
      · rw [List.mem_singleton.1 hrow]
        exact Row.barAt_marks _ _ _ _
  · rw [render_plain, gutter_eq_two hnone, rows, snippet_eq_nil file hnone]
    rfl

/-- Three labels, of which the last one comes first: it is primary and on the first line. -/
def scattered : Diagnostic :=
  (((Diagnostic.new .error "mixed").withSecondary ⟨2, 3⟩ "below").withSecondary ⟨1, 1⟩
    "beside").withPrimary ⟨0, 1⟩ "here"

theorem snippet_laid_out_at_scattered :
    scattered.labels ≠ [] ∧ "a\nb" ≠ "" ∧ LaidOut scattered "a\nb" (some "f") ⟨0, 1⟩
      [⟨⟨0, 1⟩, true, "here"⟩, ⟨⟨1, 1⟩, false, "beside"⟩, ⟨⟨2, 3⟩, false, "below"⟩] 2 := by
  have hlabels : scattered.labels ≠ [] := by decide
  have hsource : "a\nb" ≠ "" := by decide
  have hshown : scattered.shownLabels (ofText "a\nb") =
      [⟨⟨0, 1⟩, true, "here"⟩, ⟨⟨1, 1⟩, false, "beside"⟩, ⟨⟨2, 3⟩, false, "below"⟩] := by decide
  have hgutter : scattered.gutter (ofText "a\nb") = 2 := by decide
  obtain ⟨span, hlaid⟩ := (snippet_laid_out scattered "a\nb" (some "f")).1 hlabels hsource
  have hspan : span = ⟨0, 1⟩ := Option.some.inj (hlaid.span?_eq.symm.trans (by decide))
  rw [hshown, hgutter, hspan] at hlaid
  exact ⟨hlabels, hsource, hlaid⟩

end Diagnostic

end FrameEscape
