import FrameEscape.Proofs.Diagnostic.Layout
import Mathlib

/-!
# The marks below a label

A label is shown by the line of the source in which it starts, with marks below it from its first
byte on. How many marks there are is decided by two look-ups in the line index, one for each end of
the label. It can be said with bytes alone: the line is what is between two newlines.

* **`lineBegin`**, **`lineEnd`**: where the line of an offset lies in the text, without an index.
* **`LiesIn.lt_begin_iff`**, **`LiesIn.le_end_iff`**: an offset is on an earlier line if it is
  before the first byte of this one, and on a later line if it is behind the place of its newline.
* **`Label.width_eq`**: the marks go up to the end of the label, but not past its first line. They
  go to the end of the line as well if the label ends on a line before the one in which it starts.
* **`labels_underlined`**: the headline. `backwards_overmarked`: an empty label with four marks.
-/

namespace FrameEscape

open LineIndex (ofText LiesIn)
open Names (bytes)

/-! ## The line around an offset -/

/-- The line of an offset begins after the last newline before it. -/
def lineBegin (text : String) (offset : Nat) : Nat :=
  offset - (((bytes text).take offset).reverse.takeWhile (· ≠ newlineByte)).length

/-- It ends before the first newline from the offset on, or with the text. -/
def lineEnd (text : String) (offset : Nat) : Nat :=
  offset + (((bytes text).drop offset).takeWhile (· ≠ newlineByte)).length

namespace LineIndex.LiesIn

variable {text : String} {offset : Nat} {before after : List (List Char)} {line : List Char}

theorem lineBegin_eq (h : LiesIn text offset before line after) :
    lineBegin text (min offset text.utf8ByteSize) = (encode (ended before)).length := by
  have hle := h.le_min
  have hge := h.min_le
  rw [lineBegin, h.take_bytes, takeWhile_reverse_append (h.newlineByte_not_mem_take _),
    List.length_take_of_le (by omega)]
  omega

/-- The bytes from the offset on: a part of the line it lies in, and lines with their newlines. -/
theorem drop_bytes (h : LiesIn text offset before line after) :
    (bytes text).drop (min offset text.utf8ByteSize) =
      (encode line).drop (min offset text.utf8ByteSize - (encode (ended before)).length) ++
        encode (continued after) := by
  have hle := h.le_min
  have hge := h.min_le
  rw [bytes_eq_encode, toList_eq_of_splitOn h.splitOn_eq, encode_append, encode_append,
    List.drop_append, List.drop_of_length_le hle, List.nil_append,
    List.drop_append_of_le_length (by omega)]

theorem lineEnd_eq (h : LiesIn text offset before line after) :
    lineEnd text (min offset text.utf8ByteSize) =
      (encode (ended before)).length + (encode line).length := by
  have hle := h.le_min
  have hge := h.min_le
  have hrest : newlineByte ∉ (encode line).drop
      (min offset text.utf8ByteSize - (encode (ended before)).length) := by
    intro hnewline
    apply h.newline_not_mem (List.mem_append_right _ List.mem_cons_self)
    exact newlineByte_mem_encode_iff.1 (List.mem_of_mem_drop hnewline)
  rw [lineEnd, h.drop_bytes, takeWhile_append_continued hrest, List.length_drop]
  omega

/-- The bytes of the line are those between its ends. -/
theorem bytes_line (h : LiesIn text offset before line after) :
    bytes (String.ofList line) =
      ((bytes text).drop (lineBegin text (min offset text.utf8ByteSize))).take
        (lineEnd text (min offset text.utf8ByteSize) -
          lineBegin text (min offset text.utf8ByteSize)) := by
  rw [h.lineBegin_eq, h.lineEnd_eq, Nat.add_sub_cancel_left, bytes_eq_encode, bytes_eq_encode,
    String.toList_ofList, toList_eq_of_splitOn h.splitOn_eq, encode_append, encode_append,
    List.drop_left, List.take_left]

/-- An offset is on an earlier line if it is before the first byte of this one. -/
theorem lt_begin_iff (h : LiesIn text offset before line after) (other : Nat) :
    min other text.utf8ByteSize < (encode (ended before)).length ↔
      (ofText text).lineOf other < before.length + 1 := by
  have hstart : (encode (ended before)).length ≤ min other text.utf8ByteSize ↔
      before.length < (ofText text).lineOf other :=
    le_iff_lt_countP (pairwise_starts text) (getElem?_starts h.splitOn_eq) _
  omega

/-- An offset is on a later line if it is behind the place of the newline of this one. -/
theorem le_end_iff (h : LiesIn text offset before line after) (other : Nat) :
    min other text.utf8ByteSize ≤ (encode (ended before)).length + (encode line).length ↔
      (ofText text).lineOf other ≤ before.length + 1 := by
  cases after with
  | nil =>
    -- The last line: there is nothing behind it.
    have hsize : text.utf8ByteSize = (encode (ended before)).length + (encode line).length :=
      utf8ByteSize_eq h.splitOn_eq
    have hlines : (ofText text).lineCount = before.length + 1 := by
      rw [lineCount_ofText, h.splitOn_eq, List.length_append]
      rfl
    have hline : (ofText text).lineOf other ≤ (ofText text).lineCount := List.countP_le_length
    omega
  | cons next after =>
    have hnext : (encode (ended before)).length + (encode line).length + 1 ≤
        min other text.utf8ByteSize ↔ before.length + 1 < (ofText text).lineOf other :=
      le_iff_lt_countP (pairwise_starts text) (getElem?_starts_succ h.splitOn_eq) _
    omega

end LineIndex.LiesIn

/-! ## The number of marks -/

namespace Span

/-- The offset in a source at which a span starts, where those past the end mean the end. -/
def startIn (span : Span) (source : String) : Nat := min span.start.toNat source.utf8ByteSize

/-- The offset in a source at which a span stops. -/
def stopIn (span : Span) (source : String) : Nat := min span.stop.toNat source.utf8ByteSize

/-- Where the line begins in which a span starts. -/
def lineBeginIn (span : Span) (source : String) : Nat := lineBegin source (span.startIn source)

/-- Where the line ends in which a span starts. -/
def lineEndIn (span : Span) (source : String) : Nat := lineEnd source (span.startIn source)

end Span

variable {source : String} {label : Label} {before after : List (List Char)} {line : List Char}

/-- The column counts the bytes of the line before the label. -/
theorem LineIndex.LiesIn.columnOf_eq
    (h : LiesIn source label.span.start.toNat before line after) :
    (ofText source).columnOf label.span.start.toNat =
      label.span.startIn source - label.span.lineBeginIn source + 1 := by
  rw [Span.lineBeginIn, Span.startIn, h.lineBegin_eq]
  exact congrArg Prod.snd h.locate_eq

/-- The marks go up to the end of the label, but not past its first line. If the label ends on an
earlier line they go to the end of the line too, as for one that ends on a later line. -/
theorem Label.width_eq (h : LiesIn source label.span.start.toNat before line after) :
    label.width (ofText source) (String.ofList line) =
      max 1 ((if label.span.stopIn source < label.span.lineBeginIn source
        then label.span.lineEndIn source
        else min (label.span.stopIn source) (label.span.lineEndIn source)) -
          label.span.startIn source) := by
  have hle : (encode (ended before)).length ≤ label.span.startIn source := h.le_min
  have hge : label.span.startIn source ≤
      (encode (ended before)).length + (encode line).length := h.min_le
  have hbegin : label.span.lineBeginIn source = (encode (ended before)).length := h.lineBegin_eq
  have hend : label.span.lineEndIn source =
      (encode (ended before)).length + (encode line).length := h.lineEnd_eq
  have hearlier : label.span.stopIn source < (encode (ended before)).length ↔
      (ofText source).lineOf label.span.stop.toNat < before.length + 1 := h.lt_begin_iff _
  have hlater : label.span.stopIn source ≤ (encode (ended before)).length + (encode line).length ↔
      (ofText source).lineOf label.span.stop.toNat ≤ before.length + 1 := h.le_end_iff _
  have hcolumn := h.columnOf_eq
  have hline : label.line (ofText source) = before.length + 1 := h.lineOf_eq
  rw [width, hline, utf8ByteSize_ofList]
  rw [hbegin] at hcolumn
  rw [hbegin, hend]
  by_cases hsame : (ofText source).lineOf label.span.stop.toNat = before.length + 1
  · -- It ends on the line in which it starts, so its columns are subtracted.
    have hstop : (ofText source).columnOf label.span.stop.toNat =
        label.span.stopIn source - (encode (ended before)).length + 1 := by
      rw [LineIndex.columnOf, hsame, h.startOf_eq]
      rfl
    rw [if_pos hsame, if_neg (by omega), hcolumn, hstop]
    omega
  · -- Whether the other line is an earlier or a later one is not asked.
    rw [if_neg hsame, hcolumn]
    split <;> omega

/-! ## The headline -/

/-- A line shows the text of the line in which a label starts, behind the gutter. Marks stand below
it, as many as `count`, the first of them in the column of the byte at which the label starts. -/
structure Underlined (source : String) (label : Label) (gutter text blank : String) (count : Nat) :
    Prop where
  bytes_text : bytes text = ((bytes source).drop (label.span.lineBeginIn source)).take
    (label.span.lineEndIn source - label.span.lineBeginIn source)
  column_eq : blank.utf8ByteSize = gutter.utf8ByteSize +
    (label.span.startIn source - label.span.lineBeginIn source)
  mark_not_mem : markOf label.isPrimary ∉ blank.toList
  count_eq : count = max 1 ((if label.span.stopIn source < label.span.lineBeginIn source
    then label.span.lineEndIn source
    else min (label.span.stopIn source) (label.span.lineEndIn source)) -
      label.span.startIn source)
  /-- There is a mark for each byte of the label in its first line, and at least one, unless the
  label ends on an earlier line and there are several bytes up to the end of this one. -/
  count_eq_iff : count = max 1 (min (label.span.stopIn source) (label.span.lineEndIn source) -
      label.span.startIn source) ↔
    (label.span.stopIn source < label.span.lineBeginIn source →
      label.span.lineEndIn source ≤ label.span.startIn source + 1)

/-- A label is underlined in any gutter into which its line number fits. -/
theorem underlined (source : String) (label : Label) {gutter : Nat}
    (hgutter : (label.line (ofText source)).repr.length ≤ gutter) :
    Underlined source label (padLeft (gutter + 1) (label.line (ofText source)) ++ " | ")
      (((ofText source).line? source (label.line (ofText source))).getD "")
      (spaces (gutter + 2) ++ "| " ++
        spaces ((ofText source).columnOf label.span.start.toNat - 1))
      (label.width (ofText source)
        (((ofText source).line? source (label.line (ofText source))).getD "")) := by
  obtain ⟨before, line, after, h⟩ := LineIndex.exists_liesIn source label.span.start.toNat
  have htext : (ofText source).line? source (label.line (ofText source)) =
      some (String.ofList line) := h.line?_eq
  have hle : label.span.lineBeginIn source ≤ label.span.startIn source :=
    Nat.sub_le _ _
  have hge : label.span.startIn source ≤ label.span.lineEndIn source :=
    Nat.le_add_right _ _
  rw [htext, Option.getD_some, Label.width_eq h]
  constructor
  case bytes_text => exact h.bytes_line
  case column_eq =>
    have hbar : " | ".utf8ByteSize = 3 := rfl
    have hbar' : "| ".utf8ByteSize = 2 := rfl
    rw [String.utf8ByteSize_append, String.utf8ByteSize_append, String.utf8ByteSize_append,
      utf8ByteSize_spaces, utf8ByteSize_spaces, utf8ByteSize_padLeft (Nat.le_succ_of_le hgutter),
      h.columnOf_eq, hbar, hbar']
    omega
  case mark_not_mem =>
    have hspace : ∀ isPrimary, markOf isPrimary ≠ ' ' := by decide
    have hbar : ∀ isPrimary, markOf isPrimary ∉ "| ".toList := by decide
    rw [String.toList_append, String.toList_append, toList_spaces, toList_spaces,
      List.mem_append, List.mem_append]
    rintro ((hmark | hmark) | hmark)
    · exact hspace _ (List.eq_of_mem_replicate hmark)
    · exact hbar _ hmark
    · exact hspace _ (List.eq_of_mem_replicate hmark)
  case count_eq => rfl
  case count_eq_iff =>
    split
    · omega
    · simp only [true_iff]
      omega

/-- **Labels are underlined.** About a source that is not empty, each label has its two lines. One
shows the line in which the label starts. The other has the marks below it, which begin at the first
byte of the label and go up to its end or that of the line, and there is at least one. A label that
ends on an earlier line is marked up to the end of the line, though it holds no byte. -/
theorem labels_underlined (d : Diagnostic) {source : String} (file : Option String)
    (hsource : source ≠ "") :
    ∃ (above below : List String) (shown : List Label) (gutter text blank : Label → String)
      (count : Label → Nat),
      d.render source file false = unlines (above ++
        shown.flatMap (fun label => [gutter label ++ text label,
          blank label ++ String.ofList (List.replicate (count label) (markOf label.isPrimary)) ++
            " " ++ label.message]) ++ below) ∧
      shown.Perm d.labels ∧
      ∀ label ∈ d.labels,
        Underlined source label (gutter label) (text label) (blank label) (count label) := by
  by_cases hlabels : d.labels = []
  · refine ⟨(d.rows (ofText source) source file).map (Row.plain (d.gutter (ofText source))), [], [],
      fun _ => "", fun _ => "", fun _ => "", fun _ => 0, ?_, ?_, ?_⟩
    · rw [d.render_plain, List.flatMap_nil, List.append_nil, List.append_nil]
    · rw [hlabels]
    · rw [hlabels]
      exact fun label hlabel => absurd hlabel List.not_mem_nil
  · obtain ⟨span, hspan⟩ := Diagnostic.exists_span? hlabels
    refine ⟨_, _, d.shownLabels (ofText source), _, _, _, _, d.render_of_span? file hspan hsource,
      (d.inLineOrder _).perm, fun label hlabel => ?_⟩
    exact underlined source label (d.length_repr_le_gutter _ hlabel)

/-- A label over two lines and an empty one past the end. -/
def wrapped : Diagnostic :=
  ((Diagnostic.new .warning "wrapped").withPrimary ⟨1, 6⟩ "here").withSecondary ⟨9, 9⟩ "there"

theorem labels_underlined_at_wrapped :
    "abc\ndef" ≠ "" ∧ ∃ (above below : List String) (shown : List Label)
      (gutter text blank : Label → String) (count : Label → Nat),
      wrapped.render "abc\ndef" none false = unlines (above ++
        shown.flatMap (fun label => [gutter label ++ text label,
          blank label ++ String.ofList (List.replicate (count label) (markOf label.isPrimary)) ++
            " " ++ label.message]) ++ below) ∧
      shown.Perm [⟨⟨1, 6⟩, true, "here"⟩, ⟨⟨9, 9⟩, false, "there"⟩] ∧
      count ⟨⟨1, 6⟩, true, "here"⟩ = 2 ∧ count ⟨⟨9, 9⟩, false, "there"⟩ = 1 := by
  have hsource : "abc\ndef" ≠ "" := by decide
  obtain ⟨above, below, shown, gutter, text, blank, count, hrender, hperm, hall⟩ :=
    labels_underlined wrapped none hsource
  refine ⟨hsource, above, below, shown, gutter, text, blank, count, hrender, hperm, ?_, ?_⟩
  · exact (hall _ (by decide)).count_eq.trans (by decide)
  · exact (hall _ (by decide)).count_eq.trans (by decide)

/-- A label that ends on the line before the one in which it starts. -/
def backwards : Diagnostic := (Diagnostic.new .error "backwards").withPrimary ⟨3, 0⟩ "here"

/-- The label holds no byte, and the line in which it starts is marked to its end. -/
theorem backwards_overmarked :
    backwards.labels = [⟨⟨3, 0⟩, true, "here"⟩] ∧ (⟨3, 0⟩ : Span).isEmpty = true ∧
      max 1 (min (Span.stopIn ⟨3, 0⟩ "ab\ncdef") (Span.lineEndIn ⟨3, 0⟩ "ab\ncdef") -
        Span.startIn ⟨3, 0⟩ "ab\ncdef") = 1 ∧
      backwards.render "ab\ncdef" none false =
        "error: backwards\n  --> <source>:2:1\n    |\n  2 | cdef\n    | ^^^^ here\n    |\n" := by
  refine ⟨rfl, by decide, by decide, ?_⟩
  decide

end FrameEscape
