import FrameEscape.Proofs.Diagnostic.ReadBack
import FrameEscape.Proofs.Diagnostic.ShownRows
import Mathlib

/-!
# Both forms say where a matter is

On a terminal, an arrow leads to the place of a matter. In JSON there is a location. Each form finds
the place by itself, the one above labels that it has sorted, the other from the labels as they are.
Both go by the main label, which does not depend on how labels are sorted, so they agree.

* **`Diagnostic.mainLabel?_eq_some_iff`**: the main label is the first primary one, or the first one
  if none is primary.
* **`Diagnostic.ArrowAt`**: the row below the header is an arrow to a line and a column.
  **`Diagnostic.arrowAt_iff`**: it leads to the start of the main label, and without a source or a
  label there is none.
* **`Diagnostic.member?_location`**: the location is that of the start of the main label.
* **`Diagnostic.whereabouts_agree`**: the headline.
-/

namespace FrameEscape

open LineIndex (ofText)

/-! ## The main label -/

/-- The label is the first primary one, or the first one if none is primary. -/
def MainLabel (labels : List Label) (label : Label) : Prop :=
  (label.isPrimary = true ∧ ∃ front back, labels = front ++ label :: back ∧
    ∀ other ∈ front, other.isPrimary = false) ∨
  ((∀ other ∈ labels, other.isPrimary = false) ∧ labels.head? = some label)

namespace Diagnostic

variable {d : Diagnostic} {source : String} {file : Option String} {inColour : Bool}
  {label : Label} {line column : Nat}

theorem mainLabel?_eq_some_iff : d.mainLabel? = some label ↔ MainLabel d.labels label := by
  rw [mainLabel?, Option.or_eq_some_iff, List.find?_eq_some_iff_append, List.find?_eq_none]
  simp [MainLabel]

theorem mem_of_mainLabel? (h : d.mainLabel? = some label) : label ∈ d.labels := by
  rcases mainLabel?_eq_some_iff.1 h with ⟨-, front, back, hlabels, -⟩ | ⟨-, hhead⟩
  · rw [hlabels]
    exact List.mem_append_right front List.mem_cons_self
  · exact List.mem_of_mem_head? hhead

theorem labels_ne_nil_iff : d.labels ≠ [] ↔ ∃ label, d.mainLabel? = some label := by
  refine ⟨exists_mainLabel?, ?_⟩
  rintro ⟨label, hlabel⟩
  exact List.ne_nil_of_mem (mem_of_mainLabel? hlabel)

/-! ## The arrow -/

/-- The row below the header is an arrow to a line and a column. -/
def ArrowAt (d : Diagnostic) (source : String) (file : Option String) (inColour : Bool)
    (line column : Nat) : Prop :=
  ∃ gutter rest, d.render source file inColour =
    (Row.header d.severity d.code d.message).shown inColour gutter ++
      ((Row.place (file.getD "<source>") line column).shown inColour gutter ++ rest)

/-- What is shown below the header. -/
theorem render_eq_header_append (d : Diagnostic) (source : String) (file : Option String)
    (inColour : Bool) (gutter : Nat) : d.render source file inColour =
      (Row.header d.severity d.code d.message).shown inColour gutter ++
        renderRows inColour (d.gutter (ofText source))
          (d.snippet (ofText source) source file ++ d.remarks) := by
  rw [render_eq_renderRows, rows, renderRows_cons, Row.shown_header inColour _ gutter]

/-- Remarks do not begin with an arrow. -/
theorem renderRows_remarks_ne {gutter gutter' : Nat} {name rest : String} :
    renderRows inColour gutter d.remarks ≠
      (Row.place name line column).shown inColour gutter' ++ rest := by
  have hremark : ∀ row ∈ d.remarks, ∃ about text, row = .remark about text := by
    intro row hrow
    rw [remarks_eq] at hrow
    simp only [List.mem_append, List.mem_map] at hrow
    rcases hrow with ((⟨_, -, rfl⟩ | ⟨_, -, rfl⟩) | ⟨_, -, rfl⟩) | ⟨_, -, rfl⟩
    all_goals exact ⟨_, _, rfl⟩
  intro heq
  -- If there are remarks, the signs behind the blanks differ; if there are none, nothing is shown.
  have hchars := congrArg String.toList heq
  rw [String.toList_append, Row.toList_shown_place] at hchars
  cases hremarks : d.remarks with
  | nil =>
    rw [hremarks] at hchars
    have hlength := congrArg List.length hchars
    simp [renderRows] at hlength
  | cons first remarks =>
    obtain ⟨about, text, rfl⟩ := hremark first (hremarks ▸ List.mem_cons_self)
    obtain ⟨more, hmore⟩ := Row.toList_shown_remark inColour gutter about text
    rw [hremarks, renderRows_cons, String.toList_append, hmore] at hchars
    simp only [List.append_assoc] at hchars
    have hsigns := blanks_append_inj (Row.head?_equalsSign_append inColour _)
      (Row.head?_arrow_append inColour _) hchars
    exact Row.arrow_append_ne inColour _ _ hsigns.symm

/-- The line and the column of an arrow can be told from what is shown. -/
theorem place_eq_of_shown {gutter gutter' line' column' : Nat} {name rest rest' : String}
    (h : (Row.place name line column).shown inColour gutter ++ rest =
      (Row.place name line' column').shown inColour gutter' ++ rest') :
    line = line' ∧ column = column' := by
  have hchars := congrArg String.toList h
  rw [String.toList_append, String.toList_append, Row.toList_shown_place, Row.toList_shown_place]
    at hchars
  simp only [List.append_assoc] at hchars
  have hsigns := blanks_append_inj (Row.head?_arrow_append inColour _)
    (Row.head?_arrow_append inColour _) hchars
  -- The sign and the name of the file are the same, and what follows are numbers.
  have hnumbers := List.append_cancel_left (List.append_cancel_left hsigns)
  obtain ⟨hline, hrest⟩ := repr_append_inj (by rintro c ⟨⟩; decide) (by rintro c ⟨⟩; decide)
    hnumbers
  simp only [List.cons_append, List.append_assoc] at hrest
  obtain ⟨hcolumn, -⟩ := repr_append_inj (by rintro c ⟨⟩; decide) (by rintro c ⟨⟩; decide)
    (List.cons.inj hrest).2
  exact ⟨hline, hcolumn⟩

/-- The snippet begins with the place of the main label, and has the rows of all labels. -/
theorem exists_snippet_eq (file : Option String) (hsource : source ≠ "")
    (h : d.mainLabel? = some label) :
    ∃ back, d.snippet (ofText source) source file =
        .place (file.getD "<source>") ((ofText source).lineOf label.span.start.toNat)
          ((ofText source).columnOf label.span.start.toNat) :: back ∧
      ∀ other ∈ d.labels, ∀ row ∈ other.rows (ofText source) source, row ∈ back := by
  refine ⟨_, snippet_of_span? file (span?_of_mainLabel? h) hsource, ?_⟩
  intro other hother row hrow
  -- Sorting loses no label.
  have hshown : other ∈ d.shownLabels (ofText source) := (d.inLineOrder _).perm.mem_iff.2 hother
  apply List.mem_cons_of_mem
  exact List.mem_append_left _ (List.mem_flatMap.2 ⟨other, hshown, hrow⟩)

/-- There is an arrow if there is a source and a label, and it leads to the start of the main
label. -/
theorem arrowAt_iff : d.ArrowAt source file inColour line column ↔
    source ≠ "" ∧ ∃ label, d.mainLabel? = some label ∧
      (ofText source).locate label.span.start.toNat = (line, column) := by
  constructor
  · rintro ⟨gutter, rest, hrender⟩
    rw [render_eq_header_append d source file inColour gutter, String.append_right_inj] at hrender
    -- Without a snippet, remarks would come next, which do not begin with an arrow.
    have hshown : d.labels ≠ [] ∧ source ≠ "" := by
      by_contra hnone
      rw [not_and_or, not_not, not_not] at hnone
      rw [snippet_eq_nil file hnone, List.nil_append] at hrender
      exact renderRows_remarks_ne hrender
    obtain ⟨hlabels, hsource⟩ := hshown
    obtain ⟨label, hlabel⟩ := labels_ne_nil_iff.1 hlabels
    obtain ⟨back, hsnippet, -⟩ := exists_snippet_eq file hsource hlabel
    rw [hsnippet, List.cons_append, renderRows_cons] at hrender
    obtain ⟨hline, hcolumn⟩ := place_eq_of_shown hrender
    exact ⟨hsource, label, hlabel, Prod.ext hline hcolumn⟩
  · rintro ⟨hsource, label, hlabel, hlocate⟩
    obtain ⟨hline, hcolumn⟩ := Prod.mk.inj hlocate
    obtain ⟨back, hsnippet, -⟩ := exists_snippet_eq file hsource hlabel
    let gutter := d.gutter (ofText source)
    refine ⟨gutter, renderRows inColour gutter (back ++ d.remarks), ?_⟩
    rw [render_eq_header_append, hsnippet, List.cons_append, renderRows_cons, hline, hcolumn]

/-! ## The location -/

/-- The location is that of the start of the main label. -/
theorem member?_location (d : Diagnostic) (source : String) :
    (d.toJson (ofText source) source).member? "location" =
      if source = "" then none
      else d.mainLabel?.map fun label =>
        (ofText source).locationJson source label.span.start.toNat := by
  have hmember : (d.toJson (ofText source) source).member? "location" =
      (d.offsetIn? source).map ((ofText source).locationJson source) := by
    simp [toJson]
  rw [hmember, offsetIn?, span?]
  simp only [String.isEmpty_iff]
  split_ifs
  · rfl
  · rw [Option.map_map, Option.map_map]
    rfl

/-! ## The headline -/

/-- What both forms say of a matter: it is at the start of the main label, where offsets past the
end mean the end, in a line of the source that the snippet shows. -/
structure Whereabouts (d : Diagnostic) (source : String) (file : Option String) (label : Label)
    (line column : Nat) (text : String) : Prop where
  main : MainLabel d.labels label
  location : (d.toJson (ofText source) source).member? "location" =
    some (.obj [("line", .nat line), ("column", .nat column),
      ("byte_offset", .nat label.span.start.toNat), ("source_line", .str text)])
  position : LineIndex.PositionOf source label.span.start.toNat line column
  text_eq : (source.toList.splitOn '\n')[line - 1]? = some text.toList
  printed : Row.source line text ∈ d.snippet (ofText source) source file

/-- Where there is a source, all this is so of the main label. -/
theorem exists_whereabouts (file : Option String) (hsource : source ≠ "")
    (h : d.mainLabel? = some label) :
    ∃ text, d.Whereabouts source file label ((ofText source).lineOf label.span.start.toNat)
      ((ofText source).columnOf label.span.start.toNat) text := by
  obtain ⟨before, chars, after, hlies⟩ := LineIndex.exists_liesIn source label.span.start.toNat
  have htext : (ofText source).line? source ((ofText source).lineOf label.span.start.toNat) =
      some (String.ofList chars) := hlies.line?_eq
  refine ⟨String.ofList chars, ?_⟩
  constructor
  case main => exact mainLabel?_eq_some_iff.1 h
  case location =>
    rw [member?_location, if_neg hsource, h, Option.map_some, LineIndex.locationJson, htext]
    rfl
  case position => exact LineIndex.positionOf_locate source label.span.start.toNat
  case text_eq =>
    rw [hlies.splitOn_eq, hlies.lineOf_eq, Nat.add_sub_cancel, String.toList_ofList]
    simp
  case printed =>
    -- The main label is one of those that are shown, and its line is the first of its rows.
    obtain ⟨back, hsnippet, hback⟩ := exists_snippet_eq file hsource h
    rw [hsnippet]
    apply List.mem_cons_of_mem
    apply hback label (mem_of_mainLabel? h)
    rw [Label.rows, Label.line, htext]
    exact List.mem_cons_self

/-- **Both forms agree on where a matter is.** There is an arrow on the terminal if and only if
there is a location in JSON, which is if there is a source and a label. The arrow leads to the line
and the column of the location. They are those of the byte at which the main label starts, and the
text of that line, which is told with the location, is shown in the snippet. -/
theorem whereabouts_agree (d : Diagnostic) (source : String) (file : Option String)
    (inColour : Bool) :
    ((∃ line column, d.ArrowAt source file inColour line column) ↔
      ∃ location, (d.toJson (ofText source) source).member? "location" = some location) ∧
    ((∃ location, (d.toJson (ofText source) source).member? "location" = some location) ↔
      source ≠ "" ∧ d.labels ≠ []) ∧
    ∀ line column, d.ArrowAt source file inColour line column →
      ∃ label text, d.Whereabouts source file label line column text ∧
        d.Shows source file inColour (.source line text) := by
  have hlocation : (∃ location, (d.toJson (ofText source) source).member? "location" =
      some location) ↔ source ≠ "" ∧ d.labels ≠ [] := by
    rw [labels_ne_nil_iff, ← Option.isSome_iff_exists, ← Option.isSome_iff_exists,
      member?_location]
    by_cases hsource : source = "" <;> simp [hsource]
  refine ⟨?_, hlocation, fun line column harrow => ?_⟩
  · rw [hlocation, labels_ne_nil_iff]
    constructor
    · rintro ⟨line, column, harrow⟩
      obtain ⟨hsource, label, hlabel, -⟩ := arrowAt_iff.1 harrow
      exact ⟨hsource, label, hlabel⟩
    · rintro ⟨hsource, label, hlabel⟩
      exact ⟨_, _, arrowAt_iff.2 ⟨hsource, label, hlabel, rfl⟩⟩
  · obtain ⟨hsource, label, hlabel, hlocate⟩ := arrowAt_iff.1 harrow
    obtain ⟨rfl, rfl⟩ := Prod.mk.inj hlocate
    obtain ⟨text, hwhere⟩ := exists_whereabouts file hsource hlabel
    refine ⟨label, text, hwhere, shows_of_mem ?_⟩
    exact List.mem_cons_of_mem _ (List.mem_append_left _ hwhere.printed)

/-- Three labels on two lines. The first is not primary, and the second one starts past the end of
the source. -/
def overrun : Diagnostic :=
  (((Diagnostic.new .error "overrun").withSecondary ⟨0, 1⟩ "from").withPrimary ⟨9, 9⟩
    "here").withPrimary ⟨1, 2⟩ "too"

/-- Both forms say the end of the second line, though the primary label that is shown first is on
the first line. -/
theorem whereabouts_agree_at_overrun :
    overrun.ArrowAt "ab\ncd" (some "f") false 2 3 ∧
      (overrun.toJson (ofText "ab\ncd") "ab\ncd").member? "location" =
        some (.obj [("line", .nat 2), ("column", .nat 3), ("byte_offset", .nat 9),
          ("source_line", .str "cd")]) ∧
      overrun.Shows "ab\ncd" (some "f") false (.source 2 "cd") := by
  have harrow : overrun.ArrowAt "ab\ncd" (some "f") false 2 3 :=
    ⟨2, "    |\n  1 | ab\n    |  ^ too\n  1 | ab\n    | - from\n  2 | cd\n    |   ^ here\n    |\n",
      by decide⟩
  obtain ⟨-, -, hplace⟩ := whereabouts_agree overrun "ab\ncd" (some "f") false
  obtain ⟨label, text, hwhere, hshows⟩ := hplace 2 3 harrow
  have htext : text = "cd" :=
    String.toList_injective (Option.some.inj (hwhere.text_eq.symm.trans (by decide)))
  have hlabel : label = ⟨⟨9, 9⟩, true, "here"⟩ :=
    Option.some.inj ((mainLabel?_eq_some_iff.2 hwhere.main).symm.trans (by decide))
  have hlocation := hwhere.location
  rw [hlabel, htext] at hlocation
  rw [htext] at hshows
  exact ⟨harrow, hlocation, hshows⟩

end Diagnostic

end FrameEscape
