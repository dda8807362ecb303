import FrameEscape.Proofs.Diagnostic.Layout
import Mathlib

/-!
# Colours only add escape codes

What is shown in colour is what is shown plainly, with escape codes between its pieces. To take out
the escape codes gives the plain text again, as long as no part of it holds the escape character: a
bracket, digits and an `m` that stand in the source are no code without one.

* **`stripCodes`**: a text without its escape codes, said without styles. It leaves text alone that
  has no escape character (`stripCodes_append`), and takes out each code of a style
  (`stripCodes_opening`, `stripCodes_reset`).
* **`stripCodes_renderPieces`**: styled pieces become plain ones.
* **`Row.noEscape_pieces`**: what the layout itself writes has no escape character.
* **`colour_only_adds_codes`**: the headline.
-/

namespace FrameEscape

open LineIndex (ofText)

/-! ## Texts without escape codes -/

/-- What may stand in an escape code between the bracket and the `m`. -/
def isCodeChar (c : Char) : Bool := c.isDigit || c == ';'

/-- What comes after an escape code, if the text begins with one: the escape character, a bracket,
digits and semicolons, and an `m`. -/
def afterCode? : List Char → Option (List Char)
  | '\x1b' :: '[' :: rest =>
    match rest.dropWhile isCodeChar with
    | 'm' :: after => some after
    | _ => none
  | _ => none

theorem length_lt_of_afterCode? {cs after : List Char} (h : afterCode? cs = some after) :
    after.length < cs.length := by
  unfold afterCode? at h
  split at h
  next rest =>
    split at h
    next _ hdrop =>
      cases h
      have hlength : (rest.dropWhile isCodeChar).length ≤ rest.length :=
        (List.dropWhile_suffix _).length_le
      rw [hdrop, List.length_cons] at hlength
      rw [List.length_cons, List.length_cons]
      omega
    · cases h
  · cases h

/-- A text without its escape codes. -/
def stripCodes : List Char → List Char
  | [] => []
  | c :: cs =>
    match _h : afterCode? (c :: cs) with
    | some after => stripCodes after
    | none => c :: stripCodes cs
termination_by cs => cs.length
decreasing_by
  · exact length_lt_of_afterCode? _h
  · exact Nat.lt_succ_self _

theorem stripCodes_of_afterCode? {cs after : List Char} (h : afterCode? cs = some after) :
    stripCodes cs = stripCodes after := by
  cases cs with
  | nil => cases h
  | cons c cs =>
    rw [stripCodes]
    split
    next other hother =>
      cases h.symm.trans hother
      rfl
    next hnone => cases h.symm.trans hnone

theorem stripCodes_cons {c : Char} (h : c ≠ '\x1b') (cs : List Char) :
    stripCodes (c :: cs) = c :: stripCodes cs := by
  have hnone : afterCode? (c :: cs) = none := by
    unfold afterCode?
    split
    next heq => exact absurd (List.cons.inj heq).1 h
    · rfl
  rw [stripCodes]
  split
  next after hafter => cases hnone.symm.trans hafter
  · rfl

/-- A text that has no escape character, and so no escape code. -/
def NoEscape (text : String) : Prop := '\x1b' ∉ text.toList

instance (text : String) : Decidable (NoEscape text) := inferInstanceAs (Decidable (_ ∉ _))

theorem NoEscape.append {a b : String} (ha : NoEscape a) (hb : NoEscape b) : NoEscape (a ++ b) := by
  rw [NoEscape, String.toList_append, List.mem_append, not_or]
  exact ⟨ha, hb⟩

theorem noEscape_join {texts : List String} (h : ∀ text ∈ texts, NoEscape text) :
    NoEscape (String.join texts) := by
  intro hescape
  rw [String.toList_join, List.mem_flatMap] at hescape
  obtain ⟨text, htext, hescape⟩ := hescape
  exact h text htext hescape

theorem stripCodes_append {text : String} (h : NoEscape text) (rest : List Char) :
    stripCodes (text.toList ++ rest) = text.toList ++ stripCodes rest := by
  have hall : ∀ cs : List Char, '\x1b' ∉ cs → stripCodes (cs ++ rest) = cs ++ stripCodes rest := by
    intro cs hcs
    induction cs with
    | nil => rfl
    | cons c cs ih =>
      rw [List.mem_cons, not_or] at hcs
      rw [List.cons_append, stripCodes_cons (Ne.symm hcs.1), ih hcs.2, List.cons_append]
  exact hall _ h

/-! ## Styles -/

namespace Style

theorem stripCodes_code {numbers : List Char} (h : numbers.all isCodeChar = true)
    (rest : List Char) :
    stripCodes ('\x1b' :: '[' :: (numbers ++ 'm' :: rest)) = stripCodes rest := by
  apply stripCodes_of_afterCode?
  have hm : ¬ isCodeChar 'm' = true := by decide
  have hdrop : (numbers ++ 'm' :: rest).dropWhile isCodeChar = 'm' :: rest := by
    rw [List.dropWhile_append_of_pos (List.all_eq_true.1 h), List.dropWhile_cons_of_neg hm]
  show (match (numbers ++ 'm' :: rest).dropWhile isCodeChar with
    | 'm' :: after => some after
    | _ => none) = some rest
  rw [hdrop]
  rfl

/-- The numbers that turn a style on are no other characters. There are few styles. -/
theorem all_isCodeChar_codes (style : Style) :
    (";".intercalate style.codes).toList.all isCodeChar = true := by
  obtain ⟨bold, colour⟩ := style
  cases bold <;> rcases colour with _ | (_ | _ | _ | _ | _) <;> decide

theorem stripCodes_opening (style : Style) (rest : List Char) :
    stripCodes (style.opening.toList ++ rest) = stripCodes rest := by
  have hopening : style.opening.toList ++ rest =
      '\x1b' :: '[' :: ((";".intercalate style.codes).toList ++ 'm' :: rest) := by
    simp [opening]
  rw [hopening]
  exact stripCodes_code style.all_isCodeChar_codes rest

theorem stripCodes_reset (rest : List Char) : stripCodes (reset.toList ++ rest) = stripCodes rest :=
  have hzero : ['0'].all isCodeChar = true := by decide
  stripCodes_code hzero rest

/-- A style is turned on again only after an escape code in the text. -/
theorem reopen_eq_self (opening : List Char) {cs : List Char} (h : '\x1b' ∉ cs) :
    reopen opening cs = cs := by
  induction cs with
  | nil => rfl
  | cons c cs ih =>
    rw [List.mem_cons, not_or] at h
    rw [reopen, ih h.2]
    intro rest hc
    exact absurd hc.symm h.1

theorem stripCodes_paint (style : Style) {text : String} (h : NoEscape text) (rest : List Char) :
    stripCodes ((style.paint text).toList ++ rest) = text.toList ++ stripCodes rest := by
  rw [paint, reopen_eq_self _ h, String.ofList_toList, String.toList_append, String.toList_append,
    List.append_assoc, List.append_assoc, stripCodes_opening, stripCodes_append h,
    stripCodes_reset]

end Style

/-! ## Pieces -/

theorem Piece.stripCodes_render {piece : Piece} (h : NoEscape piece.text) (rest : List Char) :
    stripCodes ((piece.render true).toList ++ rest) =
      (piece.render false).toList ++ stripCodes rest := by
  obtain ⟨style, text⟩ := piece
  cases style with
  | none => exact stripCodes_append h rest
  | some style => exact style.stripCodes_paint h rest

theorem stripCodes_renderPieces {pieces : List Piece} (h : ∀ piece ∈ pieces, NoEscape piece.text)
    (rest : List Char) :
    stripCodes ((renderPieces true pieces).toList ++ rest) =
      (renderPieces false pieces).toList ++ stripCodes rest := by
  induction pieces with
  | nil => rfl
  | cons piece pieces ih =>
    obtain ⟨hpiece, hrest⟩ := List.forall_mem_cons.1 h
    have hcons : ∀ inColour, renderPieces inColour (piece :: pieces) =
        piece.render inColour ++ renderPieces inColour pieces := fun _ => String.join_cons
    rw [hcons, hcons, String.toList_append, String.toList_append, List.append_assoc,
      Piece.stripCodes_render hpiece, ih hrest, List.append_assoc]

/-- Without colours, pieces have the escape characters of their texts only. -/
theorem noEscape_renderPieces {pieces : List Piece} (h : ∀ piece ∈ pieces, NoEscape piece.text) :
    NoEscape (renderPieces false pieces) := by
  apply noEscape_join
  intro text htext
  obtain ⟨⟨style, text⟩, hpiece, rfl⟩ := List.mem_map.1 htext
  cases style with
  | none => exact h _ hpiece
  | some style => exact h _ hpiece

/-! ## What the layout writes -/

theorem noEscape_spaces (n : Nat) : NoEscape (spaces n) := by
  intro hescape
  rw [toList_spaces] at hescape
  exact absurd (List.eq_of_mem_replicate hescape) (by decide)

theorem noEscape_repr (n : Nat) : NoEscape n.repr :=
  fun hescape => absurd (Json.isDigit_of_mem_repr hescape) (by decide)

/-- The texts in a row that do not come from the layout. -/
def Row.texts : Row → List String
  | header _ code message => code.toList ++ [message]
  | place file _ _ => [file]
  | bar => []
  | source _ text => [text]
  | marks _ _ _ message => [message]
  | remark _ text => [text]

/-- A row has an escape character in its pieces only if it was given one. -/
theorem Row.noEscape_pieces {row : Row} (gutter : Nat) (h : ∀ text ∈ row.texts, NoEscape text) :
    ∀ piece ∈ row.pieces gutter, NoEscape piece.text := by
  cases row with
  | header severity code message =>
    have hmessage : NoEscape message := h _ (List.mem_append_right _ (List.mem_singleton_self _))
    have hword : NoEscape severity.word := by cases severity <;> decide
    cases code with
    | none =>
      simp only [pieces, List.forall_mem_cons]
      exact ⟨hword, by decide, hmessage, by simp⟩
    | some code =>
      have hcode : NoEscape code := h _ (List.mem_append_left _ (List.mem_singleton_self _))
      simp only [pieces, List.forall_mem_cons]
      exact ⟨hword, by decide, hcode, by decide, hmessage, by simp⟩
  | place file line column =>
    have hfile : NoEscape file := h _ (List.mem_singleton_self _)
    have hplace : NoEscape (" " ++ file ++ ":" ++ line.repr ++ ":" ++ column.repr) :=
      (((((by decide : NoEscape " ").append hfile).append (by decide)).append
        (noEscape_repr line)).append (by decide)).append (noEscape_repr column)
    simp only [pieces, List.forall_mem_cons]
    exact ⟨noEscape_spaces _, by decide, hplace, by simp⟩
  | bar =>
    simp only [pieces, List.forall_mem_cons]
    exact ⟨noEscape_spaces _, by decide, by decide, by simp⟩
  | source line text =>
    have htext : NoEscape text := h _ (List.mem_singleton_self _)
    simp only [pieces, List.forall_mem_cons]
    exact ⟨(noEscape_spaces _).append (noEscape_repr line), by decide, by decide, by decide, htext,
      by simp⟩
  | marks column width isPrimary message =>
    have hmessage : NoEscape message := h _ (List.mem_singleton_self _)
    have hmarks :
        NoEscape (String.ofList (List.replicate width (if isPrimary then '^' else '-'))) := by
      intro hescape
      rw [String.toList_ofList] at hescape
      have hmark := List.eq_of_mem_replicate hescape
      revert hmark
      cases isPrimary <;> decide
    simp only [pieces, List.forall_mem_cons]
    exact ⟨noEscape_spaces _, by decide, by decide, by decide, noEscape_spaces _, hmarks, by decide,
      hmessage, by simp⟩
  | remark about text =>
    have htext : NoEscape text := h _ (List.mem_singleton_self _)
    have hword : NoEscape about.word := by cases about <;> decide
    simp only [pieces, List.forall_mem_cons]
    exact ⟨noEscape_spaces _, by decide, by decide, by decide, hword, by decide, htext, by simp⟩

/-- Rows in colour become rows in plain text. Induction on the rows. -/
theorem stripCodes_rows {rows : List Row} (gutter : Nat)
    (h : ∀ row ∈ rows, ∀ text ∈ row.texts, NoEscape text) :
    stripCodes (String.join (rows.map fun row =>
      renderPieces true (row.pieces gutter) ++ "\n")).toList =
      (String.join (rows.map fun row => renderPieces false (row.pieces gutter) ++ "\n")).toList := by
  induction rows with
  | nil =>
    show stripCodes [] = []
    rw [stripCodes]
  | cons row rows ih =>
    obtain ⟨hrow, hrest⟩ := List.forall_mem_cons.1 h
    have hnewline : NoEscape "\n" := by decide
    rw [List.map_cons, List.map_cons, String.join_cons, String.join_cons, String.toList_append,
      String.toList_append, String.toList_append, String.toList_append, List.append_assoc,
      stripCodes_renderPieces (row.noEscape_pieces gutter hrow), stripCodes_append hnewline,
      ih hrest, List.append_assoc]

/-! ## The headline -/

namespace Diagnostic

/-- The texts in a diagnostic. -/
def texts (d : Diagnostic) : List String :=
  d.message :: (d.code.toList ++ d.labels.map (·.message) ++ d.path.toList ++ d.notes ++
    d.help.toList)

variable {d : Diagnostic} {source : String} {file : Option String}

/-- A line of the source has only characters of the source. -/
theorem noEscape_rows_label (h : NoEscape source) {label : Label}
    (hmessage : NoEscape label.message) :
    ∀ row ∈ label.rows (ofText source) source, ∀ text ∈ row.texts, NoEscape text := by
  obtain ⟨before, line, after, hlies⟩ := LineIndex.exists_liesIn source label.span.start.toNat
  have htext : (ofText source).line? source (label.line (ofText source)) =
      some (String.ofList line) := hlies.line?_eq
  have hline : NoEscape (String.ofList line) := by
    intro hescape
    rw [String.toList_ofList] at hescape
    apply h
    rw [toList_eq_of_splitOn hlies.splitOn_eq]
    exact List.mem_append_right _ (List.mem_append_left _ hescape)
  rw [Label.rows, htext]
  simpa [Row.texts] using And.intro hline hmessage

theorem noEscape_snippet (hsource : NoEscape source) (hfile : ∀ name ∈ file, NoEscape name)
    (hlabels : ∀ label ∈ d.labels, NoEscape label.message) :
    ∀ row ∈ d.snippet (ofText source) source file, ∀ text ∈ row.texts, NoEscape text := by
  unfold snippet
  split
  · simp
  · split
    · simp
    · have hname : NoEscape (file.getD "<source>") := by
        cases file with
        | none => decide
        | some name => exact hfile name rfl
      have hshown : ∀ label ∈ d.shownLabels (ofText source), NoEscape label.message :=
        fun label hlabel => hlabels label ((d.inLineOrder _).perm.mem_iff.1 hlabel)
      intro row hrow
      rcases List.mem_cons.1 hrow with rfl | hrow
      · simpa [Row.texts] using hname
      rcases List.mem_cons.1 hrow with rfl | hrow
      · simp [Row.texts]
      rcases List.mem_append.1 hrow with hrow | hrow
      · obtain ⟨label, hlabel, hrow⟩ := List.mem_flatMap.1 hrow
        exact noEscape_rows_label hsource (hshown label hlabel) row hrow
      · rw [List.mem_singleton.1 hrow]
        simp [Row.texts]

theorem noEscape_remarks (h : ∀ text ∈ d.texts, NoEscape text) :
    ∀ row ∈ d.remarks, ∀ text ∈ row.texts, NoEscape text := by
  have hlevel : ∀ level : Level, NoEscape level.name := by
    intro level
    cases level <;> decide
  have hlevels : ∀ levels : LevelPair,
      NoEscape ("requires " ++ levels.required.name ++ ", found " ++ levels.actual.name) :=
    fun levels => (((by decide : NoEscape "requires ").append (hlevel _)).append
      (by decide)).append (hlevel _)
  intro row hrow
  rw [remarks_eq] at hrow
  simp only [List.mem_append, List.mem_map, Option.mem_toList] at hrow
  rcases hrow with
    ((⟨path, hpath, rfl⟩ | ⟨levels, -, rfl⟩) | ⟨note, hnote, rfl⟩) | ⟨help, hhelp, rfl⟩
  · simpa [Row.texts] using h path (by simp [texts, hpath])
  · simpa [Row.texts] using hlevels levels
  · simpa [Row.texts] using h note (by simp [texts, hnote])
  · simpa [Row.texts] using h help (by simp [texts, hhelp])

/-- **Colours only add escape codes.** If neither the diagnostic nor the source nor the name of the
file has an escape character, what is shown in colour is what is shown plainly once its escape codes
are taken out, and in that no code is left. -/
theorem colour_only_adds_codes (d : Diagnostic) (source : String) (file : Option String)
    (h : ∀ text ∈ source :: (file.toList ++ d.texts), '\x1b' ∉ text.toList) :
    String.ofList (stripCodes (d.render source file true).toList) = d.render source file false ∧
      '\x1b' ∉ (d.render source file false).toList := by
  obtain ⟨hsource, hrest⟩ := List.forall_mem_cons.1 h
  have htexts : ∀ text ∈ d.texts, NoEscape text :=
    fun text htext => hrest text (List.mem_append_right _ htext)
  have hfile : ∀ name ∈ file, NoEscape name :=
    fun name hname => hrest name (List.mem_append_left _ (Option.mem_toList.2 hname))
  have hlabels : ∀ label ∈ d.labels, NoEscape label.message := by
    intro label hlabel
    apply htexts
    simp only [texts, List.mem_cons, List.mem_append, List.mem_map]
    exact .inr (.inl (.inl (.inl (.inr ⟨label, hlabel, rfl⟩))))
  have hrows : ∀ row ∈ d.rows (ofText source) source file, ∀ text ∈ row.texts, NoEscape text := by
    intro row hrow
    rcases List.mem_cons.1 hrow with rfl | hrow
    · intro text htext
      rcases List.mem_append.1 htext with hcode | hmessage
      · apply htexts
        simp only [texts, List.mem_cons, List.mem_append]
        exact .inr (.inl (.inl (.inl (.inl hcode))))
      · rw [List.mem_singleton.1 hmessage]
        exact htexts _ List.mem_cons_self
    · rcases List.mem_append.1 hrow with hrow | hrow
      · exact noEscape_snippet hsource hfile hlabels row hrow
      · exact noEscape_remarks htexts row hrow
  constructor
  · rw [render, render, stripCodes_rows _ hrows, String.ofList_toList]
  · apply noEscape_join
    intro line hline
    obtain ⟨row, hrow, rfl⟩ := List.mem_map.1 hline
    have hnewline : NoEscape "\n" := by decide
    exact (noEscape_renderPieces (row.noEscape_pieces _ (hrows row hrow))).append hnewline

/-- A diagnostic full of brackets and digits. -/
def bracketed : Diagnostic :=
  (((Diagnostic.new .error "[0m").withCode "[1;31m").withPrimary ⟨0, 2⟩ "m[").withHelp "1m"

theorem colour_only_adds_codes_at_bracketed :
    (∀ text ∈ "x[0m" :: ((some "[m").toList ++ bracketed.texts), '\x1b' ∉ text.toList) ∧
      bracketed.render "x[0m" (some "[m") true ≠ bracketed.render "x[0m" (some "[m") false ∧
      String.ofList (stripCodes (bracketed.render "x[0m" (some "[m") true).toList) =
        bracketed.render "x[0m" (some "[m") false := by
  have htexts : ∀ text ∈ "x[0m" :: ((some "[m").toList ++ bracketed.texts),
      '\x1b' ∉ text.toList := by
    have hlist : "x[0m" :: ((some "[m").toList ++ bracketed.texts) =
        ["x[0m", "[m", "[0m", "[1;31m", "m[", "1m"] := rfl
    rw [hlist]
    decide
  exact ⟨htexts, by decide, (colour_only_adds_codes bracketed _ _ htexts).1⟩

end Diagnostic

end FrameEscape
