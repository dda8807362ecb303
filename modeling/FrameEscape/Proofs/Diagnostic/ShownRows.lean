import FrameEscape.Proofs.Diagnostic.Layout
import Mathlib

/-!
# Rows that are shown

In colour or not, a diagnostic is shown row by row. A row can be found again in the text if it can
be told where it begins and how far its parts go. Blanks and digits go as far as there is no other
character, and the sign in front of a place is not that in front of a remark.

* **`Diagnostic.shows_of_mem`**: each row of a diagnostic is shown.
* **`blanks_append_inj`**, **`repr_append_inj`**: where blanks and digits end.
* **`Row.toList_shown_place`**, **`Row.toList_shown_remark`**: the characters of such rows.
-/

namespace FrameEscape

open LineIndex (ofText)

/-! ## Rows as texts -/

/-- A row as it is shown, with a newline. -/
def Row.shown (inColour : Bool) (gutter : Nat) (row : Row) : String :=
  renderPieces inColour (row.pieces gutter) ++ "\n"

/-- Rows as they are shown, one below the other. -/
def renderRows (inColour : Bool) (gutter : Nat) (rows : List Row) : String :=
  String.join (rows.map (Row.shown inColour gutter))

theorem renderRows_append (inColour : Bool) (gutter : Nat) (front back : List Row) :
    renderRows inColour gutter (front ++ back) =
      renderRows inColour gutter front ++ renderRows inColour gutter back := by
  rw [renderRows, List.map_append, String.join_append]
  rfl

theorem renderRows_cons (inColour : Bool) (gutter : Nat) (row : Row) (rows : List Row) :
    renderRows inColour gutter (row :: rows) =
      row.shown inColour gutter ++ renderRows inColour gutter rows := by
  rw [renderRows, List.map_cons, String.join_cons]
  rfl

namespace Diagnostic

variable {d : Diagnostic} {source : String} {file : Option String} {inColour : Bool}

theorem render_eq_renderRows (d : Diagnostic) (source : String) (file : Option String)
    (inColour : Bool) : d.render source file inColour =
      renderRows inColour (d.gutter (ofText source)) (d.rows (ofText source) source file) := rfl

/-- The row is shown, between what is above and below it. -/
def Shows (d : Diagnostic) (source : String) (file : Option String) (inColour : Bool) (row : Row) :
    Prop :=
  ∃ above below, d.render source file inColour =
    above ++ (row.shown inColour (d.gutter (ofText source)) ++ below)

theorem shows_of_mem {row : Row} (h : row ∈ d.rows (ofText source) source file) :
    d.Shows source file inColour row := by
  obtain ⟨front, back, hrows⟩ := List.append_of_mem h
  let gutter := d.gutter (ofText source)
  refine ⟨renderRows inColour gutter front, renderRows inColour gutter back, ?_⟩
  rw [render_eq_renderRows, hrows, renderRows_append, renderRows_cons]

end Diagnostic

/-! ## How rows begin -/

theorem dropWhile_blanks_append (n : Nat) {rest : List Char} (h : ∀ c ∈ rest.head?, c ≠ ' ') :
    (List.replicate n ' ' ++ rest).dropWhile (· = ' ') = rest := by
  have hblanks : ∀ c ∈ List.replicate n ' ', decide (c = ' ') = true :=
    fun c hc => decide_eq_true (List.eq_of_mem_replicate hc)
  rw [List.dropWhile_append_of_pos hblanks]
  cases rest with
  | nil => rfl
  | cons c rest => exact List.dropWhile_cons_of_neg (by simpa using h c rfl)

/-- Blanks in front end where something else begins. -/
theorem blanks_append_inj {m n : Nat} {rest rest' : List Char}
    (hrest : ∀ c ∈ rest.head?, c ≠ ' ') (hrest' : ∀ c ∈ rest'.head?, c ≠ ' ')
    (h : List.replicate m ' ' ++ rest = List.replicate n ' ' ++ rest') : rest = rest' := by
  have hends := congrArg (List.dropWhile (· = ' ')) h
  rwa [dropWhile_blanks_append m hrest, dropWhile_blanks_append n hrest'] at hends

/-- Digits in front end where something else begins. -/
theorem repr_append_inj {m n : Nat} {rest rest' : List Char}
    (hrest : ∀ c ∈ rest.head?, c.isDigit = false) (hrest' : ∀ c ∈ rest'.head?, c.isDigit = false)
    (h : m.repr.toList ++ rest = n.repr.toList ++ rest') : m = n ∧ rest = rest' := by
  have hspan := congrArg Json.spanDigits h
  rw [Json.spanDigits_repr_append m hrest, Json.spanDigits_repr_append n hrest'] at hspan
  obtain ⟨hdigits, hrests⟩ := Prod.mk.inj hspan
  refine ⟨?_, hrests⟩
  rw [← Json.digitsValue_repr m, hdigits, Json.digitsValue_repr]

namespace Row

variable {gutter gutter' : Nat} {inColour : Bool}

/-- The sign in front of a place. -/
def arrow (inColour : Bool) : List Char :=
  ((Piece.styled (.plain .blue) "-->").render inColour).toList

/-- The sign in front of a remark. -/
def equalsSign (inColour : Bool) : List Char :=
  ((Piece.styled (.plain .cyan) "=").render inColour).toList

theorem arrow_append_ne (inColour : Bool) (rest rest' : List Char) :
    arrow inColour ++ rest ≠ equalsSign inColour ++ rest' := by
  cases inColour with
  | false =>
    show '-' :: _ ≠ '=' :: _
    simp
  | true =>
    -- The codes of the two colours are told apart by their last digits.
    show '\x1b' :: '[' :: '3' :: '4' :: _ ≠ '\x1b' :: '[' :: '3' :: '6' :: _
    simp

theorem head?_arrow_append (inColour : Bool) (rest : List Char) :
    ∀ c ∈ (arrow inColour ++ rest).head?, c ≠ ' ' := by
  cases inColour <;> · rintro c ⟨⟩; decide

theorem head?_equalsSign_append (inColour : Bool) (rest : List Char) :
    ∀ c ∈ (equalsSign inColour ++ rest).head?, c ≠ ' ' := by
  cases inColour <;> · rintro c ⟨⟩; decide

theorem toList_shown_place (inColour : Bool) (gutter : Nat) (file : String) (line column : Nat) :
    ((place file line column).shown inColour gutter).toList =
      List.replicate gutter ' ' ++ (arrow inColour ++ ((" " ++ file ++ ":").toList ++
        (line.repr.toList ++ ':' :: (column.repr.toList ++ ['\n'])))) := by
  have hpieces : (place file line column).pieces gutter = [.bare (spaces gutter),
      .styled (.plain .blue) "-->",
      .bare (" " ++ file ++ ":" ++ line.repr ++ ":" ++ column.repr)] := rfl
  simp [shown, renderPieces, hpieces, arrow, Piece.render, Piece.bare, toList_spaces]

theorem toList_shown_remark (inColour : Bool) (gutter : Nat) (about : Remark) (text : String) :
    ∃ rest, ((remark about text).shown inColour gutter).toList =
      List.replicate (gutter + 2) ' ' ++ (equalsSign inColour ++ rest) := by
  let word := (Piece.styled about.style about.word).render inColour
  refine ⟨' ' :: (word.toList ++ ':' :: ' ' :: (text.toList ++ ['\n'])), ?_⟩
  have hblanks : spaces (gutter + 2) = spaces (gutter + 1) ++ " " := spaces_succ (gutter + 1)
  rw [← toList_spaces, hblanks]
  simp [word, shown, renderPieces, pieces, equalsSign, Piece.render, Piece.bare]

/-- A header has no gutter. -/
theorem shown_header (inColour : Bool) (gutter gutter' : Nat) (severity : Severity)
    (code : Option String) (message : String) :
    (header severity code message).shown inColour gutter =
      (header severity code message).shown inColour gutter' := by
  cases code <;> rfl

end Row

end FrameEscape
