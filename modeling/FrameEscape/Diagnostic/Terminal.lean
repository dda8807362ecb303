import FrameEscape.Diagnostic
import FrameEscape.Sorting
import FrameEscape.Text.Lines
import FrameEscape.Text.Styled

/-!
# Diagnostics on a terminal

A diagnostic is laid out in rows: a header, the place in the source, a snippet with each
labelled line and marks below it, and remarks. The snippet is left out if there is no source
or no label. All rows share a gutter, which is as wide as the greatest line number.
-/

namespace FrameEscape

/-- What a row below the snippet is about. -/
inductive Remark where
  | path
  | levels
  | note
  | help
  deriving DecidableEq

/-- A row of a diagnostic on a terminal. -/
inductive Row where
  | header (severity : Severity) (code : Option String) (message : String)
  /-- Where the matter is. -/
  | place (file : String) (line column : Nat)
  /-- The gutter by itself. -/
  | bar
  /-- A line of the source. -/
  | source (line : Nat) (text : String)
  /-- Marks below a part of a line. -/
  | marks (column width : Nat) (isPrimary : Bool) (message : String)
  | remark (about : Remark) (text : String)
  deriving DecidableEq

/-- As many spaces. -/
def spaces (n : Nat) : String := String.ofList (List.replicate n ' ')

/-- A number with spaces in front, up to a width. -/
def padLeft (width n : Nat) : String := spaces (width - n.repr.length) ++ n.repr

/-- The style of the word for a severity. -/
def Severity.style : Severity → Style
  | error => .strong .red
  | warning => .strong .yellow
  | note => .strong .blue

namespace Remark

/-- The word that a remark begins with. -/
def word : Remark → String
  | path => "at"
  | levels => "levels"
  | note => "note"
  | help => "help"

/-- The style of that word. -/
def style : Remark → Style
  | help => .strong .green
  | _ => .strong .cyan

end Remark

namespace Row

/-- The bar of the gutter. -/
def barPiece : Piece := .styled (.plain .blue) "|"

/-- The pieces of a row, where line numbers take up `gutter` places and one more. -/
def pieces (gutter : Nat) : Row → List Piece
  | header severity none message =>
    [.styled severity.style severity.word, .bare ": ", .styled ⟨true, none⟩ message]
  | header severity (some code) message =>
    [.styled severity.style severity.word, .bare "[", .styled (.strong .red) code, .bare "]: ",
      .styled ⟨true, none⟩ message]
  | place file line column =>
    [.bare (spaces gutter), .styled (.plain .blue) "-->", .bare s!" {file}:{line}:{column}"]
  | bar => [.bare (spaces (gutter + 1)), .bare " ", barPiece]
  | source line text =>
    [.styled (.strong .blue) (padLeft (gutter + 1) line), .bare " ", barPiece, .bare " ",
      .bare text]
  | marks column width isPrimary message =>
    let style := if isPrimary then Style.strong .red else .plain .blue
    let mark := if isPrimary then '^' else '-'
    [.bare (spaces (gutter + 1)), .bare " ", barPiece, .bare " ", .bare (spaces (column - 1)),
      .styled style (String.ofList (List.replicate width mark)), .bare " ",
      .styled style message]
  | remark about text =>
    [.bare (spaces (gutter + 1)), .bare " ", .styled (.plain .cyan) "=", .bare " ",
      .styled about.style about.word, .bare ": ", .bare text]

end Row

namespace Label

/-- The line in which a label starts. -/
def line (label : Label) (index : LineIndex) : Nat := index.lineOf label.span.start.toNat

/-- Labels are shown in the order of their lines, primary ones first on each line. -/
def precedes (index : LineIndex) (a b : Label) : Bool :=
  decide (a.line index < b.line index) ||
    (a.line index == b.line index && (a.isPrimary || !b.isPrimary))

/-- The number of marks for a label: one for each byte, up to the end of its first line, and
at least one. -/
def width (label : Label) (index : LineIndex) (lineText : String) : Nat :=
  let column := index.columnOf label.span.start.toNat
  let stop := label.span.stop.toNat
  max 1 <|
    if index.lineOf stop = label.line index then index.columnOf stop - column
    else lineText.utf8ByteSize + 1 - column

/-- The labelled line and the marks below it. -/
def rows (label : Label) (index : LineIndex) (source : String) : List Row :=
  let text := (index.line? source (label.line index)).getD ""
  [.source (label.line index) text,
    .marks (index.columnOf label.span.start.toNat) (label.width index text) label.isPrimary
      label.message]

end Label

namespace Diagnostic

/-- The labels in the order in which they are shown. -/
def shownLabels (d : Diagnostic) (index : LineIndex) : List Label :=
  sortBy (Label.precedes index) d.labels

/-- The number of places for line numbers: enough for the greatest one, and at least two. -/
def gutter (d : Diagnostic) (index : LineIndex) : Nat :=
  let greatest := ((d.shownLabels index).map (·.line index)).max?
  greatest.elim 2 fun line => max line.repr.length 2

/-- The rows of the snippet, if there is a source and a label. -/
def snippet (d : Diagnostic) (index : LineIndex) (source : String) (file : Option String) :
    List Row :=
  match d.span? with
  | none => []
  | some span =>
    if source.isEmpty then []
    else
      let start := span.start.toNat
      .place (file.getD "<source>") (index.lineOf start) (index.columnOf start) :: .bar ::
        ((d.shownLabels index).flatMap (·.rows index source) ++ [.bar])

/-- The rows below the snippet. -/
def remarks (d : Diagnostic) : List Row :=
  (d.path.map (Row.remark .path)).toList ++
    (d.levels.map fun levels => Row.remark .levels
      s!"requires {levels.required.name}, found {levels.actual.name}").toList ++
    d.notes.map (Row.remark .note) ++
    (d.help.map (Row.remark .help)).toList

/-- All rows of a diagnostic. -/
def rows (d : Diagnostic) (index : LineIndex) (source : String) (file : Option String) :
    List Row :=
  .header d.severity d.code d.message :: (d.snippet index source file ++ d.remarks)

/-- A diagnostic as it is shown on a terminal, about a source in a file that may have a
name. -/
def render (d : Diagnostic) (source : String) (file : Option String) (inColour : Bool) :
    String :=
  let index := LineIndex.ofText source
  String.join ((d.rows index source file).map fun row =>
    renderPieces inColour (row.pieces (d.gutter index)) ++ "\n")

end Diagnostic

end FrameEscape
