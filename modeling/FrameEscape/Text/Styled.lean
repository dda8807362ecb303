/-!
# Styled text

Text for a terminal is a sequence of pieces, some of which have a style. Shown in colour, a
styled piece stands between an escape code that turns its style on and one that turns all
styles off; shown plainly, it is its text.
-/

namespace FrameEscape

/-- The colours in use. -/
inductive Colour where
  | red
  | green
  | yellow
  | blue
  | cyan
  deriving DecidableEq

/-- The number of a colour in an escape code. -/
def Colour.code : Colour → String
  | red => "31"
  | green => "32"
  | yellow => "33"
  | blue => "34"
  | cyan => "36"

/-- How a piece of text is to look. -/
structure Style where
  bold : Bool
  colour : Option Colour
  deriving DecidableEq

namespace Style

/-- A colour at normal weight. -/
def plain (colour : Colour) : Style := ⟨false, some colour⟩

/-- A colour in bold. -/
def strong (colour : Colour) : Style := ⟨true, some colour⟩

/-- The numbers of a style in an escape code, that of bold first. -/
def codes (style : Style) : List String :=
  (if style.bold then ["1"] else []) ++ (style.colour.map Colour.code).toList

/-- The escape code that turns a style on. -/
def opening (style : Style) : String := "\x1b[" ++ ";".intercalate style.codes ++ "m"

/-- The escape code that turns all styles off. -/
def reset : String := "\x1b[0m"

/-- Turn a style on again wherever the text itself turns all styles off. -/
def reopen (opening : List Char) : List Char → List Char
  | '\x1b' :: '[' :: '0' :: 'm' :: rest =>
    '\x1b' :: '[' :: '0' :: 'm' :: (opening ++ reopen opening rest)
  | c :: rest => c :: reopen opening rest
  | [] => []

/-- A text in a style. -/
def paint (style : Style) (text : String) : String :=
  style.opening ++ String.ofList (reopen style.opening.toList text.toList) ++ reset

end Style

/-- A piece of text, with or without a style. -/
structure Piece where
  style : Option Style
  text : String
  deriving DecidableEq

namespace Piece

/-- Text without a style. -/
def bare (text : String) : Piece := ⟨none, text⟩

/-- Text in a style. -/
def styled (style : Style) (text : String) : Piece := ⟨some style, text⟩

/-- A piece as it is shown, in colour or plainly. -/
def render (inColour : Bool) (piece : Piece) : String :=
  match piece.style with
  | some style => if inColour then style.paint piece.text else piece.text
  | none => piece.text

end Piece

/-- Some pieces in a row as they are shown. -/
def renderPieces (inColour : Bool) (pieces : List Piece) : String :=
  String.join (pieces.map (·.render inColour))

end FrameEscape
