import FrameEscape.Json

/-!
# Writing JSON

A value is written in a layout, which says what stands before each item and after each key.
In the pretty layout every item has a line of its own, indented by two spaces for each
container that it is in. Strings escape quotes, backslashes and control characters only. A
decimal number is its mantissa and its exponent, both whole.
-/

namespace FrameEscape

namespace Json

/-- A lower-case hexadecimal digit. -/
def hexDigit (n : Nat) : Char := "0123456789abcdef".toList.getD n '0'

/-- A character as it is written in a string. -/
def escape (c : Char) : List Char :=
  match c with
  | '"' => ['\\', '"']
  | '\\' => ['\\', '\\']
  | '\x08' => ['\\', 'b']
  | '\x0c' => ['\\', 'f']
  | '\n' => ['\\', 'n']
  | '\r' => ['\\', 'r']
  | '\t' => ['\\', 't']
  | c =>
    if c.toNat < 0x20 then
      ['\\', 'u', '0', '0', hexDigit (c.toNat / 16), hexDigit (c.toNat % 16)]
    else [c]

/-- A string between quotes. -/
def quote (s : String) : String := "\"" ++ String.ofList (s.toList.flatMap escape) ++ "\""

/-- A whole number in decimal digits. -/
def intText : Int → String
  | .ofNat n => n.repr
  | .negSucc n => "-" ++ (n + 1).repr

/-- How the parts of a container are set apart. -/
structure Layout where
  /-- What stands before an item that is in this many containers, and before the end of a
  container. -/
  newline : Nat → String
  /-- What stands between a key and its value. -/
  colon : String

/-- All on one line. -/
def Layout.compact : Layout where
  newline _ := ""
  colon := ":"

/-- Every item on a line of its own. -/
def Layout.pretty : Layout where
  newline depth := "\n" ++ String.ofList (List.replicate (2 * depth) ' ')
  colon := ": "

mutual

/-- A value that is in `depth` containers. -/
def write (layout : Layout) (depth : Nat) : Json → String
  | null => "null"
  | bool true => "true"
  | bool false => "false"
  | int n => intText n
  | decimal mantissa exponent => intText mantissa ++ "e" ++ intText exponent
  | str s => quote s
  | arr [] => "[]"
  | arr (item :: rest) =>
    "[" ++ layout.newline (depth + 1) ++ write layout (depth + 1) item ++
      writeItems layout (depth + 1) rest ++ layout.newline depth ++ "]"
  | obj [] => "\x7b\x7d"
  | obj ((key, value) :: rest) =>
    "\x7b" ++ layout.newline (depth + 1) ++ quote key ++ layout.colon ++
      write layout (depth + 1) value ++ writeMembers layout (depth + 1) rest ++
      layout.newline depth ++ "\x7d"

/-- The further items of an array. -/
def writeItems (layout : Layout) (depth : Nat) : List Json → String
  | [] => ""
  | item :: rest =>
    "," ++ layout.newline depth ++ write layout depth item ++ writeItems layout depth rest

/-- The further members of an object. -/
def writeMembers (layout : Layout) (depth : Nat) : List (String × Json) → String
  | [] => ""
  | (key, value) :: rest =>
    "," ++ layout.newline depth ++ quote key ++ layout.colon ++ write layout depth value ++
      writeMembers layout depth rest

end

/-- A value on one line. -/
def compact (json : Json) : String := json.write .compact 0

/-- A value on several lines. -/
def pretty (json : Json) : String := json.write .pretty 0

end Json

end FrameEscape
