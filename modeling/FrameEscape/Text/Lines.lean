/-!
# Lines of a text

Offsets into a text count the bytes of its UTF-8 form. A line index holds the offsets at
which lines begin, the first line at zero and each other one after a newline. It turns an
offset into a line and a column, both counted from one, and cuts a line out of a text.
-/

namespace FrameEscape

/-- The characters from a byte offset on, unless a character straddles it. -/
def dropBytes : Nat → List Char → Option (List Char)
  | 0, cs => some cs
  | _ + 1, [] => none
  | n + 1, c :: cs => if c.utf8Size ≤ n + 1 then dropBytes (n + 1 - c.utf8Size) cs else none

/-- The characters up to a byte offset, unless a character straddles it. -/
def takeBytes : Nat → List Char → Option (List Char)
  | 0, _ => some []
  | _ + 1, [] => none
  | n + 1, c :: cs =>
    if c.utf8Size ≤ n + 1 then (takeBytes (n + 1 - c.utf8Size) cs).map (c :: ·) else none

/-- The part of a text between two byte offsets. There is none if the offsets lie outside
the text, are out of order or fall inside a character. -/
def bytesBetween? (text : String) (start stop : Nat) : Option String :=
  if start ≤ stop then
    ((dropBytes start text.toList).bind (takeBytes (stop - start))).map String.ofList
  else none

/-- The byte offsets after each newline, for characters that begin at `offset`. -/
def newlineEnds (offset : Nat) : List Char → List Nat
  | [] => []
  | c :: cs =>
    let next := offset + c.utf8Size
    if c = '\n' then next :: newlineEnds next cs else newlineEnds next cs

/-- Where the lines of a text begin, and where it ends. -/
structure LineIndex where
  starts : List Nat
  stop : Nat

namespace LineIndex

/-- The line index of a text. -/
def ofText (text : String) : LineIndex := ⟨0 :: newlineEnds 0 text.toList, text.utf8ByteSize⟩

/-- The number of lines. A newline at the end begins one more. -/
def lineCount (index : LineIndex) : Nat := index.starts.length

/-- The offset in the text that an offset stands for: those past the end mean the end. -/
def clamp (index : LineIndex) (offset : Nat) : Nat := min offset index.stop

/-- The line of an offset: as many lines begin at or before it. -/
def lineOf (index : LineIndex) (offset : Nat) : Nat :=
  index.starts.countP (· ≤ index.clamp offset)

/-- The offset at which a line begins. -/
def startOf (index : LineIndex) (line : Nat) : Nat := index.starts.getD (line - 1) 0

/-- The column of an offset in its line. -/
def columnOf (index : LineIndex) (offset : Nat) : Nat :=
  index.clamp offset - index.startOf (index.lineOf offset) + 1

/-- The line and the column of an offset. -/
def locate (index : LineIndex) (offset : Nat) : Nat × Nat :=
  (index.lineOf offset, index.columnOf offset)

/-- A line of a text, without its newline. The text need not be the one that was indexed;
there is no such line if it cannot be cut out. -/
def line? (index : LineIndex) (text : String) (line : Nat) : Option String :=
  if line = 0 then none
  else
    (index.starts[line - 1]?).bind fun start =>
      bytesBetween? text start
        (match index.starts[line]? with
        | some next => next - 1
        | none => text.utf8ByteSize)

end LineIndex

end FrameEscape
