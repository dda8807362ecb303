import FrameEscape.Json

/-!
# Reading JSON

A text is read character by character. `Lexer` puts characters together to tokens, `Parser`
takes tokens and keeps the containers that are still open. Both are plain step functions, so
reading is one fold over the text.

Numbers have no leading zeros. Strings hold no bare control characters, and escapes of
surrogates come in pairs.
-/

namespace FrameEscape

namespace Json

/-! ## Tokens -/

/-- The smallest parts of a JSON text. -/
inductive Token where
  | openArray
  | closeArray
  | openObject
  | closeObject
  | comma
  | colon
  | str (value : String)
  /-- A number or one of the words `null`, `true` and `false`. -/
  | scalar (value : Json)

/-- The number that some decimal digits stand for. -/
def digitsValue (digits : List Char) : Nat :=
  digits.foldl (fun n c => 10 * n + (c.toNat - '0'.toNat)) 0

/-- Split off the digits at the start. -/
def spanDigits (cs : List Char) : List Char × List Char :=
  (cs.takeWhile Char.isDigit, cs.dropWhile Char.isDigit)

/-- The digits of a fraction, which is a point and at least one digit, and the rest. -/
def fraction? : List Char → Option (List Char × List Char)
  | '.' :: rest =>
    let (digits, rest) := spanDigits rest
    if digits.isEmpty then none else some (digits, rest)
  | rest => some ([], rest)

/-- The value of an exponent that takes up all of the characters. -/
def exponent? : List Char → Option Int
  | [] => some 0
  | e :: rest =>
    if e = 'e' ∨ e = 'E' then
      let (negative, digits) := match rest with
        | '-' :: digits => (true, digits)
        | '+' :: digits => (false, digits)
        | digits => (false, digits)
      if digits.isEmpty || !digits.all Char.isDigit then none
      else
        let n : Int := digitsValue digits
        some (if negative then -n else n)
    else none

/-- A number without a sign: its whole digits, the digits of its fraction and its exponent,
if it has no needless zeros in front. -/
def unsignedNumber? (cs : List Char) : Option (List Char × List Char × Int) := do
  let (whole, rest) := spanDigits cs
  if whole.isEmpty || (whole.length ≠ 1 && whole.head? == some '0') then none
  else
    let (part, rest) ← fraction? rest
    some (whole, part, ← exponent? rest)

/-- The number that is written so. -/
def number? (word : List Char) : Option Json := do
  let (negative, unsigned) := match word with
    | '-' :: unsigned => (true, unsigned)
    | unsigned => (false, unsigned)
  let (whole, part, exponent) ← unsignedNumber? unsigned
  let mantissa : Int := digitsValue (whole ++ part)
  let signed := if negative then -mantissa else mantissa
  if unsigned.all Char.isDigit && !(negative && mantissa == 0) then some (int signed)
  else some (decimal signed (exponent - part.length))

/-- The value of a word. -/
def word? (word : List Char) : Option Json :=
  if word = ['n', 'u', 'l', 'l'] then some null
  else if word = ['t', 'r', 'u', 'e'] then some (bool true)
  else if word = ['f', 'a', 'l', 's', 'e'] then some (bool false)
  else number? word

/-! ## Parsing -/

/-- A container that is still open, with what is complete in it, the latest first. -/
inductive Container where
  | array (items : List Json)
  /-- An object in which the value of `key` is to come. -/
  | object (members : List (String × Json)) (key : String)

/-- What has been read, inside the open containers, and what may follow. -/
inductive Parser where
  /-- A value has to follow. -/
  | value (outer : List Container)
  /-- An array was opened. -/
  | arrayStart (outer : List Container)
  /-- An object was opened. -/
  | objectStart (outer : List Container)
  /-- A key has to follow. -/
  | key (outer : List Container) (members : List (String × Json))
  /-- A colon has to follow. -/
  | colon (outer : List Container) (members : List (String × Json)) (key : String)
  /-- A value is complete. -/
  | complete (outer : List Container) (value : Json)

namespace Parser

/-- Take a token where a value has to follow. -/
def stepValue (outer : List Container) : Token → Option Parser
  | .scalar v => some (complete outer v)
  | .str s => some (complete outer (.str s))
  | .openArray => some (arrayStart outer)
  | .openObject => some (objectStart outer)
  | _ => none

/-- Take a token after a complete value. -/
def stepComplete (outer : List Container) (v : Json) (token : Token) : Option Parser :=
  match outer, token with
  | .array items :: outer, .comma => some (value (.array (v :: items) :: outer))
  | .array items :: outer, .closeArray => some (complete outer (.arr (v :: items).reverse))
  | .object members k :: outer, .comma => some (key outer ((k, v) :: members))
  | .object members k :: outer, .closeObject =>
    some (complete outer (.obj ((k, v) :: members).reverse))
  | _, _ => none

/-- Take a token. -/
def step : Parser → Token → Option Parser
  | value outer, token => stepValue outer token
  | arrayStart outer, .closeArray => some (complete outer (.arr []))
  | arrayStart outer, token => stepValue (.array [] :: outer) token
  | objectStart outer, .closeObject => some (complete outer (.obj []))
  | objectStart outer, .str k => some (colon outer [] k)
  | key outer members, .str k => some (colon outer members k)
  | colon outer members k, .colon => some (value (.object members k :: outer))
  | complete outer v, token => stepComplete outer v token
  | _, _ => none

/-- The value that has been read, if nothing is open. -/
def result? : Parser → Option Json
  | complete [] v => some v
  | _ => none

end Parser

/-! ## Lexing -/

/-- What the characters since the last token are the start of. The characters of strings and
words are kept in reverse. -/
inductive Lexer where
  /-- Of nothing. -/
  | between
  /-- Of a number or a bare word. -/
  | word (letters : List Char)
  /-- Of a string. -/
  | text (letters : List Char)
  /-- Of a string, with a backslash last. `high` is the first of a pair of surrogates. -/
  | escape (letters : List Char) (high : Option Nat)
  /-- Of a string, with `\u` and all but `left + 1` of its digits last. -/
  | unicode (letters : List Char) (high : Option Nat) (value left : Nat)
  /-- Of a string, with the first of a pair of surrogates last. -/
  | surrogate (letters : List Char) (high : Nat)

namespace Lexer

/-- The value of a hexadecimal digit. -/
def hexValue? (c : Char) : Option Nat :=
  if c.isDigit then some (c.toNat - '0'.toNat)
  else if 'a' ≤ c ∧ c ≤ 'f' then some (c.toNat - 'a'.toNat + 10)
  else if 'A' ≤ c ∧ c ≤ 'F' then some (c.toNat - 'A'.toNat + 10)
  else none

/-- The character that a letter after a backslash stands for. -/
def shortEscape? : Char → Option Char
  | '"' => some '"'
  | '\\' => some '\\'
  | '/' => some '/'
  | 'b' => some '\x08'
  | 'f' => some '\x0c'
  | 'n' => some '\n'
  | 'r' => some '\r'
  | 't' => some '\t'
  | _ => none

/-- Go on after the four digits of an escape. -/
def endUnicode (letters : List Char) (high : Option Nat) (value : Nat) : Option Lexer :=
  match high with
  | some high =>
    if 0xDC00 ≤ value ∧ value < 0xE000 then
      some (text (Char.ofNat (0x10000 + (high - 0xD800) * 0x400 + (value - 0xDC00)) :: letters))
    else none
  | none =>
    if 0xD800 ≤ value ∧ value < 0xDC00 then some (surrogate letters value)
    else if 0xDC00 ≤ value ∧ value < 0xE000 then none
    else some (text (Char.ofNat value :: letters))

/-- Take a character that does not go on with a word. -/
def stepBetween (c : Char) : Option (Lexer × List Token) :=
  match c with
  | ' ' | '\t' | '\n' | '\r' => some (between, [])
  | '[' => some (between, [.openArray])
  | ']' => some (between, [.closeArray])
  | '\x7b' => some (between, [.openObject])
  | '\x7d' => some (between, [.closeObject])
  | ',' => some (between, [.comma])
  | ':' => some (between, [.colon])
  | '"' => some (text [], [])
  | _ => none

/-- Whether a character may be part of a number or a bare word. -/
def isWordChar (c : Char) : Bool := c.isAlphanum || c == '-' || c == '+' || c == '.'

/-- Take a character, with the tokens that it completes. -/
def step (lexer : Lexer) (c : Char) : Option (Lexer × List Token) :=
  match lexer with
  | between => if isWordChar c then some (word [c], []) else stepBetween c
  | word letters =>
    if isWordChar c then some (word (c :: letters), [])
    else do
      let v ← word? letters.reverse
      let (next, tokens) ← stepBetween c
      some (next, .scalar v :: tokens)
  | text letters =>
    if c = '"' then some (between, [.str (String.ofList letters.reverse)])
    else if c = '\\' then some (escape letters none, [])
    else if c.toNat < 0x20 then none
    else some (text (c :: letters), [])
  | escape letters high =>
    if c = 'u' then some (unicode letters high 0 3, [])
    else if high.isSome then none
    else (shortEscape? c).map fun c => (text (c :: letters), [])
  | unicode letters high value left => do
    let digit ← hexValue? c
    let value := 16 * value + digit
    match left with
    | 0 => (endUnicode letters high value).map (·, [])
    | left + 1 => some (unicode letters high value left, [])
  | surrogate letters high => if c = '\\' then some (escape letters (some high), []) else none

/-- The tokens that the end of the text completes. -/
def finish? : Lexer → Option (List Token)
  | between => some []
  | word letters => (word? letters.reverse).map fun v => [.scalar v]
  | _ => none

end Lexer

/-! ## Both together -/

/-- What has been read of a text. -/
structure Reader where
  lexer : Lexer
  parser : Parser

namespace Reader

/-- Nothing has been read. -/
def start : Reader := ⟨.between, .value []⟩

/-- Take a character. -/
def step (reader : Reader) (c : Char) : Option Reader := do
  let (lexer, tokens) ← reader.lexer.step c
  let parser ← tokens.foldlM Parser.step reader.parser
  some ⟨lexer, parser⟩

/-- The value that has been read. -/
def result? (reader : Reader) : Option Json := do
  let tokens ← reader.lexer.finish?
  let parser ← tokens.foldlM Parser.step reader.parser
  parser.result?

end Reader

/-- The value that a text stands for, if it is JSON. -/
def ofText? (text : String) : Option Json := do
  let reader ← text.toList.foldlM Reader.step Reader.start
  reader.result?

end Json

end FrameEscape
