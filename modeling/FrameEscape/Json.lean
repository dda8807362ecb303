/-!
# JSON values

The members of an object are kept in order, and of several with one key the last one counts.
A number is whole, or has a mantissa and an exponent. A value is looked up by its key, by its
place, or as what stands under a tag.
-/

namespace FrameEscape

/-- A JSON value. -/
inductive Json where
  | null
  | bool (value : Bool)
  | int (value : Int)
  /-- The number `mantissa * 10 ^ exponent`, which was written with a fraction or an exponent,
  or as a negative zero. -/
  | decimal (mantissa exponent : Int)
  | str (value : String)
  | arr (items : List Json)
  | obj (members : List (String × Json))

namespace Json

/-- A natural number as a value. -/
def nat (n : Nat) : Json := int n

/-- A value or null. -/
def ofOption {α : Type} (toJson : α → Json) : Option α → Json
  | none => null
  | some a => toJson a

/-- The member of an object with this key, the last one if there are several. -/
def member? (json : Json) (key : String) : Option Json :=
  match json with
  | obj members => members.reverse.lookup key
  | _ => none

/-- The values of some fields: the members of an object with these keys, or the items of an
array that has one for each key, in the same order. -/
def fields? (json : Json) (keys : List String) : Option (List Json) :=
  match json with
  | obj _ => keys.mapM json.member?
  | arr items => if items.length = keys.length then some items else none
  | _ => none

/-- A tag and what stands under it: an object in which all members have one key, or a string,
which is a tag with null under it. -/
def tagged? (json : Json) : Option (String × Json) :=
  match json with
  | str tag => some (tag, null)
  | obj ((tag, _) :: rest) =>
    if rest.all (·.1 == tag) then (json.member? tag).map (tag, ·) else none
  | _ => none

/-- A tag with null under it. -/
def tag? (json : Json) : Option String :=
  match json.tagged? with
  | some (tag, null) => some tag
  | _ => none

/-- The text of a string. -/
def str? : Json → Option String
  | str value => some value
  | _ => none

/-- A number from zero up to a limit that is not reached. -/
def natBelow? (limit : Nat) : Json → Option Nat
  | int (.ofNat n) => if n < limit then some n else none
  | _ => none

/-- The truth value. -/
def bool? : Json → Option Bool
  | bool value => some value
  | _ => none

/-- The items of an array. -/
def arr? : Json → Option (List Json)
  | arr items => some items
  | _ => none

end Json

end FrameEscape
