import FrameEscape.Json.Reader

/-!
# Limits on JSON

A request may be nested to a certain depth only, and its numbers have to be finite in double
precision. A number counts as the product of its first digits and a power of ten, both of which
are rounded first, so that the greatest finite number is not quite that of exact rounding.
-/

namespace FrameEscape

namespace Json

/-! ## Range of numbers -/

/-- Round to 53 significant bits, a tie to the even neighbour. -/
def roundToDouble (n : Nat) : Nat :=
  let unit := Nat.pow 2 (n.log2 + 1 - 53)
  let below := n / unit
  let rest := n % unit
  if unit < 2 * rest ∨ (2 * rest = unit ∧ below % 2 = 1) then (below + 1) * unit
  else below * unit

/-- Whether `word * 10 ^ exponent` is finite when both factors and the product are rounded.
A product from `2 ^ 1024 - 2 ^ 970` on is rounded to `2 ^ 1024`, and no power of ten above
`10 ^ 308` is finite. -/
def isFiniteProduct (word : Nat) (exponent : Int) : Bool :=
  word == 0 || exponent < 0 ||
    (exponent ≤ 308 &&
      roundToDouble word * roundToDouble (Nat.pow 10 exponent.toNat) <
        Nat.pow 2 1024 - Nat.pow 2 970)

/-- Whether `mantissa * 10 ^ exponent` is in range. Only the first digits of a mantissa count,
as many as fit a 64-bit word. -/
def inDoubleRange (mantissa : Nat) (exponent : Int) : Bool :=
  if mantissa < UInt64.size then isFiniteProduct mantissa exponent
  else inDoubleRange (mantissa / 10) (exponent + 1)
termination_by mantissa
decreasing_by
  have positive : 0 < UInt64.size := by decide
  omega

/-! ## Both limits -/

/-- Whether a value is nested to this depth at most and all its numbers are in range. -/
def isWithin : Nat → Json → Bool
  | _, int n => inDoubleRange n.natAbs 0
  | _, decimal mantissa exponent => inDoubleRange mantissa.natAbs exponent
  | depth + 1, arr items => items.all (isWithin depth)
  | depth + 1, obj members => members.all fun (_, value) => isWithin depth value
  | 0, arr _ | 0, obj _ => false
  | _, _ => true

/-- How many containers a value of a request may be in. -/
def maxNesting : Nat := 127

/-- The request that a text stands for, if it is JSON within the limits. -/
def requestOfText? (text : String) : Option Json := (ofText? text).filter (isWithin maxNesting)

end Json

end FrameEscape
