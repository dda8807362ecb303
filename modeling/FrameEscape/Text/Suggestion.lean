import FrameEscape.Text.EditDistance

/-!
# Suggestions

For a name that means nothing, the nearest name that means something is offered, if it is
near enough to be what was meant, and the names to choose from are listed.
-/

namespace FrameEscape

/-- How far away a candidate for a name of some length may be. -/
def typoLimit (length : Nat) : Nat :=
  if length ≤ 2 then 1 else if length ≤ 5 then 2 else 3

/-- The candidates that are near enough to a name, with their distances. Names of very
different lengths are not compared, as their distance is at least the difference. -/
def nearCandidates (name : String) (candidates : List String) : List (String × Nat) :=
  let limit := typoLimit name.length
  candidates.filterMap fun candidate =>
    if candidate.length ≤ name.length + limit ∧ name.length ≤ candidate.length + limit then
      let distance := editDistance name.toList candidate.toList
      if distance ≤ limit then some (candidate, distance) else none
    else none

/-- The first of the pairs with the least number. -/
def leastFirst : List (String × Nat) → Option (String × Nat)
  | [] => none
  | pair :: rest =>
    match leastFirst rest with
    | none => some pair
    | some best => if pair.2 ≤ best.2 then some pair else some best

/-- The nearest candidate for a name, the first of several, if it is near enough to be what
was meant. -/
def closest? (name : String) (candidates : List String) : Option String :=
  (leastFirst (nearCandidates name candidates)).map (·.1)

/-- A hint at the nearest candidate. -/
def didYouMean? (name : String) (candidates : List String) : Option String :=
  (closest? name candidates).map fun candidate => s!"did you mean `{candidate}`?"

/-- A list of the names to choose from, of which at most `limit` are shown. -/
def available? (what : String) (names : List String) (limit : Nat) : Option String :=
  if names.isEmpty then none
  else
    let shown := ", ".intercalate ((names.take limit).map fun name => s!"`{name}`")
    let more := names.length - limit
    if more = 0 then some s!"{what} available: {shown}"
    else some s!"{what} available: {shown} and {more} more"

end FrameEscape
