/-!
# Edit distance

The edit distance of two words is the least number of single letters to insert, delete or
replace that turns one into the other. It is computed in two rows that take turns. One of them
holds the distances of a beginning of the first word from every beginning of the other word,
the shortest one first. From it the other row is filled, from the left, for the beginning that
is one letter longer, and what that row held before is written over.
-/

namespace FrameEscape

variable {α : Type} [DecidableEq α]

/-- A number for every beginning of a word. -/
abbrev DistanceRow (word : Array α) := Vector Nat (word.size + 1)

/-- Fill the place of a row that comes after place `j`. The row is that of a beginning which
ends in `a`, and the row above it that of the beginning without this letter. -/
def fillPlace (word : Array α) (a : α) (above row : DistanceRow word) (j : Nat)
    (h : j < word.size) : DistanceRow word :=
  let delete := above[j + 1] + 1
  let insert := row[j] + 1
  let replace := above[j] + if a = word[j] then 0 else 1
  row.set (j + 1) (min (min delete insert) replace)

/-- Fill a row from the left. From the empty beginning of the word, all `length` letters are
deleted. -/
def fillRow (word : Array α) (length : Nat) (a : α) (above row : DistanceRow word) :
    DistanceRow word :=
  word.size.fold (fun j h row => fillPlace word a above row j h) (row.set 0 length)

/-- Two rows that take turns. -/
structure DistanceRows (word : Array α) where
  /-- The row that was filled last. -/
  filled : DistanceRow word
  /-- The row to fill next, with what it held before. -/
  spare : DistanceRow word

namespace DistanceRows

/-- The rows for the empty beginning: every letter of the word is inserted. -/
def start (word : Array α) : DistanceRows word := ⟨.ofFn (·.val), .replicate _ 0⟩

/-- The rows for the beginning of `length` letters, of which the last is `a`. -/
def next {word : Array α} (rows : DistanceRows word) (length : Nat) (a : α) :
    DistanceRows word :=
  ⟨fillRow word length a rows.filled rows.spare, rows.filled⟩

end DistanceRows

/-- The least number of letters to insert, delete or replace. -/
def editDistance (as bs : List α) : Nat :=
  let word := bs.toArray
  let rows := as.length.fold (fun i _ rows => rows.next (i + 1) as[i]) (DistanceRows.start word)
  rows.filled[word.size]

end FrameEscape
