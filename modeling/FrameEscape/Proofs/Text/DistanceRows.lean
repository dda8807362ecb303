import FrameEscape.Proofs.Text.EditDistance
import FrameEscape.Text.EditDistance
import Mathlib

/-!
# Two rows hold the edit distance

The edit distance is computed in two rows, each of which is filled from the other one. What a row
holds is said place by place, as far as it is filled, and nothing is said of the places behind:
there it may hold anything, zeros at first and distances of an earlier beginning later on.

* **`Filled`**: the first places of a row hold the distances of a word.
* **`filled_fillPlace`**: a step fills one more place. **`filled_fillRow`**: a run fills the row.
* **`filled_next`**: with one more letter, the rows take turns. **`filled_rows`**: in the end, the
  row that was filled last holds the distances of the whole first word.
* **`editDistance_is_least`**: the headline.
-/

namespace FrameEscape

/-! ## Loops -/

/-- What holds before a loop and is kept by each of its steps holds after it. -/
theorem fold_invariant {β : Type} {n : Nat} {step : (i : Nat) → i < n → β → β} {start : β}
    (P : Nat → β → Prop) (hstart : P 0 start)
    (hstep : ∀ i h state, P i state → P (i + 1) (step i h state)) : P n (n.fold step start) := by
  induction n with
  | zero => exact hstart
  | succ n ih =>
    rw [Nat.fold_succ]
    exact hstep n _ _ (ih fun i h state => hstep i (Nat.lt_succ_of_lt h) state)

/-! ## Rows -/

variable {α : Type} {word : Array α} {as : List α}

/-- As many places of the row as `count` hold the distances of a word from the beginnings of the
other word. -/
def Filled (as : List α) (word : Array α) (count : Nat) (row : DistanceRow word) : Prop :=
  ∀ j (h : j < word.size + 1), j < count → row[j] = distance as (word.toList.take j)

theorem take_succ_eq {j : Nat} (h : j < word.size) :
    word.toList.take (j + 1) = word.toList.take j ++ [word[j]] := by
  rw [List.take_succ_eq_append_getElem (by simpa using h)]
  rfl

variable [DecidableEq α]

/-- One step fills one more place: the place above it, the one to its left and the one above that
are filled. -/
theorem filled_fillPlace {a : α} {above row : DistanceRow word} {j : Nat} (hj : j < word.size)
    (habove : Filled as word (word.size + 1) above) (hrow : Filled (as ++ [a]) word (j + 1) row) :
    Filled (as ++ [a]) word (j + 2) (fillPlace word a above row j hj) := by
  intro k hk hlt
  rcases Nat.lt_succ_iff_lt_or_eq.1 hlt with hlt | rfl
  · -- A place that was filled before.
    have hne : j + 1 ≠ k := by omega
    rw [fillPlace, Vector.getElem_set_ne _ _ hne]
    exact hrow k hk hlt
  · have hdelete : above[j + 1] = distance as (word.toList.take j ++ [word[j]]) := by
      rw [habove (j + 1) hk hk, take_succ_eq hj]
    have hinsert : row[j] = distance (as ++ [a]) (word.toList.take j) :=
      hrow j (by omega) (by omega)
    have hreplace : above[j] = distance as (word.toList.take j) :=
      habove j (by omega) (by omega)
    rw [fillPlace, Vector.getElem_set_self, hdelete, hinsert, hreplace, take_succ_eq hj,
      distance_concat_concat]

/-- A run fills the whole row, whatever the row held before. -/
theorem filled_fillRow {a : α} {above : DistanceRow word} (row : DistanceRow word)
    (habove : Filled as word (word.size + 1) above) :
    Filled (as ++ [a]) word (word.size + 1) (fillRow word (as.length + 1) a above row) := by
  have hstart : Filled (as ++ [a]) word 1 (row.set 0 (as.length + 1)) := by
    intro j hj hlt
    obtain rfl : j = 0 := by omega
    rw [Vector.getElem_set_self, List.take_zero, distance_nil_right, List.length_append]
    rfl
  exact fold_invariant (fun j row => Filled (as ++ [a]) word (j + 1) row) hstart
    fun j hj _ hrow => filled_fillPlace hj habove hrow

theorem filled_start : Filled [] word (word.size + 1) (DistanceRows.start word).filled := by
  intro j hj _
  rw [distance_nil_left, List.length_take]
  simp [DistanceRows.start]
  omega

/-- One more letter: the spare row is filled from the row that was filled last. -/
theorem filled_next {rows : DistanceRows word} {i : Nat} (hi : i < as.length)
    (hrows : Filled (as.take i) word (word.size + 1) rows.filled) :
    Filled (as.take (i + 1)) word (word.size + 1) (rows.next (i + 1) as[i]).filled := by
  have hlength : (as.take i).length = i := List.length_take_of_le (Nat.le_of_lt hi)
  -- What the spare row holds, zeros or an earlier beginning, is of no matter.
  have hnext := filled_fillRow (a := as[i]) rows.spare hrows
  rwa [hlength, ← List.take_succ_eq_append_getElem hi] at hnext

/-- After all letters, the row that was filled last is that of the word that they make up. -/
theorem filled_rows (as : List α) (word : Array α) :
    Filled as word (word.size + 1) (as.length.fold (fun i _ rows => rows.next (i + 1) as[i])
      (DistanceRows.start word)).filled := by
  have hall := fold_invariant
    (fun i (rows : DistanceRows word) => Filled (as.take i) word (word.size + 1) rows.filled)
    filled_start fun _ hi _ hrows => filled_next hi hrows
  rwa [List.take_length] at hall

/-- The last place of the row is that of the whole word. -/
theorem editDistance_eq_distance (as bs : List α) : editDistance as bs = distance as bs := by
  have hlast := filled_rows as bs.toArray bs.toArray.size (Nat.lt_succ_self _) (Nat.lt_succ_self _)
  rw [editDistance, hlast]
  simp

/-! ## The headline -/

/-- **Two rows hold the edit distance.** What is computed for two texts is the least number of
characters to insert, delete or replace, one after the other, to turn one into the other. It follows
the recursion on the first characters, is zero for equal texts only, is the same in both directions,
and is no greater than by way of a third text. -/
theorem editDistance_is_least (a b : String) :
    IsLeast {n | Edits n a.toList b.toList} (editDistance a.toList b.toList) ∧
      editDistance a.toList b.toList = levenshtein a.toList b.toList ∧
      (editDistance a.toList b.toList = 0 ↔ a = b) ∧
      editDistance a.toList b.toList = editDistance b.toList a.toList ∧
      ∀ c : String, editDistance a.toList c.toList ≤
        editDistance a.toList b.toList + editDistance b.toList c.toList := by
  simp only [editDistance_eq_distance]
  refine ⟨isLeast_distance _ _, (levenshtein_eq_distance _ _).symm, ?_, distance_comm _ _,
    fun c => distance_triangle _ _ _⟩
  rw [distance_eq_zero_iff, String.toList_inj]

example : editDistance "kitten".toList "sitting".toList = 3 := by decide

example : editDistance "".toList "abc".toList = 3 := by decide

end FrameEscape
