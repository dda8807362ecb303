import FrameEscape.Sorting

/-!
# Sorted lists of names

Names are compared by code point, which is also the order of their UTF-8 bytes. Lists that
a message shows are sorted: `Names.sort` keeps repeated names, `Names.union` keeps one of
each. The main statements say that the result is sorted and holds the names it should.
-/

namespace FrameEscape

namespace Names

/-- Names in order, repeated ones as often as they were given. -/
def sort (names : List String) : List String := sortBy (fun a b => decide (a ≤ b)) names

/-- Put a name into a strictly increasing list, unless it is there. -/
def insert (name : String) : List String → List String
  | [] => [name]
  | n :: rest =>
    if name < n then name :: n :: rest
    else if name = n then n :: rest
    else n :: insert name rest

/-- A strictly increasing list together with some more names. -/
def union (more names : List String) : List String := more.foldr insert names

theorem lt_of_not_lt_of_ne {a b : String} (h : ¬ a < b) (ne : a ≠ b) : b < a := by
  apply Classical.byContradiction
  intro h'
  exact ne (String.le_antisymm (String.not_lt.1 h') (String.not_lt.1 h))

theorem sort_perm (names : List String) : (sort names).Perm names := sortBy_perm names

theorem sort_sorted (names : List String) : (sort names).Pairwise (· ≤ ·) := by
  refine (pairwise_sortBy ?_ ?_ names).imp (fun h => of_decide_eq_true h)
  · intro a b h
    exact decide_eq_true ((String.le_total a b).resolve_left (of_decide_eq_false h))
  · intro a b c hab hbc
    exact decide_eq_true (String.le_trans (of_decide_eq_true hab) (of_decide_eq_true hbc))

@[simp] theorem mem_insert {a name : String} {names : List String} :
    a ∈ insert name names ↔ a = name ∨ a ∈ names := by
  induction names with
  | nil => simp [insert]
  | cons n rest ih =>
    unfold insert
    split
    · simp
    · split
      next eq => simp [eq]
      · simp only [List.mem_cons, ih]
        exact or_left_comm

theorem insert_sorted (name : String) {names : List String} (sorted : names.Pairwise (· < ·)) :
    (insert name names).Pairwise (· < ·) := by
  induction names with
  | nil => exact List.pairwise_singleton _ _
  | cons n rest ih =>
    obtain ⟨head, tail⟩ := List.pairwise_cons.1 sorted
    unfold insert
    split
    next before =>
      refine List.pairwise_cons.2 ⟨fun c hc => ?_, sorted⟩
      rcases List.mem_cons.1 hc with rfl | hc
      · exact before
      · exact String.lt_trans before (head c hc)
    next notBefore =>
      split
      · exact sorted
      next ne =>
        refine List.pairwise_cons.2 ⟨fun c hc => ?_, ih tail⟩
        rcases mem_insert.1 hc with rfl | hc
        · exact lt_of_not_lt_of_ne notBefore ne
        · exact head c hc

@[simp] theorem mem_union {a : String} {more names : List String} :
    a ∈ union more names ↔ a ∈ more ∨ a ∈ names := by
  induction more with
  | nil => simp [union]
  | cons m rest ih =>
    rw [union, List.foldr_cons, mem_insert, ← union, ih, List.mem_cons, or_assoc]

theorem union_sorted (more : List String) {names : List String}
    (sorted : names.Pairwise (· < ·)) : (union more names).Pairwise (· < ·) := by
  induction more with
  | nil => exact sorted
  | cons m rest ih => exact insert_sorted m ih

end Names

end FrameEscape
