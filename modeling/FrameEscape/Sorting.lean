/-!
# Stable sorting

A list is sorted by putting its elements, from the last to the first, before the first
element that they may precede. So elements that may precede each other keep their order. The
main statements say that the result has the same elements, is in order, and keeps the order of
elements that may all precede each other.
-/

namespace FrameEscape

/-- Put an element before the first one that it may precede. -/
def insertSorted {α : Type} (le : α → α → Bool) (a : α) : List α → List α
  | [] => [a]
  | b :: rest => if le a b then a :: b :: rest else b :: insertSorted le a rest

/-- Sort by inserting from the right, so that equal elements keep their order. -/
def sortBy {α : Type} (le : α → α → Bool) (as : List α) : List α :=
  as.foldr (insertSorted le) []

variable {α : Type} {le : α → α → Bool}

theorem insertSorted_perm (a : α) (bs : List α) : (insertSorted le a bs).Perm (a :: bs) := by
  induction bs with
  | nil => exact .refl _
  | cons b rest ih =>
    unfold insertSorted
    split
    · exact .refl _
    · exact (ih.cons b).trans (.swap a b rest)

theorem sortBy_perm (as : List α) : (sortBy le as).Perm as := by
  induction as with
  | nil => exact .refl _
  | cons a rest ih => exact (insertSorted_perm a _).trans (ih.cons a)

theorem pairwise_insertSorted (total : ∀ a b, le a b = false → le b a = true)
    (trans : ∀ a b c, le a b = true → le b c = true → le a c = true) (a : α) {bs : List α}
    (sorted : bs.Pairwise (le · ·)) : (insertSorted le a bs).Pairwise (le · ·) := by
  induction bs with
  | nil => exact List.pairwise_singleton _ _
  | cons b rest ih =>
    obtain ⟨head, tail⟩ := List.pairwise_cons.1 sorted
    unfold insertSorted
    split
    next before =>
      refine List.pairwise_cons.2 ⟨fun c hc => ?_, sorted⟩
      rcases List.mem_cons.1 hc with rfl | hc
      · exact before
      · exact trans _ _ _ before (head c hc)
    next after =>
      refine List.pairwise_cons.2 ⟨fun c hc => ?_, ih tail⟩
      rcases List.mem_cons.1 ((insertSorted_perm a rest).mem_iff.1 hc) with rfl | hc
      · exact total _ _ (Bool.eq_false_iff.2 after)
      · exact head c hc

theorem pairwise_sortBy (total : ∀ a b, le a b = false → le b a = true)
    (trans : ∀ a b c, le a b = true → le b c = true → le a c = true) (as : List α) :
    (sortBy le as).Pairwise (le · ·) := by
  induction as with
  | nil => exact .nil
  | cons a rest ih => exact pairwise_insertSorted total trans a ih

/-- Among elements that may all precede each other, the one that is put in comes first: it does
not get past any of them. -/
theorem filter_insertSorted {p : α → Bool} (h : ∀ a b, p a = true → p b = true → le a b = true)
    (a : α) (bs : List α) : (insertSorted le a bs).filter p = (a :: bs).filter p := by
  induction bs with
  | nil => rfl
  | cons b rest ih =>
    unfold insertSorted
    split
    · rfl
    next after =>
      rw [List.filter_cons, ih]
      cases ha : p a with
      | false => simp only [List.filter_cons, ha]; rfl
      | true =>
        -- The sort went past `b`, so that is none of them.
        have hb : p b = false := by
          apply Bool.eq_false_iff.2
          intro hb
          exact after (h a b ha hb)
        simp only [List.filter_cons, ha, hb]
        rfl

theorem filter_sortBy {p : α → Bool} (h : ∀ a b, p a = true → p b = true → le a b = true)
    (as : List α) : (sortBy le as).filter p = as.filter p := by
  induction as with
  | nil => rfl
  | cons a rest ih =>
    show (insertSorted le a (sortBy le rest)).filter p = _
    rw [filter_insertSorted h, List.filter_cons, ih, List.filter_cons]

end FrameEscape
