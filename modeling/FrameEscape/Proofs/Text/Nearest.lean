import FrameEscape.Proofs.Text.DistanceRows
import FrameEscape.Text.Suggestion

/-!
# The nearest name is the first of the nearest

The candidate that is suggested for a name is the first of those at the least edit distance, if that
is within the limit for the length of the name. Names that are not compared because of their lengths
would not have been near enough (`nearCandidates_eq`).
-/

namespace FrameEscape

/-! ## The first of the least -/

section FirstLeast

variable {α : Type} {f : α → Nat} {items : List α} {first a : α}

/-- No item before this one is as low, and none after it is lower. -/
def FirstLeast (f : α → Nat) (items : List α) (a : α) : Prop :=
  ∃ front back, items = front ++ a :: back ∧ (∀ other ∈ front, f a < f other) ∧
    ∀ other ∈ back, f a ≤ f other

theorem not_firstLeast_nil : ¬ FirstLeast f [] a := by
  rintro ⟨front, back, heq, -⟩
  simp at heq

theorem firstLeast_cons_iff :
    FirstLeast f (first :: items) a ↔
      (a = first ∧ ∀ other ∈ items, f first ≤ f other) ∨
        (f a < f first ∧ FirstLeast f items a) := by
  constructor
  · rintro ⟨front, back, heq, hfront, hback⟩
    rcases List.cons_eq_append_iff.1 heq with ⟨rfl, hcons⟩ | ⟨front', rfl, hitems⟩
    · cases hcons
      exact .inl ⟨rfl, hback⟩
    · refine .inr ⟨hfront first List.mem_cons_self, front', back, hitems, ?_, hback⟩
      exact fun other hother => hfront other (List.mem_cons_of_mem _ hother)
  · rintro (⟨rfl, hitems⟩ | ⟨hlt, front, back, rfl, hfront, hback⟩)
    · exact ⟨[], items, rfl, by simp, hitems⟩
    · exact ⟨first :: front, back, rfl, List.forall_mem_cons.2 ⟨hlt, hfront⟩, hback⟩

theorem FirstLeast.mem (h : FirstLeast f items a) : a ∈ items := by
  obtain ⟨front, back, rfl, -, -⟩ := h
  exact List.mem_append_right front List.mem_cons_self

theorem FirstLeast.le {other : α} (h : FirstLeast f items a) (hother : other ∈ items) :
    f a ≤ f other := by
  obtain ⟨front, back, rfl, hfront, hback⟩ := h
  rcases List.mem_append.1 hother with hother | hother
  · exact Nat.le_of_lt (hfront other hother)
  · rcases List.mem_cons.1 hother with rfl | hother
    · exact Nat.le_refl _
    · exact hback other hother

/-- To leave out what is above a limit makes no difference to what is not. -/
theorem firstLeast_filter_iff {limit : Nat} :
    FirstLeast f (items.filter (f · ≤ limit)) a ↔ f a ≤ limit ∧ FirstLeast f items a := by
  induction items with
  | nil => exact iff_of_false not_firstLeast_nil fun h => not_firstLeast_nil h.2
  | cons first items ih =>
    by_cases hfirst : f first ≤ limit
    · rw [List.filter_cons_of_pos (by simpa using hfirst), firstLeast_cons_iff, ih,
        firstLeast_cons_iff]
      constructor
      · rintro (⟨rfl, hnear⟩ | ⟨hlt, hle, hitems⟩)
        · refine ⟨hfirst, .inl ⟨rfl, fun other hother => ?_⟩⟩
          by_cases hlimit : f other ≤ limit
          · exact hnear other (List.mem_filter.2 ⟨hother, by simpa using hlimit⟩)
          · omega
        · exact ⟨hle, .inr ⟨hlt, hitems⟩⟩
      · rintro ⟨hle, ⟨rfl, hall⟩ | ⟨hlt, hitems⟩⟩
        · exact .inl ⟨rfl, fun other hother => hall other (List.mem_filter.1 hother).1⟩
        · exact .inr ⟨hlt, hle, hitems⟩
    · rw [List.filter_cons_of_neg (by simpa using hfirst), ih, firstLeast_cons_iff]
      constructor
      · rintro ⟨hle, hitems⟩
        exact ⟨hle, .inr ⟨by omega, hitems⟩⟩
      · rintro ⟨hle, ⟨rfl, -⟩ | ⟨-, hitems⟩⟩
        · exact absurd hle hfirst
        · exact ⟨hle, hitems⟩

end FirstLeast

/-! ## The scan of the candidates -/

theorem leastFirst_eq_none_iff {pairs : List (String × Nat)} :
    leastFirst pairs = none ↔ pairs = [] := by
  cases pairs with
  | nil => simp [leastFirst]
  | cons pair rest =>
    rw [leastFirst]
    split
    · simp
    · split <;> simp

/-- The scan finds the first of the items with the least number. Induction on the items: the first
one gives way to the best of the others only if that is lower. -/
theorem leastFirst_eq_some_iff {f : String → Nat} {items : List String} {item : String}
    {number : Nat} :
    leastFirst (items.map fun item => (item, f item)) = some (item, number) ↔
      FirstLeast f items item ∧ number = f item := by
  induction items generalizing item number with
  | nil => exact iff_of_false (by simp [leastFirst]) fun h => not_firstLeast_nil h.1
  | cons first items ih =>
    rw [List.map_cons, leastFirst, firstLeast_cons_iff]
    cases hrest : leastFirst (items.map fun item => (item, f item)) with
    | none =>
      have hnil : items = [] := List.map_eq_nil_iff.1 (leastFirst_eq_none_iff.1 hrest)
      subst hnil
      constructor
      · rintro ⟨⟩
        exact ⟨.inl ⟨rfl, by simp⟩, rfl⟩
      · rintro ⟨⟨rfl, -⟩ | ⟨-, hitems⟩, rfl⟩
        · rfl
        · exact absurd hitems not_firstLeast_nil
    | some best =>
      obtain ⟨best, least⟩ := best
      obtain ⟨hbest, rfl⟩ := ih.1 hrest
      simp only
      split
      next hle =>
        constructor
        · rintro ⟨⟩
          exact ⟨.inl ⟨rfl, fun other hother => Nat.le_trans hle (hbest.le hother)⟩, rfl⟩
        · rintro ⟨⟨rfl, -⟩ | ⟨hlt, hitems⟩, rfl⟩
          · rfl
          · have hother := hbest.le hitems.mem
            omega
      next hlt =>
        constructor
        · rintro ⟨⟩
          exact ⟨.inr ⟨Nat.lt_of_not_le hlt, hbest⟩, rfl⟩
        · rintro ⟨⟨rfl, hall⟩ | ⟨-, hitems⟩, rfl⟩
          · exact absurd (hall best hbest.mem) hlt
          · exact hrest.symm.trans (ih.2 ⟨hitems, rfl⟩)

/-- The edit distance of two names, letter by letter. -/
noncomputable def nameDistance (name other : String) : Nat := distance name.toList other.toList

/-- Only candidates that are too far away are left out, those that are not compared among them. -/
theorem nearCandidates_eq (name : String) (candidates : List String) :
    nearCandidates name candidates =
      (candidates.filter (nameDistance name · ≤ typoLimit name.length)).map
        fun candidate => (candidate, nameDistance name candidate) := by
  rw [← List.filterMap_eq_filter, List.map_filterMap]
  refine List.filterMap_congr fun candidate _ => ?_
  obtain ⟨hname, hcandidate⟩ := length_le_distance name.toList candidate.toList
  rw [String.length_toList, String.length_toList] at hname hcandidate
  rw [editDistance_eq_distance, Option.guard, ← nameDistance]
  by_cases hnear : nameDistance name candidate ≤ typoLimit name.length
  · have hcompared : candidate.length ≤ name.length + typoLimit name.length ∧
        name.length ≤ candidate.length + typoLimit name.length := by
      rw [nameDistance] at hnear
      omega
    rw [if_pos hcompared]
    simp [hnear]
  · simp [hnear]

/-! ## The headline -/

/-- **The nearest name is the first of the nearest.** A name of at most two letters has candidates
at distance one, one of three to five letters at distance two, and a longer one at distance three.
There is no nearest candidate if and only if there is none so near; and a candidate is the nearest
one if and only if it is so near, all before it in the list are further away, and none after it is
nearer. Leaving out candidates by their lengths loses none that is near enough. -/
theorem closest_is_first_nearest (name : String) (candidates : List String) :
    let limit := if name.length ≤ 2 then 1 else if name.length ≤ 5 then 2 else 3
    (closest? name candidates = none ↔
        ∀ candidate ∈ candidates, limit < nameDistance name candidate) ∧
      (∀ candidate, closest? name candidates = some candidate ↔
        nameDistance name candidate ≤ limit ∧
          FirstLeast (nameDistance name) candidates candidate) ∧
      nearCandidates name candidates =
        (candidates.filter (nameDistance name · ≤ limit)).map
          fun candidate => (candidate, nameDistance name candidate) := by
  have hnear := nearCandidates_eq name candidates
  refine ⟨?_, fun candidate => ?_, hnear⟩
  · rw [← typoLimit, closest?, Option.map_eq_none_iff, leastFirst_eq_none_iff, hnear,
      List.map_eq_nil_iff, List.filter_eq_nil_iff]
    simp only [decide_eq_true_eq, Nat.not_le]
  · rw [← typoLimit, closest?, Option.map_eq_some_iff, hnear, ← firstLeast_filter_iff]
    constructor
    · rintro ⟨⟨item, number⟩, hleast, rfl⟩
      exact (leastFirst_eq_some_iff.1 hleast).1
    · intro hfirst
      exact ⟨(candidate, _), leastFirst_eq_some_iff.2 ⟨hfirst, rfl⟩, rfl⟩

example : closest? "sfae" ["notsafe", "safe", "span"] = some "safe" := by decide

example : closest? "spam" ["span", "spat"] = some "span" := by decide

end FrameEscape
