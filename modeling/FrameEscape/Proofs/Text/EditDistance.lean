import Mathlib

/-!
# The edit distance of two words

The distance between two words is the least length of a chain of single edits, each of which
inserts, deletes or replaces one letter somewhere.

* **`levenshtein`**: the recursion that looks at the first letters of the two words only.
* **`edits_levenshtein`**: there is a chain of that length.
* **`Edits.levenshtein_le`**: there is none that is shorter, as a single edit changes what the
  recursion yields by one at most.
* **`distance_triangle`**, **`distance_comm`**, **`distance_eq_zero_iff`**: the distance is a
  metric, as chains can be put together and read backwards.
* **`distance_concat_concat`**: the recursion on the last letters, as chains can be mirrored.
-/

namespace FrameEscape

/-! ## Single edits -/

section Edits

variable {α : Type}

/-- One letter is inserted, deleted or replaced. -/
inductive Edit : List α → List α → Prop where
  | insert (front back : List α) (a : α) : Edit (front ++ back) (front ++ a :: back)
  | delete (front back : List α) (a : α) : Edit (front ++ a :: back) (front ++ back)
  | replace (front back : List α) (a b : α) : Edit (front ++ a :: back) (front ++ b :: back)

/-- A chain of `n` edits turns one word into the other. -/
inductive Edits : Nat → List α → List α → Prop where
  | refl (as : List α) : Edits 0 as as
  | step {n : Nat} {as bs cs : List α} (first : Edit as bs) (rest : Edits n bs cs) :
      Edits (n + 1) as cs

/-- The edit distance: the least number of letters to insert, delete or replace, one after the
other, to turn one word into the other. -/
noncomputable def distance (as bs : List α) : Nat := sInf {n | Edits n as bs}

variable {n : Nat} {as bs : List α}

theorem Edit.cons (a : α) (h : Edit as bs) : Edit (a :: as) (a :: bs) := by
  cases h with
  | insert front back b => exact .insert (a :: front) back b
  | delete front back b => exact .delete (a :: front) back b
  | replace front back b c => exact .replace (a :: front) back b c

theorem Edits.cons (a : α) (h : Edits n as bs) : Edits n (a :: as) (a :: bs) := by
  induction h with
  | refl as => exact .refl _
  | step first _ ih => exact .step (first.cons a) ih

/-- An edit changes the length by one at most. -/
theorem Edit.length_le (h : Edit as bs) :
    as.length ≤ bs.length + 1 ∧ bs.length ≤ as.length + 1 := by
  cases h <;> simp only [List.length_append, List.length_cons] <;> omega

theorem Edits.length_le (h : Edits n as bs) :
    as.length ≤ bs.length + n ∧ bs.length ≤ as.length + n := by
  induction h with
  | refl as => exact ⟨Nat.le_refl _, Nat.le_refl _⟩
  | step first _ ih =>
    have hfirst := first.length_le
    omega

/-- An edit can be undone. -/
theorem Edit.symm (h : Edit as bs) : Edit bs as := by
  cases h with
  | insert front back a => exact .delete front back a
  | delete front back a => exact .insert front back a
  | replace front back a b => exact .replace front back b a

/-- An edit of the mirrored words. -/
theorem Edit.reverse (h : Edit as bs) : Edit as.reverse bs.reverse := by
  cases h with
  | insert front back a => simpa using Edit.insert back.reverse front.reverse a
  | delete front back a => simpa using Edit.delete back.reverse front.reverse a
  | replace front back a b => simpa using Edit.replace back.reverse front.reverse a b

theorem Edits.trans {m : Nat} {cs : List α} (h : Edits m as bs) (h' : Edits n bs cs) :
    Edits (m + n) as cs := by
  induction h with
  | refl as => rwa [Nat.zero_add]
  | step first _ ih =>
    rw [Nat.succ_add]
    exact .step first (ih h')

theorem Edits.symm (h : Edits n as bs) : Edits n bs as := by
  induction h with
  | refl as => exact .refl as
  | step first _ ih => exact ih.trans (.step first.symm (.refl _))

theorem Edits.reverse (h : Edits n as bs) : Edits n as.reverse bs.reverse := by
  induction h with
  | refl as => exact .refl _
  | step first _ ih => exact .step first.reverse ih

end Edits

/-! ## The recursion -/

variable {α : Type} [DecidableEq α]

/-- The first letter of the first word is deleted, that of the other word is inserted, or one is
kept or replaced by the other. -/
def levenshtein : List α → List α → Nat
  | [], bs => bs.length
  | as, [] => as.length
  | a :: as, b :: bs =>
    min (min (levenshtein as (b :: bs) + 1) (levenshtein (a :: as) bs + 1))
      (levenshtein as bs + if a = b then 0 else 1)
termination_by as bs => as.length + bs.length

theorem levenshtein_nil_left (bs : List α) : levenshtein [] bs = bs.length := by
  rw [levenshtein]

theorem levenshtein_nil_right (as : List α) : levenshtein as [] = as.length := by
  cases as with
  | nil => rw [levenshtein]
  | cons a as =>
    rw [levenshtein]
    exact List.cons_ne_nil a as

theorem levenshtein_cons_cons (a : α) (as : List α) (b : α) (bs : List α) :
    levenshtein (a :: as) (b :: bs) =
      min (min (levenshtein as (b :: bs) + 1) (levenshtein (a :: as) bs + 1))
        (levenshtein as bs + if a = b then 0 else 1) := by
  rw [levenshtein]

/-! ## There is a chain of that length -/

/-- Induction along the recursion: each of its three choices is the first edit of a chain, or keeps
the letter. -/
theorem edits_levenshtein (as bs : List α) : Edits (levenshtein as bs) as bs := by
  induction as generalizing bs with
  | nil =>
    rw [levenshtein_nil_left]
    induction bs with
    | nil => exact .refl []
    | cons b bs ih => exact .step (.insert [] [] b) (ih.cons b)
  | cons a as iha =>
    induction bs with
    | nil =>
      have hrest := iha []
      rw [levenshtein_nil_right] at hrest ⊢
      exact .step (.delete [] as a) hrest
    | cons b bs ihb =>
      have hdelete : Edits (levenshtein as (b :: bs) + 1) (a :: as) (b :: bs) :=
        .step (.delete [] as a) (iha (b :: bs))
      have hinsert : Edits (levenshtein (a :: as) bs + 1) (a :: as) (b :: bs) :=
        .step (.insert [] (a :: as) b) (ihb.cons b)
      have hreplace : Edits (levenshtein as bs + if a = b then 0 else 1) (a :: as) (b :: bs) := by
        split
        next heq => exact heq ▸ (iha bs).cons a
        · exact .step (.replace [] as a b) ((iha bs).cons b)
      rw [levenshtein_cons_cons]
      let Reaches (n : Nat) : Prop := Edits n (a :: as) (b :: bs)
      exact min_rec' Reaches (min_rec' Reaches hdelete hinsert) hreplace

/-! ## No chain is shorter -/

theorem levenshtein_cons_right_le (as : List α) (b : α) (bs : List α) :
    levenshtein as (b :: bs) ≤ levenshtein as bs + 1 := by
  cases as with
  | nil => simp [levenshtein_nil_left]
  | cons a as =>
    rw [levenshtein_cons_cons]
    omega

theorem levenshtein_cons_left_le (a : α) (as bs : List α) :
    levenshtein (a :: as) bs ≤ levenshtein as bs + 1 := by
  cases bs with
  | nil => simp [levenshtein_nil_right]
  | cons b bs =>
    rw [levenshtein_cons_cons]
    omega

theorem levenshtein_le_cons_left (a : α) (as bs : List α) :
    levenshtein as bs ≤ levenshtein (a :: as) bs + 1 := by
  induction bs with
  | nil =>
    rw [levenshtein_nil_right, levenshtein_nil_right, List.length_cons]
    omega
  | cons b bs ih =>
    have hinsert := levenshtein_cons_right_le as b bs
    rw [levenshtein_cons_cons]
    omega

/-- What is one edit apart stays so behind a letter in front. -/
theorem levenshtein_cons_le_of_le {as as' : List α}
    (h : ∀ bs, levenshtein as bs ≤ levenshtein as' bs + 1) (a : α) (bs : List α) :
    levenshtein (a :: as) bs ≤ levenshtein (a :: as') bs + 1 := by
  induction bs with
  | nil =>
    have hnil := h []
    rw [levenshtein_nil_right, levenshtein_nil_right] at hnil ⊢
    rw [List.length_cons, List.length_cons]
    omega
  | cons b bs ih =>
    have hcons := h (b :: bs)
    have hrest := h bs
    rw [levenshtein_cons_cons, levenshtein_cons_cons]
    omega

theorem levenshtein_replace_le (a b : α) (as cs : List α) :
    levenshtein (a :: as) cs ≤ levenshtein (b :: as) cs + 1 := by
  induction cs with
  | nil =>
    rw [levenshtein_nil_right, levenshtein_nil_right, List.length_cons, List.length_cons]
    omega
  | cons c cs ih =>
    rw [levenshtein_cons_cons, levenshtein_cons_cons]
    split_ifs <;> omega

/-- An edit comes one letter closer to a word at most. Induction on what is in front of it. -/
theorem Edit.levenshtein_le {as as' : List α} (h : Edit as as') (bs : List α) :
    levenshtein as bs ≤ levenshtein as' bs + 1 := by
  cases h with
  | insert front back a =>
    induction front generalizing bs with
    | nil => exact levenshtein_le_cons_left a back bs
    | cons first front ih => exact levenshtein_cons_le_of_le ih first bs
  | delete front back a =>
    induction front generalizing bs with
    | nil => exact levenshtein_cons_left_le a back bs
    | cons first front ih => exact levenshtein_cons_le_of_le ih first bs
  | replace front back a b =>
    induction front generalizing bs with
    | nil => exact levenshtein_replace_le a b back bs
    | cons first front ih => exact levenshtein_cons_le_of_le ih first bs

theorem levenshtein_self (as : List α) : levenshtein as as = 0 := by
  induction as with
  | nil => exact levenshtein_nil_left []
  | cons a as ih =>
    rw [levenshtein_cons_cons, ih, if_pos rfl]
    exact Nat.min_zero _

theorem Edits.levenshtein_le {n : Nat} {as bs : List α} (h : Edits n as bs) :
    levenshtein as bs ≤ n := by
  induction h with
  | refl as => exact Nat.le_of_eq (levenshtein_self as)
  | step first _ ih => exact Nat.le_trans (first.levenshtein_le _) (Nat.succ_le_succ ih)

/-! ## The distance -/

variable (as bs cs : List α)

/-- The distance is the length of a chain, and no chain is shorter. -/
theorem isLeast_distance : IsLeast {n | Edits n as bs} (distance as bs) :=
  ⟨Nat.sInf_mem ⟨_, edits_levenshtein as bs⟩, fun _ h => Nat.sInf_le h⟩

theorem edits_distance : Edits (distance as bs) as bs := (isLeast_distance as bs).1

theorem distance_le {as bs : List α} {n : Nat} (h : Edits n as bs) : distance as bs ≤ n :=
  (isLeast_distance as bs).2 h

theorem levenshtein_eq_distance : levenshtein as bs = distance as bs := by
  apply Nat.le_antisymm
  · exact (edits_distance as bs).levenshtein_le
  · exact distance_le (edits_levenshtein as bs)

/-- Words that differ much in length are far apart. -/
theorem length_le_distance :
    as.length ≤ bs.length + distance as bs ∧ bs.length ≤ as.length + distance as bs :=
  (edits_distance as bs).length_le

theorem distance_eq_zero_iff : distance as bs = 0 ↔ as = bs := by
  constructor
  · intro hzero
    have hchain := edits_distance as bs
    rw [hzero] at hchain
    cases hchain with
    | refl => rfl
  · rintro rfl
    exact Nat.le_zero.1 (distance_le (.refl as))

theorem distance_comm : distance as bs = distance bs as := by
  apply Nat.le_antisymm
  · exact distance_le (edits_distance bs as).symm
  · exact distance_le (edits_distance as bs).symm

theorem distance_triangle : distance as cs ≤ distance as bs + distance bs cs :=
  distance_le ((edits_distance as bs).trans (edits_distance bs cs))

theorem distance_nil_left : distance [] bs = bs.length := by
  rw [← levenshtein_eq_distance, levenshtein_nil_left]

theorem distance_nil_right : distance as [] = as.length := by
  rw [← levenshtein_eq_distance, levenshtein_nil_right]

theorem distance_reverse : distance as.reverse bs.reverse = distance as bs := by
  apply Nat.le_antisymm
  · exact distance_le (edits_distance as bs).reverse
  · have hchain := (edits_distance as.reverse bs.reverse).reverse
    rw [List.reverse_reverse, List.reverse_reverse] at hchain
    exact distance_le hchain

/-- The last letter of the first word is deleted, that of the other word is inserted, or one is
kept or replaced by the other. -/
theorem distance_concat_concat (a b : α) :
    distance (as ++ [a]) (bs ++ [b]) =
      min (min (distance as (bs ++ [b]) + 1) (distance (as ++ [a]) bs + 1))
        (distance as bs + if a = b then 0 else 1) := by
  -- Mirrored, the last letters come first.
  rw [← distance_reverse, ← distance_reverse as, ← distance_reverse _ bs, ← distance_reverse as bs,
    List.reverse_concat, List.reverse_concat]
  simp only [← levenshtein_eq_distance]
  exact levenshtein_cons_cons a as.reverse b bs.reverse

end FrameEscape
