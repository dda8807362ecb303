/-!
# Escape levels

How far a value may travel past the frame that produced it is one of four levels, from
stack-only at the bottom to heap at the top. Combining values takes the lower level: a
composite is only as safe as its least safe part.
-/

namespace FrameEscape

/-- Whether a value moves by copy or a reference to its storage is taken. -/
inductive Access where
  | value
  | ref
  deriving DecidableEq

/-- How far a value may travel past the frame that produced it. -/
inductive Level where
  /-- It may point into a frame that dies at return, and never escapes. -/
  | stackOnly
  /-- It may be returned by reference. -/
  | refScoped
  /-- It may be returned by value. -/
  | valueScoped
  /-- Its storage outlives every frame. -/
  | heap
  deriving DecidableEq

namespace Level

/-- The place of a level in the order, counted from the bottom. -/
def rank : Level → Nat
  | stackOnly => 0
  | refScoped => 1
  | valueScoped => 2
  | heap => 3

instance : LE Level := ⟨fun a b => a.rank ≤ b.rank⟩

instance : LT Level := ⟨fun a b => a.rank < b.rank⟩

instance (a b : Level) : Decidable (a ≤ b) := inferInstanceAs (Decidable (a.rank ≤ b.rank))

instance (a b : Level) : Decidable (a < b) := inferInstanceAs (Decidable (a.rank < b.rank))

/-- Every level, from the bottom up. -/
def all : List Level := [stackOnly, refScoped, valueScoped, heap]

/-- The lower of two levels. -/
def meet (a b : Level) : Level := if a ≤ b then a else b

/-- The lowest of some levels. Nothing at all is as safe as heap data. -/
def meetAll (levels : List Level) : Level := levels.foldr meet heap

/-- The level that a return of the given kind demands. -/
def requiredForReturn : Access → Level
  | .value => valueScoped
  | .ref => refScoped

/-- Whether a value of this level may be returned in the given way. -/
def isReturnable (level : Level) (mode : Access) : Bool :=
  decide (requiredForReturn mode ≤ level)

/-- The word for a level in messages and reports. -/
def name : Level → String
  | stackOnly => "stack-only"
  | refScoped => "ref-scoped"
  | valueScoped => "value-scoped"
  | heap => "heap"

/-- The level with the given word. -/
def ofName? (word : String) : Option Level := all.find? (·.name == word)

/-! ## The order is a chain, and `meet` its greatest lower bound -/

theorem le_refl (a : Level) : a ≤ a := Nat.le_refl a.rank

theorem le_trans {a b c : Level} (hab : a ≤ b) (hbc : b ≤ c) : a ≤ c := Nat.le_trans hab hbc

theorem rank_injective {a b : Level} (h : a.rank = b.rank) : a = b := by
  cases a <;> cases b <;> simp_all [rank]

theorem le_antisymm {a b : Level} (hab : a ≤ b) (hba : b ≤ a) : a = b :=
  rank_injective (Nat.le_antisymm hab hba)

theorem le_total (a b : Level) : a ≤ b ∨ b ≤ a := Nat.le_total a.rank b.rank

theorem not_le {a b : Level} : ¬ a ≤ b ↔ b < a := Nat.not_le

/-- What is only wrong below a level is not wrong from that level up. -/
theorem ite_lt_eq_none_iff {α : Type} {a b : Level} {problem : α} :
    (if a < b then some problem else none) = none ↔ b ≤ a := by
  rw [ite_eq_right_iff, ← not_le]
  simp

theorem stackOnly_le (a : Level) : stackOnly ≤ a := Nat.zero_le a.rank

theorem le_heap (a : Level) : a ≤ heap := by cases a <;> decide

theorem le_meet_iff {a b c : Level} : c ≤ a.meet b ↔ c ≤ a ∧ c ≤ b := by
  cases a <;> cases b <;> cases c <;> decide

theorem meet_le_left (a b : Level) : a.meet b ≤ a := (le_meet_iff.1 (le_refl _)).1

theorem meet_le_right (a b : Level) : a.meet b ≤ b := (le_meet_iff.1 (le_refl _)).2

theorem le_meetAll_iff {levels : List Level} {c : Level} :
    c ≤ meetAll levels ↔ ∀ a ∈ levels, c ≤ a := by
  induction levels with
  | nil => simpa [meetAll] using le_heap c
  | cons a rest ih => simpa [meetAll, le_meet_iff] using fun _ => ih

/-- The words of the levels are distinct, so a word names at most one level. -/
theorem ofName?_name (a : Level) : ofName? a.name = some a := by cases a <;> decide

end Level

end FrameEscape
