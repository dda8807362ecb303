import FrameEscape.Json.Printer
import FrameEscape.Json.Reader

/-!
# Reading what numbers are written as

A written number is a word that reads back as the number. The digits of a natural number have no
needless zero in front, so the reader takes them as a whole number; a decimal number is its
mantissa, and its exponent behind an `e`.
-/

namespace FrameEscape

namespace Json

/-! ## Digits -/

theorem digitsValue_repr (n : Nat) : digitsValue n.repr.toList = n := by
  rw [Nat.toList_repr]
  exact Nat.ofDigitChars_ten_toDigits

theorem isDigit_of_mem_repr {n : Nat} {c : Char} (h : c ∈ n.repr.toList) : c.isDigit = true := by
  rw [Nat.toList_repr] at h
  exact Nat.isDigit_of_mem_toDigits (by decide) (by decide) h

theorem all_isDigit_repr (n : Nat) : n.repr.toList.all Char.isDigit = true :=
  List.all_eq_true.2 fun _ h => isDigit_of_mem_repr h

theorem repr_toList_ne_nil (n : Nat) : n.repr.toList ≠ [] := by
  rw [Nat.toList_repr]
  exact Nat.toDigits_ne_nil

theorem digitChar_ne_zero {n : Nat} (hpos : 0 < n) (hlt : n < 10) : n.digitChar ≠ '0' := by
  have hall : ∀ n < 10, 0 < n → n.digitChar ≠ '0' := by decide
  exact hall n hlt hpos

/-- A number above zero does not begin with the digit zero. Induction on the number, as its first
digit is that of a tenth of it. -/
theorem head?_repr_ne (n : Nat) (hpos : 0 < n) : n.repr.toList.head? ≠ some '0' := by
  induction n using Nat.strongRecOn with
  | ind n ih =>
    rw [Nat.toList_repr, Nat.toDigits_eq_if (by decide)]
    split
    next hlt =>
      rw [List.head?_cons]
      exact fun h => digitChar_ne_zero hpos hlt (Option.some.inj h)
    next hle =>
      have htenth : (n / 10).repr.toList.head? ≠ some '0' := ih (n / 10) (by omega) (by omega)
      rw [Nat.toList_repr] at htenth
      have hne : Nat.toDigits 10 (n / 10) ≠ [] := Nat.toDigits_ne_nil
      obtain ⟨c, cs, hcs⟩ := List.exists_cons_of_ne_nil hne
      rw [hcs] at htenth ⊢
      exact htenth

/-- Digits have no needless zeros in front. -/
theorem canonical_repr (n : Nat) :
    (n.repr.toList.length ≠ 1 && n.repr.toList.head? == some '0') = false := by
  rcases Nat.eq_zero_or_pos n with rfl | hpos
  · rfl
  · rw [beq_false_of_ne (head?_repr_ne n hpos), Bool.and_false]

/-- What does not start with a digit ends the digits before it. -/
theorem spanDigits_repr_append (n : Nat) {rest : List Char}
    (hrest : ∀ c ∈ rest.head?, c.isDigit = false) :
    spanDigits (n.repr.toList ++ rest) = (n.repr.toList, rest) := by
  have hdigits : ∀ c ∈ n.repr.toList, c.isDigit = true := fun _ h => isDigit_of_mem_repr h
  rw [spanDigits, List.takeWhile_append_of_pos hdigits, List.dropWhile_append_of_pos hdigits]
  cases rest with
  | nil => rw [List.takeWhile_nil, List.dropWhile_nil, List.append_nil]
  | cons c rest =>
    have hc : ¬ c.isDigit = true := by
      rw [hrest c rfl]
      decide
    rw [List.takeWhile_cons_of_neg hc, List.dropWhile_cons_of_neg hc, List.append_nil]

theorem unsignedNumber?_repr (n : Nat) {rest : List Char} {exponent : Int}
    (hrest : ∀ c ∈ rest.head?, c.isDigit = false ∧ c ≠ '.')
    (hexponent : exponent? rest = some exponent) :
    unsignedNumber? (n.repr.toList ++ rest) = some (n.repr.toList, [], exponent) := by
  have hfraction : fraction? rest = some ([], rest) := by
    cases rest with
    | nil => rfl
    | cons c rest =>
      have hc : c ≠ '.' := (hrest c rfl).2
      rw [fraction?]
      simpa using hc
  have hempty : n.repr.toList.isEmpty = false := by
    rw [List.isEmpty_eq_false_iff]
    exact repr_toList_ne_nil n
  rw [unsignedNumber?, spanDigits_repr_append n fun c hc => (hrest c hc).1]
  simp only [hempty, canonical_repr n, hfraction, hexponent, Option.bind_eq_bind, Option.bind_some]
  rfl

/-! ## Exponents -/

theorem digit_ne_sign {c : Char} (h : c.isDigit = true) : c ≠ '-' ∧ c ≠ '+' := by
  constructor
  all_goals
    rintro rfl
    exact absurd h (by decide)

theorem exponent?_digits {digits : List Char} (hne : digits ≠ [])
    (hall : digits.all Char.isDigit = true) :
    exponent? ('e' :: digits) = some (digitsValue digits : Int) ∧
      exponent? ('e' :: '-' :: digits) = some (-(digitsValue digits : Int)) := by
  have hempty : digits.isEmpty = false := List.isEmpty_eq_false_iff.2 hne
  refine ⟨?_, by simp [exponent?, hempty, hall]⟩
  cases digits with
  | nil => exact absurd rfl hne
  | cons c cs =>
    have hc : c.isDigit = true := List.all_eq_true.1 hall c List.mem_cons_self
    obtain ⟨hminus, hplus⟩ := digit_ne_sign hc
    simp [exponent?, hminus, hplus, hall]

theorem exponent?_intText (e : Int) : exponent? ('e' :: (intText e).toList) = some e := by
  cases e with
  | ofNat n =>
    obtain ⟨hdigits, -⟩ := exponent?_digits (repr_toList_ne_nil n) (all_isDigit_repr n)
    rwa [digitsValue_repr] at hdigits
  | negSucc n =>
    obtain ⟨-, hdigits⟩ :=
      exponent?_digits (repr_toList_ne_nil (n + 1)) (all_isDigit_repr (n + 1))
    rw [intText, String.toList_append]
    rwa [digitsValue_repr] at hdigits

/-! ## Words

A whole number and what may stand behind it, an exponent or nothing, make up a word. -/

section Words

variable {rest : List Char} {exponent : Int}

theorem all_repr_append (n : Nat) :
    (n.repr.toList ++ rest).all Char.isDigit = rest.all Char.isDigit := by
  rw [List.all_append, all_isDigit_repr, Bool.true_and]

theorem number?_of_unsigned {c : Char} {cs whole : List Char} (hsign : c ≠ '-')
    (h : unsignedNumber? (c :: cs) = some (whole, [], exponent)) :
    number? (c :: cs) = some (if (c :: cs).all Char.isDigit then int (digitsValue whole)
      else decimal (digitsValue whole) exponent) := by
  generalize hall : (c :: cs).all Char.isDigit = whole?
  cases whole? <;> simp [number?, hsign, h, hall]

theorem number?_neg {cs whole : List Char} (hpos : 0 < digitsValue whole)
    (h : unsignedNumber? cs = some (whole, [], exponent)) :
    number? ('-' :: cs) = some (if cs.all Char.isDigit then int (-digitsValue whole)
      else decimal (-digitsValue whole) exponent) := by
  have hne : ((digitsValue whole : Int) == 0) = false := beq_false_of_ne (by omega)
  simp only [number?, h, Option.bind_eq_bind, Option.bind_some, List.append_nil, List.length_nil,
    hne]
  cases cs.all Char.isDigit <;> simp

/-- A number begins with a digit or with a sign. -/
theorem exists_intText_cons (m : Int) :
    ∃ c cs, (intText m).toList = c :: cs ∧ (c.isDigit = true ∨ c = '-') := by
  cases m with
  | ofNat n =>
    obtain ⟨c, cs, hcs⟩ := List.exists_cons_of_ne_nil (repr_toList_ne_nil n)
    exact ⟨c, cs, hcs, .inl (isDigit_of_mem_repr (n := n) (by simp [hcs]))⟩
  | negSucc n => exact ⟨'-', (n + 1).repr.toList, String.toList_append, .inr rfl⟩

theorem number?_intText_append (m : Int) (hrest : ∀ c ∈ rest.head?, c.isDigit = false ∧ c ≠ '.')
    (hexponent : exponent? rest = some exponent) :
    number? ((intText m).toList ++ rest) =
      some (if rest.all Char.isDigit then int m else decimal m exponent) := by
  cases m with
  | ofNat n =>
    have hunsigned := unsignedNumber?_repr n hrest hexponent
    have hall : (n.repr.toList ++ rest).all Char.isDigit = rest.all Char.isDigit :=
      all_repr_append n
    have hvalue := digitsValue_repr n
    rw [intText]
    obtain ⟨c, cs, hcs⟩ := List.exists_cons_of_ne_nil (repr_toList_ne_nil n)
    have hc : c ≠ '-' := (digit_ne_sign (isDigit_of_mem_repr (n := n) (by simp [hcs]))).1
    rw [hcs, List.cons_append] at hunsigned hall ⊢
    rw [number?_of_unsigned hc hunsigned, hall, ← hcs, hvalue]
    rfl
  | negSucc n =>
    have hunsigned := unsignedNumber?_repr (n + 1) hrest hexponent
    have hpos : 0 < digitsValue (n + 1).repr.toList := by
      rw [digitsValue_repr]
      omega
    have hnumber := number?_neg hpos hunsigned
    rw [all_repr_append, digitsValue_repr] at hnumber
    rw [intText, String.toList_append, List.append_assoc]
    exact hnumber

theorem word?_intText_append (m : Int) (hrest : ∀ c ∈ rest.head?, c.isDigit = false ∧ c ≠ '.')
    (hexponent : exponent? rest = some exponent) :
    word? ((intText m).toList ++ rest) =
      some (if rest.all Char.isDigit then int m else decimal m exponent) := by
  have hnumber := number?_intText_append m hrest hexponent
  obtain ⟨c, cs, hcs, hc⟩ := exists_intText_cons m
  rw [hcs, List.cons_append] at hnumber ⊢
  have hletter : c ≠ 'n' ∧ c ≠ 't' ∧ c ≠ 'f' := by
    refine ⟨?_, ?_, ?_⟩
    all_goals
      rintro rfl
      exact absurd hc (by decide)
  rw [word?, if_neg (by simp [hletter]), if_neg (by simp [hletter]), if_neg (by simp [hletter])]
  exact hnumber

end Words

theorem isWordChar_of_mem_intText {n : Int} {c : Char} (h : c ∈ (intText n).toList) :
    Lexer.isWordChar c = true := by
  have hdigit : ∀ {m : Nat}, c ∈ m.repr.toList → Lexer.isWordChar c = true := by
    intro m hm
    rw [Lexer.isWordChar, Char.isAlphanum, isDigit_of_mem_repr hm, Bool.or_true]
    rfl
  cases n with
  | ofNat m => exact hdigit h
  | negSucc m =>
    rw [intText, String.toList_append, List.mem_append] at h
    rcases h with h | h
    · rw [List.mem_singleton.1 h]
      rfl
    · exact hdigit h

theorem word?_intText (n : Int) : word? (intText n).toList = some (int n) := by
  have h : word? ((intText n).toList ++ []) = some (int n) :=
    word?_intText_append n (by simp) rfl
  rwa [List.append_nil] at h

theorem word?_decimal (mantissa exponent : Int) :
    word? (intText mantissa ++ "e" ++ intText exponent).toList =
      some (decimal mantissa exponent) := by
  rw [String.toList_append, String.toList_append, List.append_assoc]
  exact word?_intText_append mantissa (by simp) (exponent?_intText exponent)

end Json

end FrameEscape
