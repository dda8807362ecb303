import FrameEscape.Proofs.Text.Lines

/-!
# Positions and offsets

A line index finds the line of an offset in its table of the offsets at which lines begin. What it
finds can be said without the table, by counting the bytes before the offset.

* **`le_iff_lt_countP`**: the table increases, so the lines that begin at or before an offset are
  the first ones.
* **`LineIndex.LiesIn`**: the last of them is the line that the offset lies in. The text is cut into
  what is before that line, the line, and what is after it, and the offset is not outside the line.
* **`LineIndex.PositionOf`**: all that a position says of its offset. It is read off that cut
  (`LineIndex.LiesIn.positionOf`), and it makes positions go up with the offsets.
* **`LineIndex.locate_inverts_offsets`**: the headline.
-/

namespace FrameEscape

open Names (bytes)

/-! ## Counting in a list that increases -/

/-- In a list that increases, the numbers up to a bound are the first ones. -/
theorem le_iff_lt_countP {numbers : List Nat} (h : numbers.Pairwise (· < ·)) {k number : Nat}
    (hk : numbers[k]? = some number) (bound : Nat) :
    number ≤ bound ↔ k < numbers.countP (· ≤ bound) := by
  induction numbers generalizing k with
  | nil => cases hk
  | cons first numbers ih =>
    obtain ⟨hfirst, hrest⟩ := List.pairwise_cons.1 h
    by_cases hle : first ≤ bound
    · rw [List.countP_cons_of_pos (by simpa using hle)]
      cases k with
      | zero =>
        cases hk
        exact iff_of_true hle (Nat.succ_pos _)
      | succ k =>
        rw [ih hrest hk]
        omega
    · have hnone : numbers.countP (· ≤ bound) = 0 := by
        refine List.countP_eq_zero.2 fun other hother => ?_
        have hlt := hfirst other hother
        simp only [decide_eq_true_eq]
        omega
      have hlt : bound < number := by
        rcases List.mem_cons.1 (List.mem_of_getElem? hk) with rfl | hmem
        · omega
        · have hlt := hfirst number hmem
          omega
      rw [List.countP_cons_of_neg (by simpa using hle), hnone]
      omega

/-! ## Bytes before an offset -/

theorem count_encode_ended {lines : List (List Char)} (h : ∀ line ∈ lines, '\n' ∉ line) :
    (encode (ended lines)).count newlineByte = lines.length := by
  induction lines with
  | nil => rfl
  | cons line lines ih =>
    obtain ⟨hline, hlines⟩ := List.forall_mem_cons.1 h
    have hnone : (encode line).count newlineByte = 0 :=
      List.count_eq_zero_of_not_mem (mt newlineByte_mem_encode_iff.1 hline)
    rw [ended_cons, encode_append, encode_cons, utf8EncodeChar_newline, List.count_append,
      List.count_append, hnone, ih hlines, List.count_singleton_self, List.length_cons]
    omega

/-- What has no newline is all that comes before the newline behind it. -/
theorem takeWhile_append_of_not_mem {rest behind : List UInt8} (h : newlineByte ∉ rest)
    (hbehind : behind.takeWhile (· ≠ newlineByte) = []) :
    (rest ++ behind).takeWhile (· ≠ newlineByte) = rest := by
  have hrest : ∀ byte ∈ rest, decide (byte ≠ newlineByte) = true := by
    intro byte hbyte
    apply decide_eq_true
    rintro rfl
    exact h hbyte
  rw [List.takeWhile_append_of_pos hrest, hbehind, List.append_nil]

/-- Behind lines that end in newlines, what has none is what is after the last newline. -/
theorem takeWhile_reverse_append {lines : List (List Char)} {rest : List UInt8}
    (h : newlineByte ∉ rest) :
    ((encode (ended lines) ++ rest).reverse.takeWhile (· ≠ newlineByte)).length = rest.length := by
  have hlines : (encode (ended lines)).reverse.takeWhile (· ≠ newlineByte) = [] := by
    rcases List.eq_nil_or_concat lines with rfl | ⟨front, last, rfl⟩
    · rfl
    · simp [ended, encode, utf8EncodeChar_newline]
  rw [List.reverse_append, takeWhile_append_of_not_mem (mt List.mem_reverse.1 h) hlines,
    List.length_reverse]

/-- In front of lines that begin with newlines, what has none is what is before the first of
these. -/
theorem takeWhile_append_continued {lines : List (List Char)} {rest : List UInt8}
    (h : newlineByte ∉ rest) :
    (rest ++ encode (continued lines)).takeWhile (· ≠ newlineByte) = rest := by
  apply takeWhile_append_of_not_mem h
  cases lines with
  | nil => rfl
  | cons line lines => simp [continued, encode, utf8EncodeChar_newline]

/-! ## The line of an offset -/

namespace LineIndex

variable {text : String} {offset : Nat} {before after : List (List Char)} {line : List Char}

/-- An offset lies in a line of the text, which is the one that is found for it: not before the
first byte of the line, and not after the place of its newline. -/
structure LiesIn (text : String) (offset : Nat) (before : List (List Char)) (line : List Char)
    (after : List (List Char)) : Prop where
  splitOn_eq : text.toList.splitOn '\n' = before ++ line :: after
  lineOf_eq : (ofText text).lineOf offset = before.length + 1
  le_min : (encode (ended before)).length ≤ min offset text.utf8ByteSize
  min_le : min offset text.utf8ByteSize ≤ (encode (ended before)).length + (encode line).length

/-- Each offset lies in a line. The lines that begin at or before it are the first ones of the
table, so the last of them begins there, and the next one does not. -/
theorem exists_liesIn (text : String) (offset : Nat) :
    ∃ before line after, LiesIn text offset before line after := by
  have hsorted := pairwise_starts text
  have hfirst : (ofText text).starts[0]? = some 0 := rfl
  have hpos : 0 < (ofText text).lineOf offset :=
    (le_iff_lt_countP hsorted hfirst _).1 (Nat.zero_le _)
  have hlength : (ofText text).lineOf offset ≤ (text.toList.splitOn '\n').length := by
    rw [← length_lineStarts 0, ← starts_ofText]
    exact List.countP_le_length
  obtain ⟨k, hk⟩ := Nat.exists_eq_succ_of_ne_zero (Nat.ne_of_gt hpos)
  obtain ⟨before, line, after, hsplit, rfl⟩ := exists_split (Nat.lt_of_succ_le (hk ▸ hlength))
  have hle_iff : ∀ {i start}, (ofText text).starts[i]? = some start →
      (start ≤ min offset text.utf8ByteSize ↔ i < before.length + 1) := by
    intro i start hstart
    rw [← Nat.succ_eq_add_one, ← hk]
    exact le_iff_lt_countP hsorted hstart _
  refine ⟨before, line, after, hsplit, hk, ?_, ?_⟩
  · exact (hle_iff (getElem?_starts hsplit)).2 (Nat.lt_succ_self _)
  · cases after with
    | nil => exact Nat.le_trans (Nat.min_le_right _ _) (Nat.le_of_eq (utf8ByteSize_eq hsplit))
    | cons next after =>
      have hnext : (ofText text).starts[before.length + 1]? =
          some ((encode (ended before)).length + (encode line).length + 1) :=
        getElem?_starts_succ hsplit
      exact Nat.le_of_lt_succ (Nat.lt_of_not_le (mt (hle_iff hnext).1 (Nat.lt_irrefl _)))

namespace LiesIn

theorem startOf_eq (h : LiesIn text offset before line after) :
    (ofText text).startOf (before.length + 1) = (encode (ended before)).length := by
  rw [startOf, Nat.add_sub_cancel, List.getD_eq_getElem?_getD, getElem?_starts h.splitOn_eq]
  rfl

theorem locate_eq (h : LiesIn text offset before line after) :
    (ofText text).locate offset = (before.length + 1,
      min offset text.utf8ByteSize - (encode (ended before)).length + 1) := by
  rw [locate, columnOf, h.lineOf_eq, h.startOf_eq]
  rfl

/-- The line that is found for the offset can be cut out. -/
theorem line?_eq (h : LiesIn text offset before line after) :
    (ofText text).line? text ((ofText text).lineOf offset) = some (String.ofList line) := by
  rw [h.lineOf_eq]
  exact line?_of_splitOn h.splitOn_eq

/-- The bytes before the offset: lines with their newlines, and a part of the line it lies in. -/
theorem take_bytes (h : LiesIn text offset before line after) :
    (bytes text).take (min offset text.utf8ByteSize) = encode (ended before) ++
      (encode line).take (min offset text.utf8ByteSize - (encode (ended before)).length) := by
  have hle := h.le_min
  have hge := h.min_le
  rw [bytes_eq_encode, toList_eq_of_splitOn h.splitOn_eq, encode_append, encode_append,
    List.take_append, List.take_of_length_le hle, List.take_append_of_le_length (by omega)]

theorem newline_not_mem (h : LiesIn text offset before line after) {other : List Char}
    (hother : other ∈ before ++ line :: after) : '\n' ∉ other :=
  newline_not_mem_of_mem_splitOn (h.splitOn_eq ▸ hother)

theorem newlineByte_not_mem_take (h : LiesIn text offset before line after) (n : Nat) :
    newlineByte ∉ (encode line).take n := by
  refine fun hnewline => h.newline_not_mem (List.mem_append_right _ List.mem_cons_self) ?_
  exact newlineByte_mem_encode_iff.1 (List.mem_of_mem_take hnewline)

end LiesIn

/-! ## The headline -/

/-- The position says where the offset is in the text, where those past the end mean the end: one
more than there are newlines before it, one more than there are bytes after the last of these. The
line is one of the text, it begins where it should, and the position is not outside it. -/
structure PositionOf (text : String) (offset line column : Nat) : Prop where
  line_eq : line = 1 + ((bytes text).take (min offset text.utf8ByteSize)).count newlineByte
  column_eq : column = 1 + (((bytes text).take
    (min offset text.utf8ByteSize)).reverse.takeWhile (· ≠ newlineByte)).length
  one_le : 1 ≤ line
  le_lineCount : line ≤ (ofText text).lineCount
  start_add : (ofText text).startOf line + column - 1 = min offset text.utf8ByteSize
  within : ∃ lineText, (ofText text).line? text line = some lineText ∧
    column ≤ lineText.utf8ByteSize + 1

theorem LiesIn.positionOf (h : LiesIn text offset before line after) :
    PositionOf text offset (before.length + 1)
      (min offset text.utf8ByteSize - (encode (ended before)).length + 1) := by
  have hle := h.le_min
  have hge := h.min_le
  have hrest := h.newlineByte_not_mem_take
    (min offset text.utf8ByteSize - (encode (ended before)).length)
  constructor
  case line_eq =>
    rw [h.take_bytes, List.count_append, List.count_eq_zero_of_not_mem hrest,
      count_encode_ended fun other hother => h.newline_not_mem (List.mem_append_left _ hother)]
    omega
  case column_eq =>
    rw [h.take_bytes, takeWhile_reverse_append hrest, List.length_take_of_le (by omega)]
    exact Nat.add_comm _ _
  case one_le => exact Nat.succ_pos _
  case le_lineCount =>
    have hlength := congrArg List.length h.splitOn_eq
    rw [List.length_append, List.length_cons] at hlength
    rw [lineCount_ofText, hlength]
    omega
  case start_add =>
    rw [h.startOf_eq]
    omega
  case within =>
    refine ⟨String.ofList line, line?_of_splitOn h.splitOn_eq, ?_⟩
    rw [utf8ByteSize_ofList]
    omega

theorem positionOf_locate (text : String) (offset : Nat) :
    PositionOf text offset ((ofText text).locate offset).1 ((ofText text).locate offset).2 := by
  obtain ⟨before, line, after, h⟩ := exists_liesIn text offset
  rw [h.locate_eq]
  exact h.positionOf

/-- A position says which offset it is that of. -/
theorem min_eq_of_locate_eq {a b : Nat} (h : (ofText text).locate a = (ofText text).locate b) :
    min a text.utf8ByteSize = min b text.utf8ByteSize := by
  rw [← (positionOf_locate text a).start_add, ← (positionOf_locate text b).start_add, h]

/-- There are no fewer newlines before a later offset. In the same line, it has a greater column. -/
theorem locate_lt_locate {a b : Nat} (hab : a < b) (hb : b ≤ text.utf8ByteSize) :
    toLex ((ofText text).locate a) < toLex ((ofText text).locate b) := by
  have ha := positionOf_locate text a
  have hb' := positionOf_locate text b
  have hmina : min a text.utf8ByteSize = a := Nat.min_eq_left (by omega)
  have hminb : min b text.utf8ByteSize = b := Nat.min_eq_left hb
  have hcount : ((bytes text).take a).count newlineByte ≤ ((bytes text).take b).count newlineByte :=
    (List.take_sublist_take_left (Nat.le_of_lt hab)).count_le _
  have hline : ((ofText text).locate a).1 ≤ ((ofText text).locate b).1 := by
    rw [ha.line_eq, hb'.line_eq, hmina, hminb]
    omega
  rw [Prod.Lex.toLex_lt_toLex]
  rcases Nat.lt_or_eq_of_le hline with hlt | heq
  · exact .inl hlt
  · have hadda := ha.start_add
    have haddb := hb'.start_add
    have hpos := hb'.column_eq
    rw [heq, hmina] at hadda
    rw [hminb] at haddb
    exact .inr ⟨heq, by omega⟩

/-- **Positions invert offsets.** The table increases, as a search by halves needs. The position of
an offset counts the newlines before it and the bytes after the last of these; its line is one of
the text, and the offset is its column away from where the line begins, and not outside the line. So
positions go up with the offsets in the text, offsets past the end have the position of the end, and
different offsets in the text have different positions. -/
theorem locate_inverts_offsets (text : String) :
    (ofText text).starts.Pairwise (· < ·) ∧
      (∀ offset, PositionOf text offset ((ofText text).locate offset).1
        ((ofText text).locate offset).2) ∧
      (∀ a b, a < b → b ≤ text.utf8ByteSize →
        toLex ((ofText text).locate a) < toLex ((ofText text).locate b)) ∧
      (∀ offset, text.utf8ByteSize ≤ offset →
        (ofText text).locate offset = (ofText text).locate text.utf8ByteSize) ∧
      ∀ a b, a ≤ text.utf8ByteSize → b ≤ text.utf8ByteSize →
        (ofText text).locate a = (ofText text).locate b → a = b := by
  refine ⟨pairwise_starts text, positionOf_locate text, fun a b => locate_lt_locate,
    fun offset hoffset => ?_, ?_⟩
  · have hclamp : (ofText text).clamp offset = (ofText text).clamp text.utf8ByteSize :=
      (Nat.min_eq_right hoffset).trans (Nat.min_self _).symm
    rw [locate, locate, columnOf, columnOf, lineOf, lineOf, hclamp]
  · intro a b ha hb heq
    have hmin := min_eq_of_locate_eq heq
    rwa [Nat.min_eq_left ha, Nat.min_eq_left hb] at hmin

end LineIndex

end FrameEscape
