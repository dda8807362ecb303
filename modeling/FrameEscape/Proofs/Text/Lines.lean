import FrameEscape.Proofs.ByteOrder
import FrameEscape.Text.Lines
import Mathlib

/-!
# Lines of a text

A text falls into lines at its newlines. A line index knows only the offsets at which they begin, in
bytes, and cuts a line out of the text between two of these offsets.

* **`LineIndex.starts_ofText`**: the index holds where the lines begin, each line after the newline
  of the one before. These offsets increase (`LineIndex.pairwise_starts`).
* **`LineIndex.line?_of_splitOn`**: the line that is cut out is the line of the text. The cut never
  fails, as it is made between characters.
* **`LineIndex.lines_make_up_text`**: the headline. Joined, the lines are the text again.
-/

namespace FrameEscape

open Names (bytes bytes_eq)

/-! ## Bytes of a text -/

/-- The byte of a newline. -/
def newlineByte : UInt8 := 10

/-- The UTF-8 bytes of some characters. -/
def encode (cs : List Char) : List UInt8 := cs.flatMap String.utf8EncodeChar

theorem encode_cons (c : Char) (cs : List Char) :
    encode (c :: cs) = String.utf8EncodeChar c ++ encode cs := List.flatMap_cons

theorem encode_append (front back : List Char) :
    encode (front ++ back) = encode front ++ encode back := List.flatMap_append

theorem length_encode_cons (c : Char) (cs : List Char) :
    (encode (c :: cs)).length = c.utf8Size + (encode cs).length := by
  rw [encode_cons, List.length_append, String.length_utf8EncodeChar]

theorem bytes_eq_encode (text : String) : bytes text = encode text.toList := bytes_eq text

theorem length_bytes (text : String) : (bytes text).length = text.utf8ByteSize :=
  String.size_toByteArray

theorem utf8ByteSize_ofList (cs : List Char) :
    (String.ofList cs).utf8ByteSize = (encode cs).length := by
  rw [← length_bytes, bytes_eq_encode, String.toList_ofList]

/-- A newline is the only character that has the byte of one. -/
theorem newlineByte_mem_utf8EncodeChar_iff {c : Char} :
    newlineByte ∈ String.utf8EncodeChar c ↔ c = '\n' := by
  have hvalue : c = '\n' ↔ c.val.toNat = 10 := by
    rw [← Char.val_inj, ← UInt32.toNat_inj]
    rfl
  have hbyte : newlineByte = UInt8.ofNat 10 := rfl
  rw [hvalue, hbyte]
  unfold String.utf8EncodeChar
  generalize c.val.toNat = n
  dsimp only
  -- A goal for each number of bytes.
  split_ifs
  all_goals
    simp (disch := omega) only [List.mem_cons, List.not_mem_nil, or_false, byte_inj]
    omega

theorem utf8EncodeChar_newline : String.utf8EncodeChar '\n' = [newlineByte] := by decide

theorem utf8Size_newline : '\n'.utf8Size = 1 := by decide

theorem newlineByte_mem_encode_iff {cs : List Char} : newlineByte ∈ encode cs ↔ '\n' ∈ cs := by
  simp [encode, newlineByte_mem_utf8EncodeChar_iff]

/-! ## Lines of a text -/

/-- Lines with a newline after each. -/
def ended (lines : List (List Char)) : List Char := lines.flatMap (· ++ ['\n'])

/-- Lines with a newline before each. -/
def continued (lines : List (List Char)) : List Char := lines.flatMap ('\n' :: ·)

theorem ended_cons (line : List Char) (lines : List (List Char)) :
    ended (line :: lines) = line ++ '\n' :: ended lines := by
  simp [ended]

theorem intercalate_newline (before : List (List Char)) (line : List Char)
    (after : List (List Char)) :
    ['\n'].intercalate (before ++ line :: after) = ended before ++ (line ++ continued after) := by
  induction before with
  | nil =>
    induction after generalizing line with
    | nil => simp [ended, continued]
    | cons next after ih =>
      have hnext := ih next
      rw [List.nil_append] at hnext ⊢
      rw [List.intercalate_cons_cons, hnext]
      simp [ended, continued]
  | cons first before ih =>
    rw [List.cons_append, List.intercalate_cons_of_ne_nil (by simp), ih, ended_cons]
    simp

theorem newline_not_mem_of_mem_splitOn {cs line : List Char} (h : line ∈ cs.splitOn '\n') :
    '\n' ∉ line := by
  induction cs generalizing line with
  | nil =>
    cases List.mem_singleton.1 h
    exact List.not_mem_nil
  | cons c cs ih =>
    obtain ⟨first, rest, hlines⟩ := List.exists_cons_of_ne_nil (List.splitOn_ne_nil '\n' cs)
    rw [List.splitOn_cons_eq_if_modifyHead] at h
    split at h
    · rcases List.mem_cons.1 h with rfl | h
      · exact List.not_mem_nil
      · exact ih h
    next hc =>
      rw [hlines, List.modifyHead_cons] at h
      rcases List.mem_cons.1 h with rfl | h
      · have hfirst : '\n' ∉ first := ih (hlines ▸ List.mem_cons_self)
        rw [List.mem_cons, not_or]
        exact ⟨fun heq => hc (beq_iff_eq.2 heq.symm), hfirst⟩
      · exact ih (hlines ▸ List.mem_cons_of_mem _ h)

/-- There is one line more than there are newlines. -/
theorem length_splitOn_newline (cs : List Char) :
    (cs.splitOn '\n').length = cs.count '\n' + 1 := by
  induction cs with
  | nil => rfl
  | cons c cs ih =>
    rw [List.splitOn_cons_eq_if_modifyHead, List.count_cons]
    split
    · show (cs.splitOn '\n').length + 1 = _
      omega
    · rw [List.length_modifyHead]
      omega

theorem exists_split {lines : List (List Char)} {k : Nat} (h : k < lines.length) :
    ∃ before line after, lines = before ++ line :: after ∧ before.length = k := by
  refine ⟨lines.take k, lines[k], lines.drop (k + 1), ?_, List.length_take_of_le (Nat.le_of_lt h)⟩
  rw [List.getElem_cons_drop, List.take_append_drop]

/-! ## Where lines begin -/

/-- Where lines begin, of which the first one begins at `offset`. -/
def lineStarts (offset : Nat) : List (List Char) → List Nat
  | [] => []
  | line :: lines => offset :: lineStarts (offset + (encode line).length + 1) lines

/-- Lines begin where the first one does, and after each newline. -/
theorem cons_newlineEnds (offset : Nat) (cs : List Char) :
    offset :: newlineEnds offset cs = lineStarts offset (cs.splitOn '\n') := by
  induction cs generalizing offset with
  | nil => rfl
  | cons c cs ih =>
    rw [List.splitOn_cons_eq_if_modifyHead, newlineEnds]
    by_cases hc : c = '\n'
    · subst hc
      rw [if_pos rfl, if_pos (beq_self_eq_true _), lineStarts, utf8Size_newline, ← ih]
      rfl
    · obtain ⟨first, rest, hlines⟩ := List.exists_cons_of_ne_nil (List.splitOn_ne_nil '\n' cs)
      have hrest := ih (offset + c.utf8Size)
      rw [hlines, lineStarts] at hrest
      rw [if_neg hc, if_neg (by simpa using hc), hlines, List.modifyHead_cons, lineStarts,
        length_encode_cons, (List.cons.inj hrest).2]
      simp only [Nat.add_assoc]

theorem length_lineStarts (offset : Nat) (lines : List (List Char)) :
    (lineStarts offset lines).length = lines.length := by
  induction lines generalizing offset with
  | nil => rfl
  | cons line lines ih => rw [lineStarts, List.length_cons, ih, List.length_cons]

theorem lineStarts_append (offset : Nat) (before after : List (List Char)) :
    lineStarts offset (before ++ after) =
      lineStarts offset before ++ lineStarts (offset + (encode (ended before)).length) after := by
  induction before generalizing offset with
  | nil => rfl
  | cons line before ih =>
    rw [List.cons_append, lineStarts, lineStarts, ih, ended_cons, encode_append,
      List.length_append, length_encode_cons, utf8Size_newline, List.cons_append]
    simp only [Nat.add_assoc]

theorem le_of_mem_lineStarts {offset start : Nat} {lines : List (List Char)}
    (h : start ∈ lineStarts offset lines) : offset ≤ start := by
  induction lines generalizing offset with
  | nil => cases h
  | cons line lines ih =>
    rcases List.mem_cons.1 h with rfl | h
    · exact Nat.le_refl _
    · have hle := ih h
      omega

theorem pairwise_lineStarts (offset : Nat) (lines : List (List Char)) :
    (lineStarts offset lines).Pairwise (· < ·) := by
  induction lines generalizing offset with
  | nil => exact .nil
  | cons line lines ih =>
    refine List.pairwise_cons.2 ⟨fun start hstart => ?_, ih _⟩
    have hle := le_of_mem_lineStarts hstart
    omega

/-! ## Cutting a text -/

theorem dropBytes_cons {c : Char} {n : Nat} (cs : List Char) (h : c.utf8Size ≤ n) :
    dropBytes n (c :: cs) = dropBytes (n - c.utf8Size) cs := by
  cases n with
  | zero => exact absurd c.utf8Size_pos (Nat.not_lt.2 h)
  | succ n => exact if_pos h

theorem takeBytes_cons {c : Char} {n : Nat} (cs : List Char) (h : c.utf8Size ≤ n) :
    takeBytes n (c :: cs) = (takeBytes (n - c.utf8Size) cs).map (c :: ·) := by
  cases n with
  | zero => exact absurd c.utf8Size_pos (Nat.not_lt.2 h)
  | succ n => exact if_pos h

theorem dropBytes_append (front back : List Char) :
    dropBytes (encode front).length (front ++ back) = some back := by
  induction front with
  | nil => cases back <;> rfl
  | cons c front ih =>
    rw [length_encode_cons, List.cons_append, dropBytes_cons _ (Nat.le_add_right _ _),
      Nat.add_sub_cancel_left, ih]

theorem takeBytes_append (front back : List Char) :
    takeBytes (encode front).length (front ++ back) = some front := by
  induction front with
  | nil => cases back <;> rfl
  | cons c front ih =>
    rw [length_encode_cons, List.cons_append, takeBytes_cons _ (Nat.le_add_right _ _),
      Nat.add_sub_cancel_left, ih]
    rfl

/-- The characters between two others can be cut out. -/
theorem bytesBetween?_eq {text : String} {front middle back : List Char}
    (h : text.toList = front ++ (middle ++ back)) :
    bytesBetween? text (encode front).length ((encode front).length + (encode middle).length) =
      some (String.ofList middle) := by
  rw [bytesBetween?, if_pos (Nat.le_add_right _ _), h, dropBytes_append, Option.bind_some,
    Nat.add_sub_cancel_left, takeBytes_append]
  rfl

/-! ## The lines of an index -/

/-- What is before a line of the text, the line, and what is after it make up the text. -/
theorem toList_eq_of_splitOn {text : String} {before after : List (List Char)} {line : List Char}
    (h : text.toList.splitOn '\n' = before ++ line :: after) :
    text.toList = ended before ++ (line ++ continued after) := by
  rw [← intercalate_newline, ← h, List.intercalate_splitOn]

namespace LineIndex

variable {text : String} {before after : List (List Char)} {line : List Char}

theorem starts_ofText (text : String) :
    (ofText text).starts = lineStarts 0 (text.toList.splitOn '\n') := cons_newlineEnds 0 text.toList

theorem pairwise_starts (text : String) : (ofText text).starts.Pairwise (· < ·) := by
  rw [starts_ofText]
  exact pairwise_lineStarts 0 _

/-- A line begins after those before it and their newlines. -/
theorem getElem?_starts (h : text.toList.splitOn '\n' = before ++ line :: after) :
    (ofText text).starts[before.length]? = some (encode (ended before)).length := by
  rw [starts_ofText, h, lineStarts_append, List.getElem?_append_right (by
    rw [length_lineStarts]), length_lineStarts, Nat.sub_self, Nat.zero_add]
  rfl

/-- The next line begins after the newline at the end of this one. -/
theorem getElem?_starts_succ (h : text.toList.splitOn '\n' = before ++ line :: after) :
    (ofText text).starts[before.length + 1]? =
      after.head?.map fun _ => (encode (ended before)).length + (encode line).length + 1 := by
  rw [starts_ofText, h, lineStarts_append, List.getElem?_append_right (by
    rw [length_lineStarts]; omega), length_lineStarts, Nat.add_sub_cancel_left, Nat.zero_add]
  cases after <;> rfl

theorem utf8ByteSize_eq (h : text.toList.splitOn '\n' = before ++ line :: after) :
    text.utf8ByteSize = (encode (ended before)).length + (encode line).length +
      (encode (continued after)).length := by
  rw [← length_bytes, bytes_eq_encode, toList_eq_of_splitOn h, encode_append, encode_append,
    List.length_append, List.length_append, Nat.add_assoc]

/-- A line of the text can be cut out of it. -/
theorem line?_of_splitOn (h : text.toList.splitOn '\n' = before ++ line :: after) :
    (ofText text).line? text (before.length + 1) = some (String.ofList line) := by
  rw [line?, if_neg (Nat.succ_ne_zero _), Nat.add_sub_cancel, getElem?_starts h, Option.bind_some,
    getElem?_starts_succ h, ← bytesBetween?_eq (toList_eq_of_splitOn h)]
  cases after with
  | nil =>
    rw [utf8ByteSize_eq h]
    rfl
  | cons next after => rfl

theorem lineCount_ofText (text : String) :
    (ofText text).lineCount = (text.toList.splitOn '\n').length := by
  rw [lineCount, starts_ofText, length_lineStarts]

/-- The lines that can be cut out are those of the text, in their order, and there are no more. -/
theorem line?_succ (text : String) (k : Nat) :
    (ofText text).line? text (k + 1) = (text.toList.splitOn '\n')[k]?.map String.ofList := by
  rcases Nat.lt_or_ge k (text.toList.splitOn '\n').length with hlt | hge
  · obtain ⟨before, line, after, hsplit, rfl⟩ := exists_split hlt
    rw [line?_of_splitOn hsplit, hsplit, List.getElem?_append_right (Nat.le_refl _), Nat.sub_self]
    rfl
  · -- The table ends before there, so no line begins.
    have hstart : (ofText text).starts[k]? = none := by
      apply List.getElem?_eq_none
      rw [starts_ofText, length_lineStarts]
      exact hge
    rw [line?, if_neg (Nat.succ_ne_zero _), Nat.add_sub_cancel, hstart, List.getElem?_eq_none hge]
    rfl

/-- **The lines make up the text.** Those that can be cut out are numbered from one to the number of
lines, none of them holds a newline, and with a newline between each two they are the text again.
There is one line more than there are newlines. -/
theorem lines_make_up_text (text : String) :
    (∀ k, ((ofText text).line? text k).isSome ↔ 1 ≤ k ∧ k ≤ (ofText text).lineCount) ∧
      (∀ k line, (ofText text).line? text k = some line → '\n' ∉ line.toList) ∧
      (∃ lines, (List.range' 1 (ofText text).lineCount).map ((ofText text).line? text) =
        lines.map some ∧ "\n".intercalate lines = text) ∧
      (ofText text).lineCount = text.toList.count '\n' + 1 := by
  have hzero : (ofText text).line? text 0 = none := rfl
  rw [lineCount_ofText]
  refine ⟨fun k => ?_, fun k line hline => ?_, ?_, length_splitOn_newline _⟩
  · cases k with
    | zero => simp [hzero]
    | succ k =>
      rw [line?_succ, Option.isSome_map, isSome_getElem?]
      omega
  · cases k with
    | zero => cases hzero.symm.trans hline
    | succ k =>
      rw [line?_succ, Option.map_eq_some_iff] at hline
      obtain ⟨chars, hchars, rfl⟩ := hline
      rw [String.toList_ofList]
      exact newline_not_mem_of_mem_splitOn (List.mem_of_getElem? hchars)
  · refine ⟨(text.toList.splitOn '\n').map String.ofList, ?_, ?_⟩
    · -- Line by line, the one numbered `k + 1` being at place `k`.
      apply List.ext_getElem
      · simp only [List.length_map, List.length_range']
      · intro k hk _
        have hlt : k < (text.toList.splitOn '\n').length := by simpa using hk
        have hnumber : 1 + k = k + 1 := Nat.add_comm 1 k
        simp only [List.getElem_map, List.getElem_range'_1]
        rw [hnumber, line?_succ, List.getElem?_eq_getElem hlt]
        rfl
    · have hchars : "\n".toList = ['\n'] := rfl
      apply String.toList_injective
      rw [String.toList_intercalate, hchars, List.map_map]
      have hlist : String.toList ∘ String.ofList = id := funext fun cs => String.toList_ofList
      rw [hlist, List.map_id, List.intercalate_splitOn]

end LineIndex

end FrameEscape
