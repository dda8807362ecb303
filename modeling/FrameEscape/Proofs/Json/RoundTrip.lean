import FrameEscape.Proofs.Json.Number

/-!
# Reading what values are written as

Reading undoes writing, in every layout that adds nothing but blanks between tokens. The reader
goes character by character, so each part of a written value is a run of characters that brings
the parser from one state to another: `Takes` if it does so whatever follows, `Moves` if what
follows has to end a word.
-/

namespace FrameEscape

namespace Json

/-! ## Reading goes character by character -/

/-- The value that a reader comes to when these characters are all that is left. -/
def Reader.read? (reader : Reader) (cs : List Char) : Option Json :=
  (cs.foldlM step reader).bind result?

theorem ofText?_eq (text : String) : ofText? text = Reader.start.read? text.toList := rfl

/-- The characters do not go on with a word. -/
def Ends (cs : List Char) : Prop := ∀ c ∈ cs.head?, Lexer.isWordChar c = false

/-- The parser goes from one state to another by the characters, whatever follows them. -/
def Takes (parser : Parser) (cs : List Char) (next : Parser) : Prop :=
  ∀ rest, Reader.read? ⟨.between, parser⟩ (cs ++ rest) = Reader.read? ⟨.between, next⟩ rest

/-- The parser goes from one state to another by the characters, if what follows them does not go
on with a word. -/
def Moves (parser : Parser) (cs : List Char) (next : Parser) : Prop :=
  ∀ rest, Ends rest →
    Reader.read? ⟨.between, parser⟩ (cs ++ rest) = Reader.read? ⟨.between, next⟩ rest

variable {parser middle next : Parser} {cs cs' : List Char}

theorem read?_cons (reader : Reader) (c : Char) (cs : List Char) :
    reader.read? (c :: cs) = (reader.step c).bind (·.read? cs) := by
  simp only [Reader.read?, List.foldlM_cons, Option.bind_eq_bind, Option.bind_assoc]

theorem Takes.trans (h : Takes parser cs middle) (h' : Takes middle cs' next) :
    Takes parser (cs ++ cs') next := by
  intro rest
  rw [List.append_assoc, h, h']

theorem Moves.takes (h : Moves parser cs middle) (h' : Takes middle cs' next)
    (hends : ∀ rest, Ends (cs' ++ rest)) : Takes parser (cs ++ cs') next := by
  intro rest
  rw [List.append_assoc, h _ (hends rest), h']

theorem Takes.toMoves (h : Takes parser cs next) : Moves parser cs next :=
  fun rest _ => h rest

/-! ## Blanks and punctuation -/

/-- What may stand between tokens. -/
def Blank (cs : List Char) : Prop := ∀ c ∈ cs, c ∈ [' ', '\t', '\n', '\r']

theorem takes_blank (parser : Parser) (h : Blank cs) : Takes parser cs parser := by
  intro rest
  induction cs with
  | nil => rfl
  | cons c cs ih =>
    rw [List.cons_append, read?_cons]
    have hstep : Reader.step ⟨.between, parser⟩ c = some ⟨.between, parser⟩ := by
      have hc : c ∈ [' ', '\t', '\n', '\r'] := h c List.mem_cons_self
      simp only [List.mem_cons, List.not_mem_nil, or_false] at hc
      rcases hc with rfl | rfl | rfl | rfl <;> rfl
    rw [hstep, Option.bind_some]
    exact ih fun c hc => h c (List.mem_cons_of_mem _ hc)

theorem takes_token {c : Char} {token : Token} (hword : Lexer.isWordChar c = false)
    (hstep : Lexer.stepBetween c = some (.between, [token])) (h : parser.step token = some next) :
    Takes parser [c] next := by
  intro rest
  have hreader : Reader.step ⟨.between, parser⟩ c = some ⟨.between, next⟩ := by
    simp [Reader.step, Lexer.step, hword, hstep, h]
  rw [List.singleton_append, read?_cons, hreader, Option.bind_some]

/-! ## Words -/

theorem read?_word (parser : Parser) (letters word rest : List Char)
    (hword : ∀ c ∈ word, Lexer.isWordChar c = true) :
    Reader.read? ⟨.word letters, parser⟩ (word ++ rest) =
      Reader.read? ⟨.word (word.reverse ++ letters), parser⟩ rest := by
  induction word generalizing letters with
  | nil => rfl
  | cons c word ih =>
    have hstep : Reader.step ⟨.word letters, parser⟩ c = some ⟨.word (c :: letters), parser⟩ := by
      simp [Reader.step, Lexer.step, hword c List.mem_cons_self]
    rw [List.cons_append, read?_cons, hstep, Option.bind_some,
      ih _ fun c hc => hword c (List.mem_cons_of_mem _ hc), List.reverse_cons, List.append_assoc]
    rfl

/-- The end of a word makes it a token, at the character after it or at the end of the text. -/
theorem read?_endOfWord {letters rest : List Char} {value : Json}
    (hvalue : word? letters.reverse = some value) (h : parser.step (.scalar value) = some next)
    (hrest : Ends rest) :
    Reader.read? ⟨.word letters, parser⟩ rest = Reader.read? ⟨.between, next⟩ rest := by
  cases rest with
  | nil => simp [Reader.read?, Reader.result?, Lexer.finish?, hvalue, h]
  | cons c rest =>
    have hc : Lexer.isWordChar c = false := hrest c rfl
    rw [read?_cons, read?_cons]
    congr 1
    simp only [Reader.step, Lexer.step, hc, hvalue]
    cases Lexer.stepBetween c with
    | none => rfl
    | some step => simp [h]

theorem moves_word {word : List Char} {value : Json} (hne : word ≠ [])
    (hword : ∀ c ∈ word, Lexer.isWordChar c = true) (hvalue : word? word = some value)
    (h : parser.step (.scalar value) = some next) : Moves parser word next := by
  intro rest hrest
  cases word with
  | nil => exact absurd rfl hne
  | cons c word =>
    have hstep : Reader.step ⟨.between, parser⟩ c = some ⟨.word [c], parser⟩ := by
      simp [Reader.step, Lexer.step, hword c List.mem_cons_self]
    rw [List.cons_append, read?_cons, hstep, Option.bind_some,
      read?_word _ _ _ _ fun c hc => hword c (List.mem_cons_of_mem _ hc)]
    refine read?_endOfWord ?_ h hrest
    rw [List.reverse_append, List.reverse_reverse]
    exact hvalue

/-! ## Strings -/

theorem hexValue?_hexDigit {n : Nat} (h : n < 16) : Lexer.hexValue? (hexDigit n) = some n := by
  have hall : ∀ n < 16, Lexer.hexValue? (hexDigit n) = some n := by decide
  exact hall n h

/-- The four digits of a control character are read as the character. -/
theorem read?_unicode (parser : Parser) (letters : List Char) {c : Char} (hc : c.toNat < 0x20)
    (rest : List Char) :
    Reader.read? ⟨.unicode letters none 0 3, parser⟩
        ('0' :: '0' :: hexDigit (c.toNat / 16) :: hexDigit (c.toNat % 16) :: rest) =
      Reader.read? ⟨.text (c :: letters), parser⟩ rest := by
  have hhigh := hexValue?_hexDigit (n := c.toNat / 16) (by omega)
  have hlow := hexValue?_hexDigit (n := c.toNat % 16) (by omega)
  have hvalue : 16 * (c.toNat / 16) + c.toNat % 16 = c.toNat := Nat.div_add_mod _ _
  have hzero : Lexer.hexValue? '0' = some 0 := rfl
  have hend : Lexer.endUnicode letters none c.toNat = some (.text (c :: letters)) := by
    rw [Lexer.endUnicode, if_neg (by omega), if_neg (by omega), Char.ofNat_toNat]
  simp [read?_cons, Reader.step, Lexer.step, hzero, hhigh, hlow, hvalue, hend]

/-- The escape of a character is read as the character. -/
theorem read?_escape (parser : Parser) (letters : List Char) (c : Char) (rest : List Char) :
    Reader.read? ⟨.text letters, parser⟩ (escape c ++ rest) =
      Reader.read? ⟨.text (c :: letters), parser⟩ rest := by
  unfold escape
  split
  case h_8 hquote hslash _ _ _ _ _ =>
    split
    next hcontrol =>
      rw [← read?_unicode parser letters hcontrol rest]
      rfl
    next hplain =>
      have hstep : Reader.step ⟨.text letters, parser⟩ c = some ⟨.text (c :: letters), parser⟩ := by
        have hq : c ≠ '"' := hquote
        have hs : c ≠ '\\' := hslash
        simp [Reader.step, Lexer.step, hplain, hq, hs]
      rw [List.singleton_append, read?_cons, hstep, Option.bind_some]
  all_goals rfl

theorem read?_escapes (parser : Parser) (letters cs rest : List Char) :
    Reader.read? ⟨.text letters, parser⟩ (cs.flatMap escape ++ rest) =
      Reader.read? ⟨.text (cs.reverse ++ letters), parser⟩ rest := by
  induction cs generalizing letters with
  | nil => rfl
  | cons c cs ih =>
    rw [List.flatMap_cons, List.append_assoc, read?_escape, ih, List.reverse_cons,
      List.append_assoc]
    rfl

theorem takes_quote {s : String} (h : parser.step (.str s) = some next) :
    Takes parser (quote s).toList next := by
  intro rest
  have hopen : Reader.step ⟨.between, parser⟩ '"' = some ⟨.text [], parser⟩ := rfl
  have hclose : Reader.step ⟨.text s.toList.reverse, parser⟩ '"' = some ⟨.between, next⟩ := by
    simp [Reader.step, Lexer.step, h]
  have hquote : (quote s).toList = '"' :: (s.toList.flatMap escape ++ ['"']) := by
    simp [quote]
  rw [hquote, List.cons_append, read?_cons, hopen, Option.bind_some, List.append_assoc,
    read?_escapes, List.append_nil, List.singleton_append, read?_cons, hclose, Option.bind_some]

/-! ## Values -/

/-- The parser takes any token as the start of a value in the containers, but for the end of an
array. -/
def Awaits (parser : Parser) (outer : List Container) : Prop :=
  ∀ token, token ≠ .closeArray → parser.step token = Parser.stepValue outer token

theorem awaits_value (outer : List Container) : Awaits (.value outer) outer := fun _ _ => rfl

theorem awaits_arrayStart (outer : List Container) :
    Awaits (.arrayStart outer) (.array [] :: outer) := by
  intro token hne
  cases token <;> first | rfl | exact absurd rfl hne

/-- Nothing but blanks is added between tokens, and a colon stands behind each key. -/
structure Layout.Spaced (layout : Layout) : Prop where
  newline : ∀ depth, Blank (layout.newline depth).toList
  colon : ∃ gap, Blank gap ∧ layout.colon.toList = ':' :: gap

theorem spaced_compact : Layout.compact.Spaced :=
  ⟨fun _ => by simp [Layout.compact, Blank], [], by simp [Blank], rfl⟩

theorem spaced_pretty : Layout.pretty.Spaced := by
  refine ⟨fun depth c hc => ?_, [' '], by simp [Blank], rfl⟩
  simp [Layout.pretty] at hc
  rcases hc with rfl | ⟨-, rfl⟩ <;> decide

theorem intText_ne_nil (n : Int) : (intText n).toList ≠ [] := by
  obtain ⟨c, cs, hcs, -⟩ := exists_intText_cons n
  simp [hcs]

/-! What stands behind a value, a comma or the end of its container, ends a word. -/

theorem not_isWordChar_of_blank {c : Char} (h : c ∈ [' ', '\t', '\n', '\r']) :
    Lexer.isWordChar c = false := by
  simp only [List.mem_cons, List.not_mem_nil, or_false] at h
  rcases h with rfl | rfl | rfl | rfl <;> rfl

theorem ends_blank {close : List Char} {c : Char} (hclose : Blank close)
    (hc : Lexer.isWordChar c = false) (rest : List Char) : Ends (close ++ c :: rest) := by
  intro d hd
  cases close with
  | nil =>
    cases hd
    exact hc
  | cons b close =>
    cases hd
    exact not_isWordChar_of_blank (hclose _ List.mem_cons_self)

theorem ends_items (layout : Layout) (depth : Nat) (items : List Json) {close : List Char}
    (hclose : Blank close) (rest : List Char) :
    Ends ((writeItems layout depth items).toList ++ close ++ [']'] ++ rest) := by
  cases items with
  | nil =>
    simpa [writeItems] using ends_blank hclose (c := ']') rfl rest
  | cons item items =>
    intro d hd
    simp [writeItems] at hd
    subst hd
    rfl

theorem ends_members (layout : Layout) (depth : Nat) (members : List (String × Json))
    {close : List Char} (hclose : Blank close) (rest : List Char) :
    Ends ((writeMembers layout depth members).toList ++ close ++ ['\x7d'] ++ rest) := by
  cases members with
  | nil =>
    simpa [writeMembers] using ends_blank hclose (c := '\x7d') rfl rest
  | cons member members =>
    intro d hd
    simp [writeMembers] at hd
    subst hd
    rfl

/-! ## The writer, value by value

In an array `done` holds the items before the value that is complete, the latest first, and in an
object the members. The three statements go along with the three writers. -/

theorem takes_key {layout : Layout} (hlayout : layout.Spaced) {outer : List Container}
    {members : List (String × Json)} {key : String}
    (h : parser.step (.str key) = some (.colon outer members key)) :
    Takes parser ((quote key).toList ++ layout.colon.toList)
      (.value (.object members key :: outer)) := by
  obtain ⟨gap, hgap, hcolon⟩ := hlayout.colon
  rw [hcolon]
  refine (takes_quote h).trans ?_
  exact (takes_token (c := ':') rfl rfl rfl).trans (takes_blank _ hgap)

mutual

theorem moves_write {layout : Layout} (hlayout : layout.Spaced) (depth : Nat) {parser : Parser}
    {outer : List Container} (h : Awaits parser outer) :
    ∀ json : Json, Moves parser (json.write layout depth).toList (.complete outer json)
  | .null => by
    rw [write]
    exact moves_word (by decide) (List.all_eq_true.1 rfl) rfl (h _ (by simp))
  | .bool true => by
    rw [write]
    exact moves_word (by decide) (List.all_eq_true.1 rfl) rfl (h _ (by simp))
  | .bool false => by
    rw [write]
    exact moves_word (by decide) (List.all_eq_true.1 rfl) rfl (h _ (by simp))
  | .int n => by
    rw [write]
    exact moves_word (intText_ne_nil n) (fun _ => isWordChar_of_mem_intText) (word?_intText n)
      (h _ (by simp))
  | .decimal mantissa exponent => by
    rw [write]
    refine moves_word ?_ ?_ (word?_decimal mantissa exponent) (h _ (by simp))
    · simp
    · intro c hc
      simp only [String.toList_append, List.mem_append] at hc
      rcases hc with (hc | hc) | hc
      · exact isWordChar_of_mem_intText hc
      · cases List.mem_singleton.1 hc
        rfl
      · exact isWordChar_of_mem_intText hc
  | .str s => by
    rw [write]
    exact (takes_quote (h _ (by simp))).toMoves
  | .arr [] => by
    have hopen : parser.step .openArray = some (.arrayStart outer) := h _ (by simp)
    rw [write]
    exact ((takes_token (c := '[') rfl rfl hopen).trans
      (takes_token (c := ']') rfl rfl rfl)).toMoves
  | .arr (item :: rest) => by
    have hopen : parser.step .openArray = some (.arrayStart outer) := h _ (by simp)
    have hblank : Blank (layout.newline (depth + 1)).toList := hlayout.newline _
    have hitem := moves_write hlayout (depth + 1) (awaits_arrayStart outer) item
    have hrest := takes_writeItems hlayout (depth + 1) (hlayout.newline depth) outer [] item rest
    have hends := ends_items layout (depth + 1) rest (hlayout.newline depth)
    have hall := ((takes_token (c := '[') rfl rfl hopen).trans (takes_blank _ hblank)).trans
      (hitem.takes hrest hends)
    simpa [write] using hall.toMoves
  | .obj [] => by
    have hopen : parser.step .openObject = some (.objectStart outer) := h _ (by simp)
    rw [write]
    exact ((takes_token (c := '\x7b') rfl rfl hopen).trans
      (takes_token (c := '\x7d') rfl rfl rfl)).toMoves
  | .obj ((key, value) :: rest) => by
    have hopen : parser.step .openObject = some (.objectStart outer) := h _ (by simp)
    have hblank : Blank (layout.newline (depth + 1)).toList := hlayout.newline _
    have hkey : Takes (.objectStart outer) ((quote key).toList ++ layout.colon.toList)
        (.value (.object [] key :: outer)) := takes_key hlayout rfl
    have hvalue := moves_write hlayout (depth + 1) (awaits_value (.object [] key :: outer)) value
    have hrest :=
      takes_writeMembers hlayout (depth + 1) (hlayout.newline depth) outer [] key value rest
    have hends := ends_members layout (depth + 1) rest (hlayout.newline depth)
    have hall := (((takes_token (c := '\x7b') rfl rfl hopen).trans (takes_blank _ hblank)).trans
      hkey).trans (hvalue.takes hrest hends)
    simpa [write] using hall.toMoves

theorem takes_writeItems {layout : Layout} (hlayout : layout.Spaced) (depth : Nat)
    {close : List Char} (hclose : Blank close) (outer : List Container) (done : List Json)
    (item : Json) :
    ∀ items : List Json, Takes (.complete (.array done :: outer) item)
      ((writeItems layout depth items).toList ++ close ++ [']'])
      (.complete outer (.arr (done.reverse ++ item :: items)))
  | [] => by
    have hend : Parser.step (.complete (.array done :: outer) item) .closeArray =
        some (.complete outer (.arr (done.reverse ++ [item]))) := by
      simp [Parser.step, Parser.stepComplete]
    have hall := (takes_blank _ hclose).trans (takes_token (c := ']') rfl rfl hend)
    simpa [writeItems] using hall
  | next :: items => by
    have hblank : Blank (layout.newline depth).toList := hlayout.newline _
    have hnext := moves_write hlayout depth (awaits_value (.array (item :: done) :: outer)) next
    have hitems := takes_writeItems hlayout depth hclose outer (item :: done) next items
    have hends := ends_items layout depth items hclose
    have hcomma : Takes (.complete (.array done :: outer) item) [',']
        (.value (.array (item :: done) :: outer)) := takes_token rfl rfl rfl
    have hall := (hcomma.trans (takes_blank _ hblank)).trans (hnext.takes hitems hends)
    simpa [writeItems] using hall

theorem takes_writeMembers {layout : Layout} (hlayout : layout.Spaced) (depth : Nat)
    {close : List Char} (hclose : Blank close) (outer : List Container)
    (done : List (String × Json)) (key : String) (value : Json) :
    ∀ members : List (String × Json), Takes (.complete (.object done key :: outer) value)
      ((writeMembers layout depth members).toList ++ close ++ ['\x7d'])
      (.complete outer (.obj (done.reverse ++ (key, value) :: members)))
  | [] => by
    have hend : Parser.step (.complete (.object done key :: outer) value) .closeObject =
        some (.complete outer (.obj (done.reverse ++ [(key, value)]))) := by
      simp [Parser.step, Parser.stepComplete]
    have hall := (takes_blank _ hclose).trans (takes_token (c := '\x7d') rfl rfl hend)
    simpa [writeMembers] using hall
  | (key', value') :: members => by
    have hblank : Blank (layout.newline depth).toList := hlayout.newline _
    have hcomma : Takes (.complete (.object done key :: outer) value) [',']
        (.key outer ((key, value) :: done)) := takes_token rfl rfl rfl
    have hkey : Takes (.key outer ((key, value) :: done))
        ((quote key').toList ++ layout.colon.toList)
        (.value (.object ((key, value) :: done) key' :: outer)) := takes_key hlayout rfl
    have hnext :=
      moves_write hlayout depth (awaits_value (.object ((key, value) :: done) key' :: outer)) value'
    have hmembers :=
      takes_writeMembers hlayout depth hclose outer ((key, value) :: done) key' value' members
    have hends := ends_members layout depth members hclose
    have hall := ((hcomma.trans (takes_blank _ hblank)).trans hkey).trans
      (hnext.takes hmembers hends)
    simpa [writeMembers] using hall

end

/-! ## Whole texts -/

theorem ofText?_write {layout : Layout} (hlayout : layout.Spaced) (json : Json) :
    ofText? (json.write layout 0) = some json := by
  have hmoves := moves_write hlayout 0 (awaits_value []) json [] (by simp [Ends])
  rw [List.append_nil] at hmoves
  rw [ofText?_eq]
  exact hmoves

theorem ofText?_compact (json : Json) : ofText? json.compact = some json :=
  ofText?_write spaced_compact json

theorem ofText?_pretty (json : Json) : ofText? json.pretty = some json :=
  ofText?_write spaced_pretty json

end Json

end FrameEscape
