import FrameEscape.Names

/-!
# Tables indexed by name

A table is a list of entries in strictly increasing order of their names. So every name has
at most one entry, two tables with the same look-ups are equal, and the order in which
entries were made cannot be observed.
-/

namespace FrameEscape

/-- Entries in strictly increasing order of their names. -/
structure NameTable (α : Type) where
  entries : List (String × α)
  sorted : entries.Pairwise (·.1 < ·.1)

namespace NameTable

variable {α : Type}

/-- The table with no entry. -/
def empty : NameTable α := ⟨[], .nil⟩

/-- Put an entry in its place, over the earlier one of the same name if there is one. -/
def insertEntry (name : String) (a : α) : List (String × α) → List (String × α)
  | [] => [(name, a)]
  | (n, b) :: rest =>
    if name < n then (name, a) :: (n, b) :: rest
    else if name = n then (name, a) :: rest
    else (n, b) :: insertEntry name a rest

theorem eq_or_mem_of_mem_insertEntry {name : String} {a : α} {e : String × α}
    {entries : List (String × α)} (h : e ∈ insertEntry name a entries) :
    e = (name, a) ∨ e ∈ entries := by
  induction entries with
  | nil => exact .inl (List.mem_singleton.1 h)
  | cons b rest ih =>
    unfold insertEntry at h
    split at h
    · exact List.mem_cons.1 h
    · split at h
      · exact (List.mem_cons.1 h).imp_right (List.mem_cons_of_mem _)
      · rcases List.mem_cons.1 h with rfl | h
        · exact .inr List.mem_cons_self
        · exact (ih h).imp_right (List.mem_cons_of_mem _)

theorem insertEntry_sorted (name : String) (a : α) {entries : List (String × α)}
    (sorted : entries.Pairwise (·.1 < ·.1)) :
    (insertEntry name a entries).Pairwise (·.1 < ·.1) := by
  induction entries with
  | nil => exact List.pairwise_singleton _ _
  | cons b rest ih =>
    obtain ⟨head, tail⟩ := List.pairwise_cons.1 sorted
    unfold insertEntry
    split
    next before =>
      refine List.pairwise_cons.2 ⟨fun c hc => ?_, sorted⟩
      rcases List.mem_cons.1 hc with rfl | hc
      · exact before
      · exact String.lt_trans before (head c hc)
    next notBefore =>
      split
      next eq => exact List.pairwise_cons.2 ⟨fun c hc => eq ▸ head c hc, tail⟩
      next ne =>
        refine List.pairwise_cons.2 ⟨fun c hc => ?_, ih tail⟩
        rcases eq_or_mem_of_mem_insertEntry hc with rfl | hc
        · exact Names.lt_of_not_lt_of_ne notBefore ne
        · exact head c hc

/-- The table with an entry for the name, in place of the earlier one if there was one. -/
def insert (table : NameTable α) (name : String) (a : α) : NameTable α :=
  ⟨insertEntry name a table.entries, insertEntry_sorted name a table.sorted⟩

/-- The table of some entries, of which the last one of each name counts. -/
def ofList (entries : List (String × α)) : NameTable α :=
  entries.foldl (fun table e => table.insert e.1 e.2) empty

/-- The entry of a name. -/
def get? (table : NameTable α) (name : String) : Option α := table.entries.lookup name

/-- The names that have an entry, in order. -/
def names (table : NameTable α) : List String := table.entries.map (·.1)

/-- The number of entries. -/
def size (table : NameTable α) : Nat := table.entries.length

/-- Whether there is no entry. -/
def isEmpty (table : NameTable α) : Bool := table.entries.isEmpty

theorem names_sorted (table : NameTable α) : table.names.Pairwise (· < ·) :=
  List.pairwise_map.2 table.sorted

theorem lookup_cons_ite (key : String) (e : String × α) (rest : List (String × α)) :
    (e :: rest).lookup key = if key = e.1 then some e.2 else rest.lookup key := by
  rw [List.lookup_cons]
  by_cases h : key = e.1
  · simp [h]
  · simp [h, beq_false_of_ne h]

/-- The names of some entries are those that a look-up finds. -/
theorem mem_map_fst_iff {entries : List (String × α)} {name : String} :
    name ∈ entries.map (·.1) ↔ ∃ a, entries.lookup name = some a := by
  induction entries with
  | nil => simp
  | cons e rest ih =>
    rw [List.map_cons, List.mem_cons, ih, lookup_cons_ite]
    by_cases h : name = e.1
    · simp [h]
    · simp [h]

theorem mem_names_iff {table : NameTable α} {name : String} :
    name ∈ table.names ↔ ∃ a, table.get? name = some a :=
  mem_map_fst_iff

/-- What is found under a name is what the table holds for it. -/
theorem get?_eq_some_iff {table : NameTable α} {name : String} {a : α} :
    table.get? name = some a ↔ (name, a) ∈ table.entries := by
  obtain ⟨entries, sorted⟩ := table
  unfold get?
  induction entries with
  | nil => simp
  | cons e rest ih =>
    obtain ⟨hhead, htail⟩ := List.pairwise_cons.1 sorted
    rw [lookup_cons_ite, List.mem_cons]
    split
    next hname =>
      -- A later entry has a greater name.
      have hlater : (e.1, a) ∉ rest := fun hmem =>
        String.lt_irrefl _ (hhead (e.1, a) hmem)
      subst hname
      simp only [hlater, or_false, Option.some.injEq, Prod.ext_iff, true_and]
      exact eq_comm
    next hname =>
      have hne : (name, a) ≠ e := fun heq => hname (congrArg Prod.fst heq)
      rw [ih htail]
      simp [hne]

theorem get?_insert (table : NameTable α) (name key : String) (a : α) :
    (table.insert name a).get? key = if key = name then some a else table.get? key := by
  show (insertEntry name a table.entries).lookup key = _
  unfold get?
  induction table.entries with
  | nil => rw [insertEntry, lookup_cons_ite]
  | cons b rest ih =>
    unfold insertEntry
    split
    · rw [lookup_cons_ite]
    · split
      next eq =>
        subst eq
        rw [lookup_cons_ite, lookup_cons_ite]
        by_cases h : key = b.1 <;> simp [h]
      next ne =>
        rw [lookup_cons_ite, lookup_cons_ite, ih]
        by_cases h : key = b.1
        · rw [if_pos h, if_neg (fun eq => ne (eq.symm.trans h)), if_pos h]
        · rw [if_neg h, if_neg h]

end NameTable

end FrameEscape
