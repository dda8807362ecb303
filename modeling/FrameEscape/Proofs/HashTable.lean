import FrameEscape.NameTable
import Mathlib.Data.List.AList
import Mathlib.Data.List.Induction
import Mathlib.Data.List.Sort

/-!
# Tables in no order

A `NameTable` keeps its entries in the order of their names. A hash table keeps them in an order
that says nothing, and any insertion may rearrange them. `HashTable.FilledBy` says what tables some
insertions may leave. They have the same look-ups, which are those of the `NameTable` of the
insertions, and so the same names and entries, in some order. A list of them that is sorted before
it is shown does not tell the order.
-/

namespace FrameEscape

/-- Entries of distinct names, in any order. -/
abbrev HashTable (α : Type) := AList fun _ : String => α

/-! ## Sorted lists do not tell the order -/

namespace Names

theorem sort_eq_of_perm {names names' : List String} (h : names.Perm names') :
    sort names = sort names' := by
  have hperm : (sort names).Perm (sort names') :=
    (sort_perm names).trans (h.trans (sort_perm names').symm)
  exact hperm.eq_of_pairwise (fun _ _ _ _ => String.le_antisymm) (sort_sorted names)
    (sort_sorted names')

/-- What is in order is left as it is. -/
theorem sort_eq_self {names : List String} (h : names.Pairwise (· ≤ ·)) : sort names = names :=
  (sort_perm names).eq_of_pairwise (fun _ _ _ _ => String.le_antisymm) (sort_sorted names) h

/-- The names without those that repeat the one before. -/
def dropRepeats : List String → List String
  | a :: b :: rest => if a = b then dropRepeats (b :: rest) else a :: dropRepeats (b :: rest)
  | names => names

@[simp] theorem mem_dropRepeats {name : String} {names : List String} :
    name ∈ dropRepeats names ↔ name ∈ names := by
  fun_induction dropRepeats names with
  | case1 b rest ih => simp [ih]
  | case2 a b rest _ ih => simp [ih]
  | case3 => rfl

theorem dropRepeats_sorted {names : List String} (h : names.Pairwise (· ≤ ·)) :
    (dropRepeats names).Pairwise (· < ·) := by
  fun_induction dropRepeats names with
  | case1 b rest ih => exact ih h.of_cons
  | case2 a b rest hne ih =>
    obtain ⟨hhead, htail⟩ := List.pairwise_cons.1 h
    -- The first name is before the second, and so before all that follows.
    have hab : a < b := Std.lt_of_le_of_ne (hhead b List.mem_cons_self) hne
    refine List.pairwise_cons.2 ⟨fun c hc => ?_, ih htail⟩
    rcases List.mem_cons.1 (mem_dropRepeats.1 hc) with rfl | hc
    · exact hab
    · exact Std.lt_of_lt_of_le hab ((List.pairwise_cons.1 htail).1 c hc)
  | case3 names hnames =>
    match names, hnames with
    | [], _ => exact .nil
    | [a], _ => exact List.pairwise_singleton _ a
    | a :: b :: rest, hnames => exact absurd rfl (hnames a b rest)

end Names

/-! ## Filling a table -/

/-- The entry that the last of some insertions makes for a name. -/
def lastEntry {α : Type} (calls : List (String × α)) (name : String) : Option α :=
  calls.reverse.lookup name

/-- The last entries of every name are the same. -/
def SameEntries {α : Type} (calls calls' : List (String × α)) : Prop :=
  ∀ name, lastEntry calls name = lastEntry calls' name

theorem lastEntry_concat {α : Type} (calls : List (String × α)) (name key : String) (a : α) :
    lastEntry (calls ++ [(name, a)]) key = if key = name then some a else lastEntry calls key := by
  rw [lastEntry, List.reverse_concat, NameTable.lookup_cons_ite, ← lastEntry]

namespace NameTable

variable {α : Type}

theorem get?_ofList (calls : List (String × α)) (name : String) :
    (ofList calls).get? name = lastEntry calls name := by
  induction calls using List.reverseRecOn with
  | nil => rfl
  | append_singleton calls call ih =>
    rw [lastEntry_concat, ← ih, ofList, List.foldl_concat, get?_insert]
    rfl

/-- Tables in order with the same look-ups are the same. -/
theorem ext_get? {table table' : NameTable α} (h : ∀ name, table.get? name = table'.get? name) :
    table = table' := by
  have hentries : table.entries = table'.entries := by
    refine table.sorted.eq_of_mem_iff table'.sorted fun e => ?_
    rw [← get?_eq_some_iff, ← get?_eq_some_iff, h]
  cases table
  cases table'
  cases hentries
  rfl

theorem ofList_eq_of_sameEntries {calls calls' : List (String × α)} (h : SameEntries calls calls') :
    ofList calls = ofList calls' :=
  ext_get? fun name => by rw [get?_ofList, get?_ofList, h name]

end NameTable

namespace HashTable

variable {α : Type} {table table' : HashTable α} {sorted : NameTable α}

/-- An entry has been made for the name, in place of the one there was, and the others may have
moved. -/
def Inserted (table : HashTable α) (name : String) (a : α) (table' : HashTable α) : Prop :=
  table'.entries.Perm (table.insert name a).entries

/-- The table may be what is left by the insertions, one after another. -/
inductive FilledBy : List (String × α) → HashTable α → Prop where
  | empty : FilledBy [] ∅
  | insert {calls table name a table'} (hfilled : FilledBy calls table)
    (hinserted : table.Inserted name a table') : FilledBy (calls ++ [(name, a)]) table'

theorem Inserted.lookup_eq {name : String} {a : α} (h : table.Inserted name a table')
    (key : String) : table'.lookup key = if key = name then some a else table.lookup key := by
  rw [AList.perm_lookup h]
  split
  next hkey =>
    subst hkey
    exact AList.lookup_insert table
  next hkey => exact AList.lookup_insert_ne hkey

/-- The hash table and the table in order have the same look-ups. -/
def Shows (table : HashTable α) (sorted : NameTable α) : Prop :=
  ∀ name, table.lookup name = sorted.get? name

theorem FilledBy.lookup_eq {calls : List (String × α)} (h : FilledBy calls table) (name : String) :
    table.lookup name = lastEntry calls name := by
  induction h with
  | empty => rfl
  | insert _ hinserted ih => rw [hinserted.lookup_eq, ih, lastEntry_concat]

theorem FilledBy.shows {calls : List (String × α)} (h : FilledBy calls table) :
    table.Shows (.ofList calls) := fun name => by
  rw [h.lookup_eq, NameTable.get?_ofList]

/-- The table that is left if every insertion puts its entry in front. -/
def ofList (calls : List (String × α)) : HashTable α :=
  calls.foldl (fun table call => table.insert call.1 call.2) ∅

theorem filledBy_ofList (calls : List (String × α)) : FilledBy calls (ofList calls) := by
  induction calls using List.reverseRecOn with
  | nil => exact .empty
  | append_singleton calls call ih =>
    rw [ofList, List.foldl_concat]
    exact ih.insert (.refl _)

theorem mem_keys_iff {name : String} : name ∈ table.keys ↔ ∃ a, table.lookup name = some a := by
  rw [← AList.mem_keys, ← AList.lookup_isSome, Option.isSome_iff_exists]

/-- The table lists the names of the one in order, in some order. -/
theorem Shows.keys_perm (h : table.Shows sorted) : table.keys.Perm sorted.names := by
  have hnodup : sorted.names.Nodup := sorted.names_sorted.imp String.ne_of_lt
  -- Neither list repeats a name, so it is enough that they have the same members.
  refine (List.perm_ext_iff_of_nodup table.keys_nodup hnodup).2 fun name => ?_
  rw [mem_keys_iff, NameTable.mem_names_iff, h name]

/-- The table lists the entries of the one in order, in some order. -/
theorem Shows.entries_perm (h : table.Shows sorted) :
    (table.entries.map fun e => (e.1, e.2)).Perm sorted.entries := by
  have hnodup : (table.entries.map fun e => (e.1, e.2)).Nodup :=
    (List.NodupKeys.nodup table.nodupKeys).map fun e e' heq => by
      cases e
      cases e'
      cases heq
      rfl
  have hsorted : sorted.entries.Nodup :=
    sorted.sorted.imp fun hlt heq => String.ne_of_lt hlt (congrArg Prod.fst heq)
  refine (List.perm_ext_iff_of_nodup hnodup hsorted).2 fun e => ?_
  rw [← NameTable.get?_eq_some_iff, ← h e.1, ← Option.mem_def, AList.mem_lookup_iff, List.mem_map]
  constructor
  · rintro ⟨e', he', rfl⟩
    exact he'
  · exact fun he => ⟨⟨e.1, e.2⟩, he, rfl⟩

/-- The names in order are those of the table in order. -/
theorem Shows.sort_keys (h : table.Shows sorted) : Names.sort table.keys = sorted.names := by
  rw [Names.sort_eq_of_perm h.keys_perm]
  exact Names.sort_eq_self (sorted.names_sorted.imp Std.le_of_lt)

end HashTable

end FrameEscape
