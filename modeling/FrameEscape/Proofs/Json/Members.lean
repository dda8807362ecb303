import FrameEscape.Json
import FrameEscape.NameTable
import Mathlib.Data.List.Forall2

/-!
# Members of objects

A reader that looks members up by their keys does not see their order, nor members with keys that
it does not know: it finds the same in an object as in one that `Extends` it.
-/

namespace FrameEscape

namespace Json

variable {members fields : List (String × Json)} {known : List String} {key : String} {value : Json}

@[simp]
theorem member?_nil : (obj []).member? key = none := rfl

@[simp]
theorem member?_append (members more : List (String × Json)) (key : String) :
    (obj (members ++ more)).member? key =
      ((obj more).member? key).or ((obj members).member? key) := by
  rw [member?, List.reverse_append, List.lookup_append]
  rfl

@[simp]
theorem member?_cons (member : String × Json) (members : List (String × Json)) (key : String) :
    (obj (member :: members)).member? key =
      ((obj members).member? key).or (if key = member.1 then some member.2 else none) := by
  have hsingle : (obj [member]).member? key = if key = member.1 then some member.2 else none :=
    NameTable.lookup_cons_ite key member []
  rw [← List.singleton_append, member?_append, hsingle]

/-- Members with other keys do not matter to a look-up. -/
theorem member?_filter (members : List (String × Json)) (hkey : key ∈ known) :
    (obj (members.filter (·.1 ∈ known))).member? key = (obj members).member? key := by
  induction members with
  | nil => rfl
  | cons member members ih =>
    rw [member?_cons]
    by_cases hmember : member.1 ∈ known
    · rw [List.filter_cons_of_pos (by simpa using hmember), member?_cons, ih]
    · have hne : key ≠ member.1 := fun h => hmember (h ▸ hkey)
      rw [List.filter_cons_of_neg (by simpa using hmember), ih, if_neg hne, Option.or_none]

/-- When no key is repeated, a look-up finds the one member with the key, wherever it is. -/
theorem member?_eq_some_iff (hnodup : (members.map (·.1)).Nodup) :
    (obj members).member? key = some value ↔ (key, value) ∈ members := by
  induction members generalizing value with
  | nil => simp [member?_nil]
  | cons member members ih =>
    obtain ⟨hfresh, hrest⟩ := List.nodup_cons.1 hnodup
    rw [member?_cons, List.mem_cons, Option.or_eq_some_iff, ih hrest]
    obtain ⟨key', value'⟩ := member
    by_cases hkey : key = key'
    · subst hkey
      have hnotin : ∀ value, (key, value) ∉ members := fun value hmem =>
        hfresh (List.mem_map.2 ⟨_, hmem, rfl⟩)
      have hmissing : (obj members).member? key = none := by
        rw [Option.eq_none_iff_forall_ne_some]
        exact fun other hother => hnotin other ((ih hrest).1 hother)
      simp [hmissing, hnotin, eq_comm]
    · simp [hkey]

/-- Among some members are the fields, in any order, and apart from them no member with a known
key. -/
def Extends (known : List String) (fields members : List (String × Json)) : Prop :=
  (members.filter (·.1 ∈ known)).Perm fields

theorem Extends.refl (h : ∀ field ∈ fields, field.1 ∈ known) : Extends known fields fields := by
  rw [Extends, List.filter_eq_self.2 (by simpa using h)]

theorem Extends.member? (h : Extends known fields members) (hnodup : (fields.map (·.1)).Nodup)
    (hkey : key ∈ known) : (obj members).member? key = (obj fields).member? key := by
  have hnodup' : ((members.filter (·.1 ∈ known)).map (·.1)).Nodup :=
    (h.map (·.1)).nodup_iff.2 hnodup
  ext value
  rw [← member?_filter members hkey, member?_eq_some_iff hnodup', member?_eq_some_iff hnodup,
    List.Perm.mem_iff h]

theorem Extends.member?_of_mem (h : Extends known fields members)
    (hnodup : (fields.map (·.1)).Nodup) (hkey : key ∈ known) (hmem : (key, value) ∈ fields) :
    (obj members).member? key = some value := by
  rw [h.member? hnodup hkey, member?_eq_some_iff hnodup]
  exact hmem

end Json

/-! ## Reading lists -/

/-- If each item is read as its value, then the list is read as the list of the values. -/
theorem mapM_eq_some {α β : Type} {f : α → Option β} {items : List α} {values : List β}
    (h : List.Forall₂ (fun item value => f item = some value) items values) :
    items.mapM f = some values := by
  induction h with
  | nil => rfl
  | cons hitem _ ih => simp [List.mapM_cons, hitem, ih]

theorem mapM_map {α β : Type} {f : α → Option β} {g : β → α} (h : ∀ value, f (g value) = some value)
    (values : List β) : (values.map g).mapM f = some values :=
  mapM_eq_some (List.forall₂_map_left_iff.2 (List.forall₂_same.2 fun value _ => h value))

end FrameEscape
