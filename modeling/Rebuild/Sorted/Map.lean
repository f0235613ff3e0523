import Rebuild.Sorted.Assoc

/-!
# Sorted maps

A finite map with its entries in ascending order of their keys. Two maps with the same look-ups are
equal (`SortedMap.ext_get?`), so equality of maps is equality of contents and the entry list is
canonical.
-/
namespace Rebuild
open Std

/-- A finite map, held as the list of its entries by ascending key. -/
structure SortedMap (κ ν : Type) [Ord κ] where
  entries : List (κ × ν)
  ascending : Assoc.Ascending entries := by exact Assoc.ascending_nil

namespace SortedMap

variable {κ ν : Type} [Ord κ]

instance : EmptyCollection (SortedMap κ ν) := ⟨⟨[], Assoc.ascending_nil⟩⟩
instance : Inhabited (SortedMap κ ν) := ⟨∅⟩

theorem ext_entries {m n : SortedMap κ ν} (h : m.entries = n.entries) : m = n := by
  cases m; cases n; cases h; rfl

instance [DecidableEq κ] [DecidableEq ν] : DecidableEq (SortedMap κ ν) := fun m n =>
  decidable_of_iff (m.entries = n.entries) ⟨ext_entries, fun h => h ▸ rfl⟩

/-- The value at a key. -/
def get? (m : SortedMap κ ν) (k : κ) : Option ν := Assoc.find? k m.entries

/-- Whether a key has a value. -/
def contains (m : SortedMap κ ν) (k : κ) : Bool := (m.get? k).isSome

/-- The number of entries. -/
def size (m : SortedMap κ ν) : Nat := m.entries.length

def isEmpty (m : SortedMap κ ν) : Bool := m.entries.isEmpty

/-- The keys, ascending. -/
def keys (m : SortedMap κ ν) : List κ := m.entries.map Prod.fst

/-- The values, by ascending key. -/
def values (m : SortedMap κ ν) : List ν := m.entries.map Prod.snd

/-- Removes the entry of a key. -/
def erase (m : SortedMap κ ν) (k : κ) : SortedMap κ ν :=
  ⟨Assoc.drop k m.entries, Assoc.ascending_drop k m.ascending⟩

/-- Keeps the entries that pass a test. -/
def filter (m : SortedMap κ ν) (keep : κ → ν → Bool) : SortedMap κ ν :=
  ⟨m.entries.filter fun e => keep e.1 e.2, Assoc.ascending_filter _ m.ascending⟩

@[simp] theorem get?_empty (k : κ) : (∅ : SortedMap κ ν).get? k = none := rfl

theorem get?_erase [LawfulEqOrd κ] (m : SortedMap κ ν) (k j : κ) :
    (m.erase k).get? j = if compare j k = .eq then none else m.get? j := Assoc.find?_drop k j _

theorem mem_keys [LawfulEqOrd κ] (m : SortedMap κ ν) (k : κ) :
    k ∈ m.keys ↔ m.contains k = true := by
  simp only [keys, contains, get?, List.mem_map, Prod.exists, exists_and_right, exists_eq_right,
    Option.isSome_iff_exists, Assoc.mem_iff_find? m.ascending]

variable [TransOrd κ]

/-- Sets the value at a key. -/
def insert (m : SortedMap κ ν) (k : κ) (v : ν) : SortedMap κ ν :=
  ⟨Assoc.put k v m.entries, Assoc.ascending_put k v m.ascending⟩

/-- The map with the given entries; of two for one key the later counts. -/
def ofList (l : List (κ × ν)) : SortedMap κ ν := l.foldl (fun m e => m.insert e.1 e.2) ∅

variable [LawfulEqOrd κ]

theorem get?_insert (m : SortedMap κ ν) (k j : κ) (v : ν) :
    (m.insert k v).get? j = if compare j k = .eq then some v else m.get? j :=
  Assoc.find?_put k j v _

@[simp] theorem get?_insert_self (m : SortedMap κ ν) (k : κ) (v : ν) :
    (m.insert k v).get? k = some v := by
  simp [get?_insert]

theorem get?_insert_of_ne {m : SortedMap κ ν} {k j : κ} {v : ν} (h : j ≠ k) :
    (m.insert k v).get? j = m.get? j := by
  simp [get?_insert, h]

omit [TransOrd κ] in
theorem mem_entries_iff (m : SortedMap κ ν) (k : κ) (v : ν) :
    (k, v) ∈ m.entries ↔ m.get? k = some v :=
  Assoc.mem_iff_find? m.ascending k v

omit [TransOrd κ] in
theorem get?_filter (m : SortedMap κ ν) (keep : κ → ν → Bool) (k : κ) :
    (m.filter keep).get? k = (m.get? k).filter (keep k) := by
  refine Option.ext fun v => ?_
  rw [← mem_entries_iff, Option.filter_eq_some_iff, ← mem_entries_iff]
  simp [filter, List.mem_filter]

/-- Maps with the same look-ups are equal. -/
theorem ext_get? {m n : SortedMap κ ν} (h : ∀ k, m.get? k = n.get? k) : m = n :=
  ext_entries (Assoc.ext_of_find? m.ascending n.ascending h)

/-- Setting the entries of an ascending list one by one: they count before those already there. -/
theorem get?_foldl_insert (k : κ) : ∀ (l : List (κ × ν)) (m : SortedMap κ ν), Assoc.Ascending l →
    (l.foldl (fun m e => m.insert e.1 e.2) m).get? k = (Assoc.find? k l <|> m.get? k)
  | [], m, _ => by simp [Assoc.find?]
  | (k', v) :: l, m, h => by
    have hd := List.pairwise_cons.1 h
    rw [List.foldl_cons, get?_foldl_insert k l _ hd.2, get?_insert, Assoc.find?]
    by_cases hk : compare k k' = .eq
    · have : k = k' := LawfulEqOrd.eq_of_compare hk
      subst this
      rw [Assoc.find?_eq_none_of_lt hd.1, if_pos hk, if_pos hk]; rfl
    · rw [if_neg hk, if_neg hk]

/-- The map of an ascending list answers look-ups as the list does. -/
theorem get?_ofList {l : List (κ × ν)} (h : Assoc.Ascending l) (k : κ) :
    (ofList l).get? k = Assoc.find? k l := by
  rw [ofList, get?_foldl_insert k l _ h, get?_empty]
  cases Assoc.find? k l <;> rfl

@[simp] theorem ofList_entries (m : SortedMap κ ν) : ofList m.entries = m :=
  ext_get? fun k => get?_ofList m.ascending k

end SortedMap

end Rebuild
