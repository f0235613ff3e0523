import Rebuild.Sorted.Map

/-!
# Sorted sets

A finite set with its members in ascending order. Sets with the same members are equal
(`SortedSet.ext_mem`), so the member list is canonical.
-/
namespace Rebuild
open Std

/-- A finite set: a map that gives each member nothing. -/
structure SortedSet (κ : Type) [Ord κ] where
  map : SortedMap κ Unit := ∅

namespace SortedSet

variable {κ : Type} [Ord κ]

instance : EmptyCollection (SortedSet κ) := ⟨⟨∅⟩⟩
instance : Inhabited (SortedSet κ) := ⟨∅⟩

instance [DecidableEq κ] : DecidableEq (SortedSet κ) := fun s t =>
  decidable_of_iff (s.map = t.map) ⟨fun h => by cases s; cases t; cases h; rfl, fun h => h ▸ rfl⟩

/-- The members, ascending. -/
def toList (s : SortedSet κ) : List κ := s.map.keys

def contains (s : SortedSet κ) (k : κ) : Bool := s.map.contains k

instance : Membership κ (SortedSet κ) := ⟨fun s k => s.contains k = true⟩

instance (s : SortedSet κ) (k : κ) : Decidable (k ∈ s) :=
  inferInstanceAs (Decidable (s.contains k = true))

/-- The number of members. -/
def size (s : SortedSet κ) : Nat := s.map.size

def isEmpty (s : SortedSet κ) : Bool := s.map.isEmpty

def erase (s : SortedSet κ) (k : κ) : SortedSet κ := ⟨s.map.erase k⟩

variable [TransOrd κ]

def insert (s : SortedSet κ) (k : κ) : SortedSet κ := ⟨s.map.insert k ()⟩

/-- The set of the members of a list. -/
def ofList (l : List κ) : SortedSet κ := l.foldl insert ∅

def union (s t : SortedSet κ) : SortedSet κ := t.toList.foldl insert s

variable [LawfulEqOrd κ]

theorem contains_insert (s : SortedSet κ) (k j : κ) :
    (s.insert k).contains j = (compare j k == .eq || s.contains j) := by
  simp only [contains, insert, SortedMap.contains, SortedMap.get?_insert]
  by_cases h : compare j k = .eq <;> simp [h]

omit [TransOrd κ] in
theorem contains_erase (s : SortedSet κ) (k j : κ) :
    (s.erase k).contains j = (compare j k != .eq && s.contains j) := by
  simp only [contains, erase, SortedMap.contains, SortedMap.get?_erase]
  by_cases h : compare j k = .eq <;> simp [h]

omit [TransOrd κ] in
theorem mem_toList (s : SortedSet κ) (k : κ) : k ∈ s.toList ↔ k ∈ s := by
  show k ∈ s.map.entries.map Prod.fst ↔ (s.map.get? k).isSome = true
  simp only [List.mem_map, Prod.exists, exists_and_right, exists_eq_right, Option.isSome_iff_exists,
    SortedMap.mem_entries_iff]

omit [TransOrd κ] in
/-- No member is listed twice. -/
theorem pairwise_toList (s : SortedSet κ) : s.toList.Pairwise (· ≠ ·) := by
  refine List.pairwise_map.2 (s.map.ascending.imp fun {a b} hlt heq => ?_)
  rw [heq, ReflOrd.compare_self] at hlt
  cases hlt

omit [TransOrd κ] [LawfulEqOrd κ] in
@[simp] theorem not_mem_empty (k : κ) : k ∉ (∅ : SortedSet κ) := Bool.false_ne_true

@[simp] theorem mem_insert (s : SortedSet κ) (k j : κ) : j ∈ s.insert k ↔ j = k ∨ j ∈ s := by
  show (s.insert k).contains j = true ↔ _
  rw [contains_insert, Bool.or_eq_true, beq_iff_eq, LawfulEqOrd.compare_eq_iff_eq]
  rfl

omit [TransOrd κ] in
@[simp] theorem mem_erase (s : SortedSet κ) (k j : κ) : j ∈ s.erase k ↔ j ≠ k ∧ j ∈ s := by
  show (s.erase k).contains j = true ↔ _
  rw [contains_erase, Bool.and_eq_true, bne_iff_ne, ne_eq, LawfulEqOrd.compare_eq_iff_eq]
  rfl

theorem mem_foldl_insert (l : List κ) (s : SortedSet κ) (k : κ) :
    k ∈ l.foldl insert s ↔ k ∈ s ∨ k ∈ l := by
  induction l generalizing s with
  | nil => simp
  | cons a l ih =>
    rw [List.foldl_cons, ih, mem_insert, List.mem_cons, or_comm (b := k ∈ s), or_assoc]

@[simp] theorem mem_ofList (l : List κ) (k : κ) : k ∈ ofList l ↔ k ∈ l := by
  simp [ofList, mem_foldl_insert]

@[simp] theorem mem_union (s t : SortedSet κ) (k : κ) : k ∈ s.union t ↔ k ∈ s ∨ k ∈ t := by
  rw [union, mem_foldl_insert, mem_toList]

/-- Sets with the same members are equal. -/
theorem ext_mem {s t : SortedSet κ} (h : ∀ k, k ∈ s ↔ k ∈ t) : s = t := by
  have : s.map = t.map := SortedMap.ext_get? fun k => by
    have hk : (s.map.get? k).isSome = true ↔ (t.map.get? k).isSome = true := h k
    cases hs : s.map.get? k <;> cases ht : t.map.get? k <;> simp_all
  cases s; cases t; cases this; rfl

@[simp] theorem ofList_toList (s : SortedSet κ) : ofList s.toList = s :=
  ext_mem fun k => by rw [mem_ofList, mem_toList]

end SortedSet

end Rebuild
