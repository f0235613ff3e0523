/-!
# Ascending association lists

Finite maps kept as lists of pairs with strictly ascending keys. The functions here work on the
bare list, so that an inductive type can hold such a list of its own values; `Rebuild.SortedMap`
bundles the list with its order.

* `Ascending`: the keys are strictly ascending.
* `put`, `drop`: set or remove the entry of one key; both keep `Ascending`.
* `find?`: the value at a key, with `find?_put` and `find?_drop`.
* `ext_of_find?`: ascending lists that answer every look-up alike are the same list.
-/
namespace Rebuild.Assoc
open Std

variable {κ ν : Type} [Ord κ]

/-- The keys are strictly ascending. -/
def Ascending (l : List (κ × ν)) : Prop := l.Pairwise fun a b => compare a.1 b.1 = .lt

instance (l : List (κ × ν)) : Decidable (Ascending l) :=
  inferInstanceAs (Decidable (List.Pairwise _ l))

/-- The value at a key. -/
def find? (k : κ) : List (κ × ν) → Option ν
  | [] => none
  | (k', v) :: rest => if compare k k' = .eq then some v else find? k rest

/-- Sets the value at a key; an entry already there is replaced. -/
def put (k : κ) (v : ν) : List (κ × ν) → List (κ × ν)
  | [] => [(k, v)]
  | (k', v') :: rest =>
    match compare k k' with
    | .lt => (k, v) :: (k', v') :: rest
    | .eq => (k, v) :: rest
    | .gt => (k', v') :: put k v rest

/-- Removes the entry of a key. -/
def drop (k : κ) (l : List (κ × ν)) : List (κ × ν) := l.filter fun e => compare k e.1 != .eq

theorem mem_put {k : κ} {v : ν} {e : κ × ν} {l : List (κ × ν)} (h : e ∈ put k v l) :
    e = (k, v) ∨ e ∈ l := by
  induction l with
  | nil => simpa [put] using h
  | cons hd tl ih =>
    obtain ⟨k', v'⟩ := hd
    rw [put] at h
    split at h <;> grind

theorem ascending_nil : Ascending ([] : List (κ × ν)) := .nil

theorem ascending_put [TransOrd κ] (k : κ) (v : ν) {l : List (κ × ν)} (h : Ascending l) :
    Ascending (put k v l) := by
  induction l with
  | nil => simp [put, Ascending]
  | cons hd tl ih =>
    obtain ⟨k', v'⟩ := hd
    have hd := List.pairwise_cons.1 h
    rw [put]
    split
    next hlt =>
      exact h.cons fun e he => by
        rcases List.mem_cons.1 he with rfl | he
        · exact hlt
        · exact TransCmp.lt_trans hlt (hd.1 e he)
    next heq => exact hd.2.cons fun e he => TransCmp.lt_of_eq_of_lt heq (hd.1 e he)
    next hgt =>
      refine (ih hd.2).cons fun e he => ?_
      rcases mem_put he with rfl | he
      · exact OrientedCmp.lt_of_gt hgt
      · exact hd.1 e he

theorem ascending_drop (k : κ) {l : List (κ × ν)} (h : Ascending l) : Ascending (drop k l) :=
  h.filter _

theorem ascending_filter (p : κ × ν → Bool) {l : List (κ × ν)} (h : Ascending l) :
    Ascending (l.filter p) := h.filter _

theorem find?_eq_none_of_lt {k : κ} {l : List (κ × ν)} (h : ∀ e ∈ l, compare k e.1 = .lt) :
    find? k l = none := by
  induction l with
  | nil => rfl
  | cons hd tl ih =>
    have h1 := h hd (by simp)
    simp [find?, h1, ih fun e he => h e (by simp [he])]

variable [LawfulEqOrd κ]

theorem find?_put (k j : κ) (v : ν) (l : List (κ × ν)) :
    find? j (put k v l) = if compare j k = .eq then some v else find? j l := by
  induction l with
  | nil => simp [put, find?]
  | cons hd tl ih =>
    obtain ⟨k', v'⟩ := hd
    rw [put]
    split
    next => simp [find?]
    next heq =>
      have : k = k' := LawfulEqOrd.eq_of_compare heq
      subst this
      by_cases hj : compare j k = .eq <;> simp [find?, hj]
    next hgt =>
      simp only [find?, ih]
      by_cases hj : compare j k' = .eq
      · have : j = k' := LawfulEqOrd.eq_of_compare hj
        subst this
        have hne : compare j k ≠ .eq := fun he => by
          rw [LawfulEqOrd.eq_of_compare he, ReflOrd.compare_self] at hgt; cases hgt
        simp [hne]
      · simp [hj]

theorem find?_drop (k j : κ) (l : List (κ × ν)) :
    find? j (drop k l) = if compare j k = .eq then none else find? j l := by
  induction l with
  | nil => simp [drop, find?]
  | cons hd tl ih =>
    obtain ⟨k', v'⟩ := hd
    simp only [drop, List.filter_cons] at ih ⊢
    by_cases hk : compare k k' = .eq
    · have : k = k' := LawfulEqOrd.eq_of_compare hk
      subst this
      simp only [ReflOrd.compare_self, bne_self_eq_false, Bool.false_eq_true, ↓reduceIte, find?, ih]
      by_cases hj : compare j k = .eq <;> simp [hj]
    · simp only [bne_iff_ne, ne_eq, hk, not_false_eq_true, ↓reduceIte, find?, ih]
      by_cases hj : compare j k' = .eq
      · have : j = k' := LawfulEqOrd.eq_of_compare hj
        subst this
        have hne : compare j k ≠ .eq := fun he => hk (by
          rw [LawfulEqOrd.eq_of_compare he]; exact ReflOrd.compare_self)
        simp [hne]
      · simp [hj]

theorem mem_iff_find? {l : List (κ × ν)} (h : Ascending l) (k : κ) (v : ν) :
    (k, v) ∈ l ↔ find? k l = some v := by
  induction l with
  | nil => simp [find?]
  | cons hd tl ih =>
    obtain ⟨k', v'⟩ := hd
    have hd := List.pairwise_cons.1 h
    rw [List.mem_cons, ih hd.2, find?]
    by_cases hk : compare k k' = .eq
    · have : k = k' := LawfulEqOrd.eq_of_compare hk
      subst this
      rw [find?_eq_none_of_lt hd.1]
      simp [eq_comm]
    · have : k ≠ k' := fun he => hk (he ▸ ReflOrd.compare_self)
      simp [hk, this]

/-- An ascending list is determined by its look-ups. -/
theorem ext_of_find? [TransOrd κ] {l m : List (κ × ν)} (hl : Ascending l) (hm : Ascending m)
    (h : ∀ k, find? k l = find? k m) : l = m := by
  induction l generalizing m with
  | nil =>
    cases m with
    | nil => rfl
    | cons hd tl => have := h hd.1; simp [find?] at this
  | cons hd tl ih =>
    obtain ⟨k, v⟩ := hd
    have hl' := List.pairwise_cons.1 hl
    cases m with
    | nil => have := h k; simp [find?] at this
    | cons hd' tl' =>
      obtain ⟨k', v'⟩ := hd'
      have hm' := List.pairwise_cons.1 hm
      have hk : k = k' := by
        rcases hc : compare k k' with _ | _ | _
        · have := h k
          rw [find?_eq_none_of_lt (l := (k', v') :: tl')] at this
          · simp [find?] at this
          · intro e he
            rcases List.mem_cons.1 he with rfl | he
            · exact hc
            · exact TransCmp.lt_trans hc (hm'.1 e he)
        · exact LawfulEqOrd.eq_of_compare hc
        · have hc' := OrientedCmp.lt_of_gt hc
          have := h k'
          rw [find?_eq_none_of_lt (l := (k, v) :: tl)] at this
          · simp [find?] at this
          · intro e he
            rcases List.mem_cons.1 he with rfl | he
            · exact hc'
            · exact TransCmp.lt_trans hc' (hl'.1 e he)
      subst hk
      have hv : v = v' := by have := h k; simpa [find?] using this
      subst hv
      congr 1
      refine ih hl'.2 hm'.2 fun j => ?_
      by_cases hj : compare j k = .eq
      · have : j = k := LawfulEqOrd.eq_of_compare hj
        subst this
        rw [find?_eq_none_of_lt hl'.1, find?_eq_none_of_lt hm'.1]
      · have := h j
        simpa [find?, hj] using this

end Rebuild.Assoc
