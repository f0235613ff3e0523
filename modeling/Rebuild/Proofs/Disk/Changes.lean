import Rebuild.Proofs.Disk.Walk
import Rebuild.Disk.Action
import Std.Data.String.ToNat

/-!
# What changes do to the items

The items after a file was overwritten or something was moved, what is listed
below a place, and names that are not taken.

* `DiskOp.at?_apply_overwrite`, `DiskOp.at?_apply_move_below`,
  `DiskOp.at?_apply_move_elsewhere`: what lies where afterwards.
* `Disk.mem_below`, `Disk.mem_children`: what is listed.
* `Disk.at?_freshName`: nothing has a fresh name.
-/
namespace Rebuild

namespace Disk

theorem at?_of_ne_nil (d : Disk) {p : Place} (hp : p ≠ []) : d.at? p = d.items.get? p := if_neg hp

/-! ## Listings -/

theorem mem_below {d : Disk} {p q : Place} {item : Item} :
    (q, item) ∈ d.below p ↔ q ≠ [] ∧ d.at? (p ++ q) = some item := by
  unfold below
  rw [List.mem_filterMap]
  refine ⟨?_, fun ⟨hq, hitem⟩ => ⟨(p ++ q, item), ?_, ?_⟩⟩
  · intro ⟨(r, found), hmem, heq⟩
    dsimp only at heq
    split at heq
    next hbelow =>
      rw [Bool.and_eq_true, List.isPrefixOf_iff_prefix, decide_eq_true_eq] at hbelow
      obtain ⟨⟨rest, rfl⟩, hne⟩ := hbelow
      rw [List.drop_left] at heq
      cases heq
      have hrest : q ≠ [] := fun e => hne (by rw [e, List.append_nil])
      refine ⟨hrest, ?_⟩
      rw [at?_of_ne_nil d fun e => hrest (List.append_eq_nil_iff.1 e).2]
      exact (SortedMap.mem_entries_iff _ _ _).1 hmem
    next => cases heq
  · rw [at?_of_ne_nil d fun e => hq (List.append_eq_nil_iff.1 e).2] at hitem
    exact (SortedMap.mem_entries_iff _ _ _).2 hitem
  · have hbelow : (p.isPrefixOf (p ++ q) && decide (p ++ q ≠ p)) = true := by
      rw [Bool.and_eq_true, List.isPrefixOf_iff_prefix, decide_eq_true_eq]
      exact ⟨List.prefix_append p q, fun e => hq (List.append_right_eq_self.1 e)⟩
    dsimp only
    rw [if_pos hbelow, List.drop_left]

theorem mem_children {d : Disk} {p : Place} {name : Bytes} {item : Item} :
    (name, item) ∈ d.children p ↔ d.at? (p ++ [name]) = some item := by
  unfold children
  rw [List.mem_filterMap]
  refine ⟨?_, fun hitem => ⟨([name], item), ?_, rfl⟩⟩
  · intro ⟨(q, found), hmem, heq⟩
    dsimp only at heq
    split at heq
    next => cases heq; exact (mem_below.1 hmem).2
    next => cases heq
  · exact mem_below.2 ⟨List.cons_ne_nil _ _, hitem⟩

/-! ## Fresh names -/

/-- Zeros in front do not change what the digits stand for. -/
theorem ofDigitChars_sixDigits (n : Nat) : Nat.ofDigitChars 10 (sixDigits n) 0 = n := by
  unfold sixDigits List.leftpad
  rw [Nat.ofDigitChars_append, Nat.ofDigitChars_replicate_zero, Nat.mul_zero]
  exact Nat.ofDigitChars_toDigits (by decide) (by decide)

theorem numbered_injective (stem : String) {m n : Nat} (h : numbered stem m = numbered stem n) :
    m = n := by
  have htext := congrArg String.toList (Bytes.ofText_injective h)
  rw [String.toList_append, String.toList_append, String.toList_ofList, String.toList_ofList]
    at htext
  rw [← ofDigitChars_sixDigits m, List.append_cancel_left htext, ofDigitChars_sixDigits]

/-- There are more numbers to try than items, so one of the names is free. -/
theorem at?_freshName (d : Disk) (dir : Place) (stem : String) :
    d.at? (dir ++ [d.freshName dir stem]) = none := by
  let place (n : Nat) : Place := dir ++ [numbered stem n]
  show d.at? (place (((List.range (d.items.size + 1)).find? fun n =>
    d.at? (place n) = none).getD 0)) = none
  cases hfound : (List.range (d.items.size + 1)).find? fun n => d.at? (place n) = none with
  | some n =>
    have hfree := List.find?_some hfound
    rw [decide_eq_true_eq] at hfree
    exact hfree
  | none =>
    exfalso
    have htaken : ∀ n ∈ List.range (d.items.size + 1), place n ∈ d.items.keys := by
      intro n hn
      have hsome := List.find?_eq_none.1 hfound n hn
      rw [decide_eq_true_eq, at?_of_ne_nil d (List.append_ne_nil_of_right_ne_nil _ (by simp))]
        at hsome
      rw [SortedMap.mem_keys]
      exact Option.isSome_iff_ne_none.2 hsome
    have hinjective {m n : Nat} (h : place m = place n) : m = n :=
      numbered_injective stem (List.head_eq_of_cons_eq (List.append_cancel_left h))
    have hnodup : ((List.range (d.items.size + 1)).map place).Nodup := by
      unfold List.Nodup
      rw [List.pairwise_map]
      exact List.nodup_range.imp fun hne heq => hne (hinjective heq)
    have hlength := hnodup.length_le_of_subset fun p hp => by
      obtain ⟨n, hn, rfl⟩ := List.mem_map.1 hp
      exact htaken n hn
    rw [List.length_map, List.length_range] at hlength
    have hsize : d.items.keys.length = d.items.size := List.length_map _
    omega

end Disk

/-! ## Moving -/

/-- Setting entries under other keys: what is found at a key was set last, or was there before. -/
theorem SortedMap.get?_foldl_insert_map {κ ν : Type} [Ord κ] [Std.TransOrd κ] [Std.LawfulEqOrd κ]
    (f : κ → κ) (k : κ) : ∀ (l : List (κ × ν)) (m : SortedMap κ ν),
    (∃ e ∈ l, f e.1 = k ∧ (l.foldl (fun m e => m.insert (f e.1) e.2) m).get? k = some e.2) ∨
      ((∀ e ∈ l, f e.1 ≠ k) ∧
        (l.foldl (fun m e => m.insert (f e.1) e.2) m).get? k = m.get? k)
  | [], m => .inr ⟨fun e he => (List.not_mem_nil he).elim, rfl⟩
  | e :: l, m => by
    rw [List.foldl_cons]
    rcases get?_foldl_insert_map f k l (m.insert (f e.1) e.2) with ⟨e', he', hk, hget⟩ | ⟨hk, hget⟩
    · exact .inl ⟨e', List.mem_cons_of_mem _ he', hk, hget⟩
    · by_cases he : f e.1 = k
      · refine .inl ⟨e, List.mem_cons_self, he, ?_⟩
        rw [hget, he, get?_insert_self]
      · refine .inr ⟨?_, ?_⟩
        · intro e' he'
          rcases List.mem_cons.1 he' with rfl | he'
          · exact he
          · exact hk e' he'
        · rw [hget, get?_insert_of_ne (Ne.symm he)]

namespace DiskOp

theorem at?_apply_overwrite (d : Disk) {p : Place} (hp : p ≠ []) {serial : Nat} {old : Bytes}
    (h : d.at? p = some (.file serial old)) (content : Bytes) (q : Place) :
    ((overwrite p content).apply d).at? q =
      if q = p then some (.file serial content) else d.at? q := by
  have happly : (overwrite p content).apply d =
      { d with items := d.items.insert p (.file serial content) } := by
    unfold apply
    simp only [h]
  rw [happly]
  exact d.at?_insert hp _ q

section Moving

variable (d : Disk) {source target : Place}

theorem items_apply_move (q : Place) :
    (∃ rest item, q = target ++ rest ∧ d.items.get? (source ++ rest) = some item ∧
      ((move source target).apply d).items.get? q = some item) ∨
    ((∀ rest, q = target ++ rest → d.items.get? (source ++ rest) = none) ∧
      ((move source target).apply d).items.get? q =
        if source <+: q ∨ q = target then none else d.items.get? q) := by
  have hitems : ((move source target).apply d).items =
      (d.items.entries.filter fun e => source.isPrefixOf e.1).foldl
        (fun items e => items.insert (target ++ e.1.drop source.length) e.2)
        (d.items.filter fun q _ => !source.isPrefixOf q && q ≠ target) := by
    rw [← d.items_keepContent target]
    rfl
  rw [hitems]
  rcases SortedMap.get?_foldl_insert_map (fun p : Place => target ++ p.drop source.length) q
    (d.items.entries.filter fun e => source.isPrefixOf e.1)
    (d.items.filter fun q _ => !source.isPrefixOf q && q ≠ target)
    with ⟨⟨p, item⟩, hmem, hq, hget⟩ | ⟨hnone, hget⟩
  · obtain ⟨hmem, hinitial⟩ := List.mem_filter.1 hmem
    obtain ⟨rest, rfl⟩ := List.isPrefixOf_iff_prefix.1 hinitial
    rw [List.drop_left] at hq
    exact .inl ⟨rest, item, hq.symm, (SortedMap.mem_entries_iff _ _ _).1 hmem, hget⟩
  · refine .inr ⟨?_, ?_⟩
    · intro rest hq
      cases hitem : d.items.get? (source ++ rest) with
      | none => rfl
      | some item =>
        have hmem := (SortedMap.mem_entries_iff _ _ _).2 hitem
        refine absurd ?_ (hnone _ (List.mem_filter.2
          ⟨hmem, List.isPrefixOf_iff_prefix.2 (List.prefix_append _ _)⟩))
        rw [List.drop_left, hq]
    · rw [hget, SortedMap.get?_filter]
      by_cases h : source <+: q ∨ q = target
      · rw [if_pos h]
        refine Option.filter_eq_none_iff.2 ?_
        intro item _
        rcases h with h | h
        · simp [List.isPrefixOf_iff_prefix.2 h]
        · simp [h]
      · rw [if_neg h]
        have hkeep : (!source.isPrefixOf q && decide (q ≠ target)) = true := by
          rw [Bool.and_eq_true, Bool.not_eq_true', decide_eq_true_eq,
            ← Bool.not_eq_true, List.isPrefixOf_iff_prefix]
          exact ⟨fun e => h (.inl e), fun e => h (.inr e)⟩
        cases d.items.get? q with
        | none => rfl
        | some item => rw [Option.filter_some, if_pos hkeep]

/-- What was moved lies where it was moved to, if nothing lay below there before. -/
theorem at?_apply_move_below (hsource : source ≠ []) (htarget : target ≠ [])
    (hbelow : ∀ place, target.Inside place → d.at? place = none) (rest : Place) :
    ((move source target).apply d).at? (target ++ rest) = d.at? (source ++ rest) := by
  have hne {p : Place} (hp : p ≠ []) : p ++ rest ≠ [] := List.append_ne_nil_of_left_ne_nil hp rest
  rw [Disk.at?_of_ne_nil _ (hne htarget), Disk.at?_of_ne_nil _ (hne hsource)]
  rcases @items_apply_move d source target (target ++ rest) with
    ⟨rest', item, hq, hitem, hget⟩ | ⟨hnone, hget⟩
  · cases List.append_cancel_left hq
    rw [hget, hitem]
  · rw [hget, hnone rest rfl]
    split
    · rfl
    next h =>
      cases rest with
      | nil => exact absurd (.inr (List.append_nil _)) h
      | cons name names =>
        rw [← Disk.at?_of_ne_nil _ (hne htarget)]
        exact hbelow _ ⟨name, names, rfl⟩

/-- Where nothing was moved to, nothing is left of what was moved, and the rest is as it was. -/
theorem at?_apply_move_elsewhere (hsource : source ≠ []) {q : Place}
    (hq : ¬target <+: q) :
    ((move source target).apply d).at? q = if source <+: q then none else d.at? q := by
  by_cases hnil : q = []
  · subst hnil
    rw [Disk.at?_nil, if_neg fun e => hsource (List.prefix_nil.1 e), Disk.at?_nil]
  · rw [Disk.at?_of_ne_nil _ hnil, Disk.at?_of_ne_nil _ hnil]
    rcases @items_apply_move d source target q with ⟨rest, item, rfl, -, -⟩ | ⟨-, hget⟩
    · exact absurd (List.prefix_append _ _) hq
    · have hne : q ≠ target := fun e => hq (e ▸ List.prefix_refl _)
      rw [hget]
      simp only [hne, or_false]

end Moving

end DiskOp

end Rebuild
