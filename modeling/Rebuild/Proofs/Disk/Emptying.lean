import Rebuild.Proofs.Disk.Recorded
import Rebuild.Proofs.Disk.Removing
import Rebuild.Proofs.Disk.Seeing

/-!
# Removing one thing at a time

A directory is removed with all that lies in it by single removals, in an order that
empties directories first. In any such order nothing ever hangs in the air, and what
has not been removed yet is as it was.

* `Disk.Emptying`: places whose removal, in order, removes a directory.
* `traces_removeAt`: the operation takes such an order.
* `Emptying.footing`, `Emptying.at?_eq`: what is left after some of the removals.
-/
namespace Rebuild.Disk
open DiskM DiskOp

/-- Places to be removed one after the other: all that lies at a place and below it, and no
directory before what is in it. -/
structure Emptying (place : Place) (d : Disk) (places : List Place) : Prop where
  below : ∀ p ∈ places, place <+: p
  complete : ∀ p, place <+: p → d.at? p ≠ none → p ∈ places
  order : places.Pairwise fun p q => ¬p <+: q

variable {d d' : Disk} {root : OsPath} {dir place : Place} {names : List Bytes}
  {places l : List Place}

theorem Emptying.of_perm (h : Emptying place d places) (hperm : l.Perm places)
    (horder : l.Pairwise fun p q => ¬p <+: q) : Emptying place d l :=
  ⟨fun p hp => h.below p (hperm.mem_iff.1 hp),
    fun p hp hsome => hperm.mem_iff.2 (h.complete p hp hsome), horder⟩

theorem Emptying.congr (h : Emptying place d places) (hat : ∀ q, d'.at? q = d.at? q) :
    Emptying place d' places :=
  ⟨h.below, fun p hp hsome => h.complete p hp (hat p ▸ hsome), h.order⟩

/-! ## What is left -/

theorem at?_applyAll_remove : ∀ {l : List Place} {d : Disk}, (∀ p ∈ l, p ≠ []) → ∀ q,
    (applyAll (l.map .remove) d).at? q = if q ∈ l then none else d.at? q
  | [], _, _, q => by
    rw [if_neg List.not_mem_nil]
    rfl
  | p :: l, d, h, q => by
    obtain ⟨hp, hl⟩ := List.forall_mem_cons.1 h
    rw [List.map_cons, applyAll_cons, at?_applyAll_remove hl, at?_apply_remove d hp]
    by_cases hmem : q ∈ l
    · rw [if_pos hmem, if_pos (List.mem_cons_of_mem p hmem)]
    · by_cases heq : q = p
      · rw [if_neg hmem, if_pos heq, if_pos (heq ▸ List.mem_cons_self)]
      · rw [if_neg hmem, if_neg heq, if_neg fun e => (List.mem_cons.1 e).elim heq hmem]

theorem Emptying.at?_eq (h : Emptying place d places) (hplace : place ≠ []) (hl : l <+: places)
    (q : Place) : (applyAll (l.map .remove) d).at? q = if q ∈ l then none else d.at? q :=
  at?_applyAll_remove (fun p hp e =>
    hplace (List.prefix_nil.1 (e ▸ h.below p (hl.subset hp)))) q

theorem Emptying.at?_of_not_below (h : Emptying place d places) (hplace : place ≠ [])
    (hl : l <+: places) {q : Place} (hq : ¬place <+: q) :
    (applyAll (l.map .remove) d).at? q = d.at? q := by
  rw [h.at?_eq hplace hl, if_neg fun e => hq (h.below q (hl.subset e))]

theorem Emptying.shrunk (h : Emptying place d places) (hplace : place ≠ []) (hl : l <+: places)
    (other : Place) : Shrunk other d (applyAll (l.map .remove) d) := by
  intro rest
  rw [h.at?_eq hplace hl]
  split
  · exact .inr rfl
  · exact .inl rfl

/-- When all is removed, nothing is left of the directory. -/
theorem Emptying.pruned (h : Emptying place d places) (hplace : place ≠ []) :
    Pruned place d (applyAll (places.map .remove) d) := by
  intro q
  rw [h.at?_eq hplace List.prefix_rfl]
  by_cases hq : place <+: q
  · rw [if_pos hq]
    split
    · rfl
    next hmem => exact Decidable.not_not.1 fun hsome => hmem (h.complete q hq hsome)
  · rw [if_neg hq, if_neg fun e => hq (h.below q e)]

theorem Footing.removed (h : d.Footing root dir) (hne : names ≠ [])
    (hnone : ∀ q, Place.Inside (dir ++ names) q → d.at? q = none) :
    ((DiskOp.remove (dir ++ names)).apply d).Footing root dir := by
  refine h.prune hne fun q => ?_
  rw [at?_apply_remove d (List.append_ne_nil_of_right_ne_nil dir hne)]
  by_cases hq : dir ++ names <+: q
  · rw [if_pos hq]
    obtain ⟨rest, rfl⟩ := hq
    split
    · rfl
    next hother =>
      have hrest : rest ≠ [] := fun e => hother (by rw [e, List.append_nil])
      exact hnone _ (inside_append _ hrest)
  · have hother : q ≠ dir ++ names := fun e => hq (e ▸ List.prefix_rfl)
    rw [if_neg hq, if_neg hother]

theorem Emptying.tail {p : Place} (h : Emptying place d (p :: places)) (hplace : place ≠ []) :
    Emptying place ((DiskOp.remove p).apply d) places := by
  have hp : p ≠ [] := fun e => hplace (List.prefix_nil.1 (e ▸ h.below p List.mem_cons_self))
  refine ⟨fun q hq => h.below q (List.mem_cons_of_mem p hq), fun q hq hsome => ?_,
    (List.pairwise_cons.1 h.order).2⟩
  rw [at?_apply_remove d hp] at hsome
  split at hsome
  · exact absurd rfl hsome
  next hne => exact (List.mem_cons.1 (h.complete q hq hsome)).resolve_left hne

theorem Emptying.at?_eq_none {p q : Place} (h : Emptying place d (p :: places))
    (hq : Place.Inside p q) : d.at? q = none := by
  obtain ⟨name, rest, rfl⟩ := hq
  have hbelow : p <+: p ++ name :: rest := List.prefix_append _ _
  refine Decidable.not_not.1 fun hsome => ?_
  rcases List.mem_cons.1 (h.complete _ ((h.below p List.mem_cons_self).trans hbelow) hsome)
    with heq | hlater
  · exact List.cons_ne_nil _ _ (List.append_right_eq_self.1 heq)
  · exact (List.pairwise_cons.1 h.order).1 _ hlater hbelow

/-- The footing is there after each removal, because what is removed is empty. -/
theorem Emptying.footing (hne : names ≠ []) : ∀ {l places : List Place} {d : Disk},
    Emptying (dir ++ names) d places → d.Footing root dir → l <+: places →
      (applyAll (l.map .remove) d).Footing root dir
  | [], _, _, _, hfooting, _ => hfooting
  | p :: l, [], _, _, _, hl => nomatch List.prefix_nil.1 hl
  | p :: l, first :: places, d, h, hfooting, hl => by
    obtain ⟨rfl, hrest⟩ := List.cons_prefix_cons.1 hl
    have hplace : dir ++ names ≠ [] := List.append_ne_nil_of_right_ne_nil dir hne
    have hnone {q : Place} (hq : Place.Inside p q) : d.at? q = none := h.at?_eq_none hq
    obtain ⟨more, hp⟩ := h.below p List.mem_cons_self
    rw [List.append_assoc] at hp
    refine (h.tail hplace).footing hne ?_ hrest
    rw [← hp] at hnone ⊢
    exact hfooting.removed (List.append_ne_nil_of_left_ne_nil hne more) fun q hq => hnone hq

/-! ## The order of the listing -/

theorem compare_of_isPrefix : ∀ {p q : Place}, p <+: q → compare p q ≠ .gt
  | [], [], _ => nofun
  | [], _ :: _, _ => nofun
  | name :: p, other :: q, h => by
    obtain ⟨rfl, hrest⟩ := List.cons_prefix_cons.1 h
    rw [List.compare_cons_cons, Std.ReflOrd.compare_self]
    exact compare_of_isPrefix hrest

theorem pairwise_below (d : Disk) (place : Place) :
    (d.below place).Pairwise fun a b => compare (place ++ a.1) (place ++ b.1) = .lt := by
  have hkey {e : Place × Item} {a : Place × Item} (ha : (if place.isPrefixOf e.1 && e.1 ≠ place then
      some (e.1.drop place.length, e.2) else none) = some a) : place ++ a.1 = e.1 := by
    split at ha
    next hbelow =>
      rw [Bool.and_eq_true, List.isPrefixOf_iff_prefix] at hbelow
      obtain ⟨⟨rest, heq⟩, -⟩ := hbelow
      cases ha
      rw [← heq, List.drop_left]
    next => cases ha
  unfold below
  rw [List.pairwise_filterMap]
  refine d.items.ascending.imp fun {e e'} hlt a ha b hb => ?_
  rw [hkey ha, hkey hb]
  exact hlt

/-- The places that a removal goes through. -/
def removalOrder (d : Disk) (place : Place) : List Place :=
  (d.below place).reverse.map (fun e => place ++ e.1) ++ [place]

theorem emptying_removalOrder (d : Disk) (place : Place) :
    Emptying place d (removalOrder d place) := by
  unfold removalOrder
  refine ⟨fun p hp => ?_, fun p hp hsome => ?_, ?_⟩
  · rcases List.mem_append.1 hp with hp | hp
    · obtain ⟨e, -, rfl⟩ := List.mem_map.1 hp
      exact List.prefix_append _ _
    · exact List.mem_singleton.1 hp ▸ List.prefix_rfl
  · obtain ⟨rest, rfl⟩ := hp
    by_cases hrest : rest = []
    · exact List.mem_append_right _ (List.mem_singleton.2 (by rw [hrest, List.append_nil]))
    · obtain ⟨item, hitem⟩ := Option.ne_none_iff_exists'.1 hsome
      have hmem := mem_below.2 ⟨hrest, hitem⟩
      exact List.mem_append_left _ (List.mem_map.2 ⟨_, List.mem_reverse.2 hmem, rfl⟩)
  · rw [List.pairwise_append, List.pairwise_map, List.pairwise_reverse]
    refine ⟨(pairwise_below d place).imp fun {a b} hlt hinitial => ?_,
      List.pairwise_singleton _ _, ?_⟩
    · exact compare_of_isPrefix hinitial (Std.OrientedCmp.gt_of_lt hlt)
    · intro p hp q hq hinitial
      obtain ⟨e, he, rfl⟩ := List.mem_map.1 hp
      rw [List.mem_singleton.1 hq] at hinitial
      have hne := (mem_below.1 (show (e.1, e.2) ∈ _ from List.mem_reverse.1 he)).1
      have hlength := hinitial.length_le
      have hpos := List.length_pos_iff.2 hne
      rw [List.length_append] at hlength
      omega

/-! ## The operation -/

theorem traces_forIn_change {ε γ : Type} (op : γ → DiskOp) : ∀ (l : List γ) (d : Disk),
    (forIn l PUnit.unit fun a _ => do
      change (op a)
      pure (.yield ⟨⟩) : DiskM ε PUnit).Traces d fun result ops =>
        result = .ok ⟨⟩ ∧ ops = l.map op
  | [], d => by
    rw [List.forIn_nil]
    exact traces_pure ⟨rfl, rfl⟩
  | a :: l, d => by
    rw [List.forIn_cons]
    refine .bind (p := fun result ops => result = .ok (.yield ⟨⟩) ∧ ops = [op a])
      (.change_bind (traces_pure ⟨rfl, rfl⟩)) ?_ fun _ _ hd => nomatch hd.1
    intro step ops ⟨hstep, hops⟩
    cases hstep
    subst hops
    refine (traces_forIn_change op l _).mono fun result ops ⟨hok, hops⟩ => ⟨hok, ?_⟩
    rw [hops]
    rfl

theorem traces_removeAt (d : Disk) (place : Place) :
    (removeAt place).Traces d fun result ops =>
      result = .ok () ∧ ops = (removalOrder d place).map .remove := by
  refine .disk_bind ?_
  refine .bind (traces_forIn_change (fun e : Place × Item => DiskOp.remove (place ++ e.1)) _ d)
    ?_ fun _ _ hd => nomatch hd.1
  intro _ ops ⟨_, hops⟩
  refine traces_change ⟨rfl, ?_⟩
  rw [hops, removalOrder, List.map_append, List.map_map]
  rfl

theorem traces_removeTree (h : d.Footing root dir) (hnames : ∀ name ∈ names, OsPath.IsName name)
    (hne : names ≠ []) :
    (removeTree (OsPath.below root names)).Traces d fun result ops =>
      ((∃ e, result = .error e) ∧ ops = []) ∨
        (result = .ok () ∧ ops = (removalOrder d (dir ++ names)).map .remove) := by
  refine .ask_bind (fun found hfound => ?_) fun e _ => .inl ⟨⟨e, rfl⟩, rfl⟩
  obtain ⟨rfl, -⟩ := h.resolve_below hnames hne hfound
  dsimp only
  split
  next => exact (traces_removeAt d _).mono fun _ _ hd => .inr hd
  next target hlink => exact absurd hlink (h.linkless _ _ (inside_append dir hne))
  next => exact traces_throw (.inl ⟨⟨_, rfl⟩, rfl⟩)
  next => exact traces_throw (.inl ⟨⟨_, rfl⟩, rfl⟩)

end Rebuild.Disk
