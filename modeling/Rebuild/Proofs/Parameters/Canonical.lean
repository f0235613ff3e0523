import Rebuild.Proofs.Fingerprint.Agreement
import Rebuild.Proofs.Json.Compact
import Rebuild.Proofs.Parameters.Inside

/-!
# Digests of values are canonical

The text whose digest stands for a block of parameters is the compact spelling of the canonical
form. Where no floating point numbers occur, texts are therefore the same exactly if the values mean
the same, whatever the order of entries. There is no text exactly if some value inside cannot be
written.

* `Parameter.Reordered`, `meaning_of_reordered`: the order of entries with distinct keys, at any
  depth, does not count.
* `Parameter.canonicalText_eq_iff`: texts and meanings correspond.
* `Fingerprint.parameters_canonical`: what this says of fingerprints.
-/
namespace Rebuild

namespace Parameter

/-! ## The order of entries -/

/-- What surrounds a value directly inside another. -/
inductive Surrounding where
  | some
  | newtype
  | item (before after : List Parameter)
  | entry (before : List (Parameter × Parameter)) (key : Parameter)
      (after : List (Parameter × Parameter))
  | field (before : List (String × Parameter)) (name : String) (after : List (String × Parameter))
  | variant (name : String)
  | variantItem (name : String) (before after : List Parameter)
  | variantField (name : String) (before : List (String × Parameter)) (key : String)
      (after : List (String × Parameter))

/-- The whole value. -/
def Surrounding.fill (v : Parameter) : Surrounding → Parameter
  | .some => .some v
  | .newtype => .newtype v
  | .item before after => .sequence (before ++ v :: after)
  | .entry before key after => .map (before ++ (key, v) :: after)
  | .field before name after => .record (before ++ (name, v) :: after)
  | .variant name => .newtypeVariant name v
  | .variantItem name before after => .tupleVariant name (before ++ v :: after)
  | .variantField name before key after => .recordVariant name (before ++ (key, v) :: after)

/-- No two entries have keys of the same text. -/
def DistinctKeys (entries : List (Parameter × Parameter)) : Prop :=
  entries.Pairwise fun a b => ∀ s, a.1.key = .ok s → b.1.key ≠ .ok s

/-- A value and one in which the entries of maps, at any depth, are in another order. -/
inductive Reordered : Parameter → Parameter → Prop
  | refl (v : Parameter) : Reordered v v
  | entries {l l' : List (Parameter × Parameter)} :
      DistinctKeys l → l.Perm l' → Reordered (.map l) (.map l')
  | inside {v w : Parameter} (s : Surrounding) : Reordered v w → Reordered (s.fill v) (s.fill w)
  | trans {u v w : Parameter} : Reordered u v → Reordered v w → Reordered u w

section
variable {v w : Parameter}

theorem itemMeanings_congr (h : v.meaning = w.meaning) (before after : List Parameter) :
    itemMeanings (before ++ v :: after) = itemMeanings (before ++ w :: after) := by
  induction before with
  | nil => simp only [List.nil_append, itemMeanings, h]
  | cons u before ih => simp only [List.cons_append, itemMeanings, ih]

theorem entryMeanings_congr (h : v.meaning = w.meaning) (k : Parameter)
    (before after : List (Parameter × Parameter)) (map : String → Option Value) :
    entryMeanings map (before ++ (k, v) :: after) =
      entryMeanings map (before ++ (k, w) :: after) := by
  induction before generalizing map with
  | nil => simp only [List.nil_append, entryMeanings, h]
  | cons e before ih => simp only [List.cons_append, entryMeanings, ih]

theorem fieldMeanings_congr (h : v.meaning = w.meaning) (k : String)
    (before after : List (String × Parameter)) (map : String → Option Value) :
    fieldMeanings map (before ++ (k, v) :: after) =
      fieldMeanings map (before ++ (k, w) :: after) := by
  induction before generalizing map with
  | nil => simp only [List.nil_append, fieldMeanings, h]
  | cons e before ih => simp only [List.cons_append, fieldMeanings, ih]

/-- What is directly inside a value counts by its meaning only. -/
theorem meaning_fill (h : v.meaning = w.meaning) (s : Surrounding) :
    (s.fill v).meaning = (s.fill w).meaning := by
  cases s <;> simp only [Surrounding.fill, meaning, h, itemMeanings_congr h, entryMeanings_congr h,
    fieldMeanings_congr h]

end

theorem DistinctKeys.perm {l l' : List (Parameter × Parameter)} (h : DistinctKeys l)
    (hperm : l.Perm l') : DistinctKeys l' :=
  (hperm.pairwise_iff fun hab s hb ha => hab s ha hb).1 h

theorem entryMeanings_perm {l l' : List (Parameter × Parameter)} (h : DistinctKeys l)
    (hperm : l.Perm l') (map : String → Option Value) :
    entryMeanings map l = entryMeanings map l' := by
  induction hperm generalizing map with
  | nil => rfl
  | cons e _ ih =>
    obtain ⟨-, h⟩ := List.pairwise_cons.1 h
    simp only [entryMeanings, ih h]
  | swap a b l =>
    obtain ⟨hdistinct, -⟩ := List.pairwise_cons.1 h
    have hdistinct := hdistinct a List.mem_cons_self
    obtain ⟨k, v⟩ := a
    obtain ⟨k', v'⟩ := b
    simp only [entryMeanings]
    -- what fails does so in either order; if nothing fails, the keys differ and the updates commute
    cases hk : k.key with
    | error e => cases k'.key <;> cases v'.meaning <;> rfl
    | ok s =>
      cases hk' : k'.key with
      | error e => cases v.meaning <;> rfl
      | ok s' =>
        have hne : s ≠ s' := fun heq => hdistinct s' hk' (heq ▸ hk)
        cases v.meaning with
        | none => cases v'.meaning <;> rfl
        | some x =>
          cases v'.meaning with
          | none => rfl
          | some x' =>
            show entryMeanings _ l = entryMeanings _ l
            rw [Function.update_comm hne]
  | trans hperm _ ih ih' => exact (ih h map).trans (ih' (h.perm hperm) map)

/-- The order of entries with distinct keys does not count, at any depth. -/
theorem meaning_of_reordered {v w : Parameter} (h : Reordered v w) : v.meaning = w.meaning := by
  induction h with
  | refl v => rfl
  | entries hdistinct hperm => rw [meaning, meaning, entryMeanings_perm hdistinct hperm]
  | inside s _ ih => exact meaning_fill ih s
  | trans _ _ ih ih' => exact ih.trans ih'

/-! ## Texts and digests -/

theorem exists_canonicalText_iff (v : Parameter) :
    (∃ s, v.canonicalText = .ok s) ↔ ∀ u : Parameter, u.Occurs v → ¬u.Unwritable := by
  rw [canonicalText, exists_ok_map_iff, exists_canonical_iff_occurs]

theorem canonicalText_eq_iff {v w : Parameter} {s t : String} (hv : v.FloatFree)
    (hw : w.FloatFree) (hs : v.canonicalText = .ok s) (ht : w.canonicalText = .ok t) :
    s = t ↔ v.meaning = w.meaning := by
  obtain ⟨j, hj, rfl⟩ := ok_of_map hs
  obtain ⟨j', hj', rfl⟩ := ok_of_map ht
  rw [← canonical_eq_iff hj hj']
  exact ⟨Json.compact_injective (isFloatFree_of_canonical v hv j hj)
    (isFloatFree_of_canonical w hw j' hj'), congrArg Json.compact⟩

theorem exists_meaning_of_canonicalText {v : Parameter} {s : String}
    (hs : v.canonicalText = .ok s) : ∃ x, v.meaning = Option.some x := by
  obtain ⟨j, hj, -⟩ := ok_of_map hs
  exact ⟨_, ((renders_canonical v).of_ok hj).2⟩

theorem canonicalText_of_meaning_eq {v w : Parameter} (h : v.meaning = w.meaning) {s : String}
    (hs : v.canonicalText = .ok s) : w.canonicalText = .ok s := by
  obtain ⟨j, hj, rfl⟩ := ok_of_map hs
  rw [canonicalText, canonical_of_meaning_eq h hj]
  rfl

end Parameter

namespace Fingerprint

theorem ofParameters_eq_ok_iff {n : String} {v : Parameter} {fp : Fingerprint} :
    ofParameters n v = .ok fp ↔
      ∃ s, v.canonicalText = .ok s ∧ parameters n (ContentHash.ofBytes (Bytes.ofText s)) = fp := by
  constructor
  · intro h
    obtain ⟨s, hs, h⟩ := ok_of_bind h
    exact ⟨s, hs, Except.ok.inj h⟩
  · rintro ⟨s, hs, rfl⟩
    rw [ofParameters, bind_ok hs]
    rfl

theorem exists_ofParameters_iff (n : String) (v : Parameter) :
    (∃ fp, ofParameters n v = .ok fp) ↔ ∃ s, v.canonicalText = .ok s := by
  simp only [ofParameters_eq_ok_iff]
  exact ⟨fun ⟨_, s, hs, _⟩ => ⟨s, hs⟩, fun ⟨s, hs⟩ => ⟨_, s, hs, rfl⟩⟩

/-- Digests of values without floating point numbers are canonical: the texts are the same exactly
if the values mean the same, and unless these texts collide under SHA-256 so are the fingerprints of
blocks of one name. The order of entries with distinct keys never counts. There is no fingerprint
exactly if something in the value cannot be written. -/
theorem parameters_canonical :
    (∀ {n m : String} {v w : Parameter} {fp fp' : Fingerprint}, v.FloatFree → w.FloatFree →
      ofParameters n v = .ok fp → ofParameters m w = .ok fp' →
      ∃ s t x y, v.canonicalText = .ok s ∧ w.canonicalText = .ok t ∧
        v.meaning = some x ∧ w.meaning = some y ∧ (s = t ↔ x = y) ∧
        ((Sha256.digest (Bytes.ofText s) = Sha256.digest (Bytes.ofText t) → s = t) →
          (fp = fp' ↔ n = m ∧ x = y) ∧ (fp.agrees fp' = true ↔ n = m ∧ x = y))) ∧
      (∀ (n : String) {v w : Parameter}, v.Reordered w →
        ∀ fp, ofParameters n v = .ok fp ↔ ofParameters n w = .ok fp) ∧
      (∀ (n : String) (v : Parameter), (∃ e, ofParameters n v = .error e) ↔
        ∃ u : Parameter, u.Occurs v ∧ u.Unwritable) := by
  refine ⟨fun {n m v w fp fp'} hv hw h h' => ?_, fun n v w hreordered fp => ?_, fun n v => ?_⟩
  · obtain ⟨s, hs, rfl⟩ := ofParameters_eq_ok_iff.1 h
    obtain ⟨t, ht, rfl⟩ := ofParameters_eq_ok_iff.1 h'
    obtain ⟨x, hx⟩ := Parameter.exists_meaning_of_canonicalText hs
    obtain ⟨y, hy⟩ := Parameter.exists_meaning_of_canonicalText ht
    have htexts : s = t ↔ x = y := by
      rw [Parameter.canonicalText_eq_iff hv hw hs ht, hx, hy, Option.some_inj]
    refine ⟨s, t, x, y, hs, ht, hx, hy, htexts, fun hcollision => ?_⟩
    have heq : parameters n (ContentHash.ofBytes (Bytes.ofText s)) =
        parameters m (ContentHash.ofBytes (Bytes.ofText t)) ↔ n = m ∧ x = y := by
      rw [parameters.injEq, ← htexts]
      refine and_congr_right fun _ => ⟨fun hdigest => ?_, fun heq => heq ▸ rfl⟩
      exact hcollision (ContentHash.digest_eq_of_ofBytes_eq hdigest)
    exact ⟨heq, (agrees_iff rfl).trans heq⟩
  · have hmeaning := Parameter.meaning_of_reordered hreordered
    simp only [ofParameters_eq_ok_iff]
    constructor
    · rintro ⟨s, hs, hfp⟩
      exact ⟨s, Parameter.canonicalText_of_meaning_eq hmeaning hs, hfp⟩
    · rintro ⟨s, hs, hfp⟩
      exact ⟨s, Parameter.canonicalText_of_meaning_eq hmeaning.symm hs, hfp⟩
  · rw [exists_error_iff, exists_ofParameters_iff, Parameter.exists_canonicalText_iff]
    simp only [not_forall, not_not, exists_prop]

/-- The same settings in another order have the same fingerprint under the same name and another one
under another name; a number of 65 bits among them has none. -/
theorem parameters_canonical_settings : ∃ fp fp',
    ofParameters "csc" (.map [(.text "platform", .text "x64"), (.text "debug", .bool false)]) =
      .ok fp ∧
    ofParameters "csc" (.map [(.text "debug", .bool false), (.text "platform", .text "x64")]) =
      .ok fp ∧
    ofParameters "link" (.map [(.text "debug", .bool false), (.text "platform", .text "x64")]) =
      .ok fp' ∧
    fp.agrees fp' = false ∧
    ∃ e, ofParameters "csc" (.map [(.text "limit", .some (.integer (Nat.pow 2 64)))]) =
      .error e := by
  have hfalse : (Parameter.bool false).FloatFree :=
    Parameter.floatFree_of_parts (fun _ => ⟨nofun, nofun⟩) nofun
  have htext : (Parameter.text "x64").FloatFree :=
    Parameter.floatFree_of_parts (fun _ => ⟨nofun, nofun⟩) nofun
  have hfree (a b : Parameter) (ha : a.FloatFree) (hb : b.FloatFree) (k k' : Parameter) :
      (Parameter.map [(k, a), (k', b)]).FloatFree :=
    Parameter.floatFree_of_parts (fun _ => ⟨nofun, nofun⟩) (by simp [Parameter.parts, ha, hb])
  have hreordered : Parameter.Reordered
      (.map [(.text "platform", .text "x64"), (.text "debug", .bool false)])
      (.map [(.text "debug", .bool false), (.text "platform", .text "x64")]) :=
    .entries (by simp [Parameter.DistinctKeys, Parameter.key]) (.swap _ _ _)
  obtain ⟨hcanonical, horder, hfails⟩ := parameters_canonical
  have h : ofParameters "csc"
      (.map [(.text "platform", .text "x64"), (.text "debug", .bool false)]) = .ok _ := rfl
  have h' : ofParameters "link"
      (.map [(.text "debug", .bool false), (.text "platform", .text "x64")]) = .ok _ := rfl
  obtain ⟨s, t, x, y, hs, ht, -, -, -, hagrees⟩ :=
    hcanonical (hfree _ _ htext hfalse _ _) (hfree _ _ hfalse htext _ _) h h'
  have hsame := Parameter.canonicalText_of_meaning_eq (Parameter.meaning_of_reordered hreordered) hs
  have hst : s = t := Except.ok.inj (hsame.symm.trans ht)
  refine ⟨_, _, h, (horder "csc" hreordered _).1 h, h', ?_, (hfails "csc" _).2 ?_⟩
  · exact Bool.eq_false_iff.2 fun h => absurd ((hagrees fun _ => hst).2.1 h).1 (by decide)
  · have hlimit : (Parameter.integer (Nat.pow 2 64)).Occurs (.some (.integer (Nat.pow 2 64))) :=
      .inside (List.mem_singleton_self _) .here
    exact ⟨_, .inside (List.mem_singleton_self _) hlimit, .inr (Int.le_refl _)⟩

end Fingerprint

end Rebuild
