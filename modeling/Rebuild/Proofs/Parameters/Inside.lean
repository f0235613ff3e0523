import Rebuild.Proofs.Except
import Rebuild.Proofs.Json.Tokens
import Rebuild.Proofs.Parameters.Meaning

/-!
# Values inside values

What a value has inside decides whether it can be written, and whether floating point numbers come
in. Keys of maps do not count as values inside: what is written of them is their text.

* `Parameter.parts`, `Parameter.Occurs`: the values directly inside a value, and those at any depth.
* `Parameter.canonicalEntries_eq`: members are found one by one and then set one after the other.
* `Parameter.Unwritable`, `exists_canonical_iff_occurs`: what keeps a value from being written.
* `Parameter.FloatFree`, `isFloatFree_of_canonical`: no floating point number comes in.
-/
namespace Rebuild

namespace Parameter

/-! ## Values inside a value -/

/-- The values directly inside a value. Keys do not count. -/
def parts : Parameter → List Parameter
  | .some v | .newtype v | .newtypeVariant _ v => [v]
  | .sequence items | .tupleVariant _ items => items
  | .map entries => entries.map Prod.snd
  | .record fields | .recordVariant _ fields => fields.map Prod.snd
  | _ => []

/-- A value occurs in another at any depth. -/
inductive Occurs (u : Parameter) : Parameter → Prop
  | here : Occurs u u
  | inside {v w : Parameter} : v ∈ w.parts → Occurs u v → Occurs u w

theorem sizeOf_snd_lt {α : Type} [SizeOf α] {e : α × Parameter} {l : List (α × Parameter)}
    (h : e ∈ l) : sizeOf e.2 < sizeOf l := by
  have hl := List.sizeOf_lt_of_mem h
  have he : sizeOf e.2 < sizeOf e := by
    cases e
    simp only [Prod.mk.sizeOf_spec]
    omega
  exact Nat.lt_trans he hl

theorem sizeOf_lt_of_mem_parts {u v : Parameter} (h : u ∈ v.parts) : sizeOf u < sizeOf v := by
  cases v with
  | some v | newtype v =>
    cases List.mem_singleton.1 h
    simp
  | newtypeVariant name v =>
    cases List.mem_singleton.1 h
    simp only [newtypeVariant.sizeOf_spec]
    omega
  | sequence items =>
    have := List.sizeOf_lt_of_mem (show u ∈ items from h)
    simp only [sequence.sizeOf_spec]
    omega
  | tupleVariant name items =>
    have := List.sizeOf_lt_of_mem (show u ∈ items from h)
    simp only [tupleVariant.sizeOf_spec]
    omega
  | map entries =>
    obtain ⟨e, he, rfl⟩ := List.mem_map.1 h
    have := sizeOf_snd_lt he
    simp only [map.sizeOf_spec]
    omega
  | record fields =>
    obtain ⟨e, he, rfl⟩ := List.mem_map.1 h
    have := sizeOf_snd_lt he
    simp only [record.sizeOf_spec]
    omega
  | recordVariant name fields =>
    obtain ⟨e, he, rfl⟩ := List.mem_map.1 h
    have := sizeOf_snd_lt he
    simp only [recordVariant.sizeOf_spec]
    omega
  | _ => cases h

theorem parts_induction {P : Parameter → Prop} (h : ∀ v, (∀ u ∈ v.parts, P u) → P v)
    (v : Parameter) : P v := h v fun u _ => parts_induction h u
  termination_by sizeOf v
  decreasing_by exact sizeOf_lt_of_mem_parts ‹_›

/-! ## Lists of members -/

/-- The member that an entry of a map becomes. -/
def member (e : Parameter × Parameter) : Except ParameterError (String × Json) := do
  return (← e.1.key, ← e.2.canonical)

/-- Members set one after the other. -/
def putAll (members : List (String × Json)) (l : List (String × Json)) : List (String × Json) :=
  l.foldl (fun members m => Assoc.put m.1 m.2 members) members

theorem mem_putAll {m : String × Json} : ∀ {l members : List (String × Json)},
    m ∈ putAll members l → m ∈ members ∨ m ∈ l
  | [], _, h => .inl h
  | m' :: l, members, h => by
    rcases mem_putAll (l := l) h with hput | hl
    · rcases Assoc.mem_put hput with rfl | hmem
      · exact .inr List.mem_cons_self
      · exact .inl hmem
    · exact .inr (List.mem_cons_of_mem _ hl)

theorem canonicalItems_eq (items : List Parameter) :
    canonicalItems items = items.mapM canonical := by
  induction items with
  | nil => rfl
  | cons v rest ih => rw [canonicalItems, ih, List.mapM_cons]

theorem canonicalEntries_eq : ∀ (entries : List (Parameter × Parameter))
    (members : List (String × Json)),
    canonicalEntries members entries = putAll members <$> entries.mapM member
  | [], _ => rfl
  | (k, v) :: rest, members => by
    rw [canonicalEntries, List.mapM_cons, member]
    cases k.key with
    | error e => rfl
    | ok s =>
      cases v.canonical with
      | error e => rfl
      | ok j =>
        show canonicalEntries _ rest = _
        rw [canonicalEntries_eq rest]
        show _ = putAll members <$> (rest.mapM member >>= fun l => pure ((s, j) :: l))
        cases rest.mapM member <;> rfl

/-- Fields are entries whose keys are texts. -/
theorem canonicalFields_eq : ∀ (fields : List (String × Parameter))
    (members : List (String × Json)), canonicalFields members fields =
      canonicalEntries members (fields.map fun f => (.text f.1, f.2))
  | [], _ => rfl
  | (k, v) :: rest, members => by
    rw [canonicalFields, List.map_cons, canonicalEntries]
    simp only [canonicalFields_eq rest]
    rfl

/-! ## What cannot be written -/

/-- A value that cannot be written, whatever is inside: an integer that does not fit into 64 bits, a
map with a key that has no text, or a value that says so itself. -/
def Unwritable : Parameter → Prop
  | .integer n => n < -(Nat.pow 2 63 : Int) ∨ (Nat.pow 2 64 : Int) ≤ n
  | .map entries => ∃ e ∈ entries, ∀ s, e.1.key ≠ .ok s
  | .failing _ => True
  | _ => False

theorem exists_member_iff {e : Parameter × Parameter} :
    (∃ m, member e = .ok m) ↔ (∃ s, e.1.key = .ok s) ∧ ∃ j, e.2.canonical = .ok j := by
  constructor
  · rintro ⟨m, h⟩
    obtain ⟨s, hs, h⟩ := ok_of_bind h
    obtain ⟨j, hj, -⟩ := ok_of_bind h
    exact ⟨⟨s, hs⟩, j, hj⟩
  · rintro ⟨⟨s, hs⟩, j, hj⟩
    refine ⟨(s, j), ?_⟩
    rw [member, bind_ok hs, bind_ok hj]
    rfl

theorem exists_canonicalItems_iff {items : List Parameter} :
    (∃ l, canonicalItems items = .ok l) ↔ ∀ u ∈ items, ∃ j, u.canonical = .ok j := by
  rw [canonicalItems_eq, exists_mapM_ok_iff]

theorem exists_canonicalEntries_iff {entries : List (Parameter × Parameter)} :
    (∃ l, canonicalEntries [] entries = .ok l) ↔
      (¬∃ e ∈ entries, ∀ s, e.1.key ≠ .ok s) ∧
        ∀ u ∈ entries.map Prod.snd, ∃ j, u.canonical = .ok j := by
  rw [canonicalEntries_eq, exists_ok_map_iff, exists_mapM_ok_iff]
  simp only [exists_member_iff, forall_and, List.forall_mem_map, not_exists, not_and, not_forall,
    not_not]

theorem exists_canonicalFields_iff {fields : List (String × Parameter)} :
    (∃ l, canonicalFields [] fields = .ok l) ↔
      ∀ u ∈ fields.map Prod.snd, ∃ j, u.canonical = .ok j := by
  have hkeys : ¬∃ e ∈ fields.map fun f => (text f.1, f.2), ∀ s, e.1.key ≠ .ok s := by
    rintro ⟨e, he, hkey⟩
    obtain ⟨f, -, rfl⟩ := List.mem_map.1 he
    exact hkey f.1 rfl
  rw [canonicalFields_eq, exists_canonicalEntries_iff, and_iff_right hkeys, List.map_map]
  rfl

theorem exists_canonical_iff (v : Parameter) : (∃ j, v.canonical = .ok j) ↔
    ¬v.Unwritable ∧ ∀ u ∈ v.parts, ∃ j, u.canonical = .ok j := by
  cases v with
  | integer n =>
    have hn : fitsWord n = true ↔ ¬Unwritable (.integer n) := by
      rw [fitsWord_iff, Unwritable]
      omega
    rw [canonical, ← hn]
    cases fitsWord n <;> simp [parts]
  | some v | newtype v => simp [canonical, Unwritable, parts]
  | sequence items =>
    simp only [canonical, exists_ok_map_iff, exists_canonicalItems_iff, Unwritable, parts,
      not_false_eq_true, true_and]
  | map entries =>
    simp only [canonical, exists_ok_map_iff, exists_canonicalEntries_iff, Unwritable, parts]
  | record fields =>
    simp only [canonical, exists_ok_map_iff, exists_canonicalFields_iff, Unwritable, parts,
      not_false_eq_true, true_and]
  | newtypeVariant name v =>
    show (∃ j, (fun j => Json.object [(name, j)]) <$> v.canonical = .ok j) ↔ _
    rw [exists_ok_map_iff]
    simp [Unwritable, parts]
  | tupleVariant name items =>
    show (∃ j, (fun l => Json.object [(name, .array l)]) <$> canonicalItems items = .ok j) ↔ _
    simp only [exists_ok_map_iff, exists_canonicalItems_iff, Unwritable, parts,
      not_false_eq_true, true_and]
  | recordVariant name fields =>
    show (∃ j, (fun l => Json.object [(name, .object l)]) <$> canonicalFields [] fields = .ok j) ↔ _
    simp only [exists_ok_map_iff, exists_canonicalFields_iff, Unwritable, parts,
      not_false_eq_true, true_and]
  | failing reason => simp [canonical, Unwritable]
  | _ => simp [canonical, Unwritable, parts]

/-- A value has a canonical form exactly if everything in it can be written. -/
theorem exists_canonical_iff_occurs (v : Parameter) :
    (∃ j, v.canonical = .ok j) ↔ ∀ u : Parameter, u.Occurs v → ¬u.Unwritable := by
  constructor
  · intro h u hu
    induction hu with
    | here => exact ((exists_canonical_iff _).1 h).1
    | inside hmem _ ih => exact ih (((exists_canonical_iff _).1 h).2 _ hmem)
  · induction v using parts_induction with
    | h v ih =>
      intro h
      exact (exists_canonical_iff v).2
        ⟨h v .here, fun u hu => ih u hu fun w hw => h w (.inside hu hw)⟩

/-! ## Floating point numbers -/

/-- No floating point number occurs in a value. -/
def FloatFree (v : Parameter) : Prop := ∀ x, ¬Occurs (.single x) v ∧ ¬Occurs (.double x) v

theorem FloatFree.part {u v : Parameter} (h : v.FloatFree) (hu : u ∈ v.parts) : u.FloatFree :=
  fun x => ⟨fun hx => (h x).1 (.inside hu hx), fun hx => (h x).2 (.inside hu hx)⟩

theorem areFloatFree_iff : ∀ {l : List Json},
    Json.areFloatFree l = true ↔ ∀ j ∈ l, j.isFloatFree = true
  | [] => by simp [Json.areFloatFree]
  | v :: rest => by
    rw [Json.areFloatFree, Bool.and_eq_true, areFloatFree_iff, List.forall_mem_cons]

theorem areFloatFreeMembers_iff : ∀ {l : List (String × Json)},
    Json.areFloatFreeMembers l = true ↔ ∀ m ∈ l, m.2.isFloatFree = true
  | [] => by simp [Json.areFloatFreeMembers]
  | (k, v) :: rest => by
    rw [Json.areFloatFreeMembers, Bool.and_eq_true, areFloatFreeMembers_iff, List.forall_mem_cons]

theorem isFloatFree_single (name : String) {v : Json} (h : v.isFloatFree = true) :
    (Json.object [(name, v)]).isFloatFree = true :=
  areFloatFreeMembers_iff.2 (List.forall_mem_singleton.2 h)

theorem areFloatFree_of_canonicalItems {items : List Parameter} {l : List Json}
    (h : canonicalItems items = .ok l)
    (hitems : ∀ v ∈ items, ∀ j, v.canonical = .ok j → j.isFloatFree = true) :
    Json.areFloatFree l = true := by
  rw [canonicalItems_eq] at h
  refine areFloatFree_iff.2 fun j hj => ?_
  obtain ⟨v, hv, hcanonical⟩ := (mem_of_mapM_ok h j).1 hj
  exact hitems v hv j hcanonical

theorem areFloatFree_of_canonicalEntries {entries : List (Parameter × Parameter)}
    {l : List (String × Json)} (h : canonicalEntries [] entries = .ok l)
    (hentries : ∀ v ∈ entries.map Prod.snd, ∀ j, v.canonical = .ok j → j.isFloatFree = true) :
    Json.areFloatFreeMembers l = true := by
  rw [canonicalEntries_eq] at h
  obtain ⟨l', hl', rfl⟩ := ok_of_map h
  refine areFloatFreeMembers_iff.2 fun m hm => ?_
  have hm := (mem_putAll hm).resolve_left List.not_mem_nil
  obtain ⟨e, he, hmember⟩ := (mem_of_mapM_ok hl' m).1 hm
  obtain ⟨s, -, hmember⟩ := ok_of_bind hmember
  obtain ⟨j, hj, hm⟩ := ok_of_bind hmember
  cases hm
  exact hentries e.2 (List.mem_map.2 ⟨e, he, rfl⟩) j hj

theorem areFloatFree_of_canonicalFields {fields : List (String × Parameter)}
    {l : List (String × Json)} (h : canonicalFields [] fields = .ok l)
    (hfields : ∀ v ∈ fields.map Prod.snd, ∀ j, v.canonical = .ok j → j.isFloatFree = true) :
    Json.areFloatFreeMembers l = true := by
  rw [canonicalFields_eq] at h
  refine areFloatFree_of_canonicalEntries h ?_
  rwa [List.map_map]

theorem floatFree_of_parts {v : Parameter} (hv : ∀ x, v ≠ .single x ∧ v ≠ .double x)
    (hparts : ∀ u ∈ v.parts, u.FloatFree) : v.FloatFree := by
  intro x
  constructor
  · intro h
    cases h with
    | here => exact (hv x).1 rfl
    | inside hmem h => exact (hparts _ hmem x).1 h
  · intro h
    cases h with
    | here => exact (hv x).2 rfl
    | inside hmem h => exact (hparts _ hmem x).2 h

theorem isFloatFree_of_canonical (v : Parameter) :
    v.FloatFree → ∀ j, v.canonical = .ok j → j.isFloatFree = true := by
  induction v using parts_induction with
  | h v ih =>
    intro hfree j hj
    -- what is inside has no floating point number either, so neither have the forms put together
    have ih (u) (hu : u ∈ v.parts) := ih u hu (hfree.part hu)
    cases v with
    | integer n =>
      rw [canonical] at hj
      split at hj <;> cases hj
      rfl
    | single x => exact absurd .here (hfree x).1
    | double x => exact absurd .here (hfree x).2
    | bytes b =>
      cases hj
      exact areFloatFree_iff.2 (List.forall_mem_map.2 fun _ _ => rfl)
    | some v | newtype v => exact ih v (List.mem_singleton_self v) j hj
    | sequence items =>
      obtain ⟨l, hl, rfl⟩ := ok_of_map hj
      exact areFloatFree_of_canonicalItems hl ih
    | map entries =>
      obtain ⟨l, hl, rfl⟩ := ok_of_map hj
      exact areFloatFree_of_canonicalEntries hl ih
    | record fields =>
      obtain ⟨l, hl, rfl⟩ := ok_of_map hj
      exact areFloatFree_of_canonicalFields hl ih
    | newtypeVariant name v =>
      obtain ⟨j', hj', hj⟩ := ok_of_bind hj
      cases hj
      exact isFloatFree_single name (ih v (List.mem_singleton_self v) j' hj')
    | tupleVariant name items =>
      obtain ⟨l, hl, hj⟩ := ok_of_bind hj
      cases hj
      exact isFloatFree_single name (v := .array l) (areFloatFree_of_canonicalItems hl ih)
    | recordVariant name fields =>
      obtain ⟨l, hl, hj⟩ := ok_of_bind hj
      cases hj
      exact isFloatFree_single name (v := .object l) (areFloatFree_of_canonicalFields hl ih)
    | failing reason => cases hj
    | _ =>
      cases hj
      rfl

end Parameter

end Rebuild
