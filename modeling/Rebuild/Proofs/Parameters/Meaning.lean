import Mathlib.Logic.Function.Basic
import Rebuild.Parameters.Value

/-!
# What values mean

A value means a JSON value in which objects are finite maps: of several entries with one key the
last counts, and no order is left. The canonical form has this meaning and is the only one with
ascending keys that has it, so that canonical forms are as good as meanings.

* `Value`: JSON values with objects as maps.
* `Json.meaning`, `Parameter.meaning`: what JSON and structured values mean.
* `Json.IsCanonical`, `meaning_injective`: forms with ascending keys are told apart by what they
  mean.
* `Parameter.renders_canonical`: the canonical form means what the value means, and there is none
  exactly if the value means nothing.
* `Parameter.canonical_eq_iff`: canonical forms and meanings correspond.
-/
namespace Rebuild

/-- A JSON value whose objects are maps. -/
inductive Value where
  | null
  | bool (b : Bool)
  | integer (n : Int)
  | float (x : FiniteFloat)
  | string (s : String)
  | array (items : List Value)
  | object (members : String → Option Value)

/-- The map without members. -/
def Value.noMembers : String → Option Value := fun _ => none

/-- An object with a single member. -/
def Value.single (name : String) (v : Value) : Value :=
  .object (Function.update noMembers name (some v))

/-! ## JSON -/

namespace Json

mutual

/-- What a JSON value means. -/
def meaning : Json → Value
  | .null => .null
  | .bool b => .bool b
  | .integer n => .integer n
  | .float x => .float x
  | .string s => .string s
  | .array items => .array (itemMeanings items)
  | .object members => .object (memberMeanings Value.noMembers members)

def itemMeanings : List Json → List Value
  | [] => []
  | v :: rest => v.meaning :: itemMeanings rest

/-- Members set one after the other in a map. -/
def memberMeanings (map : String → Option Value) : List (String × Json) → String → Option Value
  | [] => map
  | (k, v) :: rest => memberMeanings (Function.update map k (some v.meaning)) rest

end

theorem itemMeanings_eq : ∀ items : List Json, itemMeanings items = items.map meaning
  | [] => rfl
  | v :: rest => congrArg (v.meaning :: ·) (itemMeanings_eq rest)

/-- Keys ascend in every object. -/
inductive IsCanonical : Json → Prop
  | null : IsCanonical .null
  | bool (b : Bool) : IsCanonical (.bool b)
  | integer (n : Int) : IsCanonical (.integer n)
  | float (x : FiniteFloat) : IsCanonical (.float x)
  | string (s : String) : IsCanonical (.string s)
  | array {items : List Json} : (∀ v ∈ items, IsCanonical v) → IsCanonical (.array items)
  | object {members : List (String × Json)} : Assoc.Ascending members →
      (∀ m ∈ members, IsCanonical m.2) → IsCanonical (.object members)

/-- The map that members with ascending keys are. -/
def mapOf (members : List (String × Json)) : String → Option Value :=
  fun key => (Assoc.find? key members).map meaning

theorem memberMeanings_of_ascending : ∀ {members : List (String × Json)}
    (map : String → Option Value), Assoc.Ascending members →
    ∀ key, memberMeanings map members key = (mapOf members key).or (map key)
  | [], _, _, _ => rfl
  | (k, v) :: rest, map, h, key => by
    obtain ⟨hfirst, hrest⟩ := List.pairwise_cons.1 h
    rw [memberMeanings, memberMeanings_of_ascending _ hrest, mapOf, mapOf, Assoc.find?]
    by_cases hkey : key = k
    · subst hkey
      rw [Function.update_self, if_pos Std.ReflOrd.compare_self, Assoc.find?_eq_none_of_lt hfirst]
      rfl
    · rw [Function.update_of_ne hkey, if_neg fun heq => hkey (Std.LawfulEqOrd.eq_of_compare heq)]

theorem meaning_object {members : List (String × Json)} (h : Assoc.Ascending members) :
    (object members).meaning = .object (mapOf members) := by
  rw [meaning]
  congr 1
  funext key
  rw [memberMeanings_of_ascending _ h]
  exact Option.or_none

theorem mapOf_put (k : String) (v : Json) (members : List (String × Json)) :
    mapOf (Assoc.put k v members) = Function.update (mapOf members) k (some v.meaning) := by
  funext key
  rw [mapOf, Assoc.find?_put]
  by_cases hkey : key = k
  · rw [hkey, if_pos Std.ReflOrd.compare_self, Function.update_self]
    rfl
  · rw [if_neg fun heq => hkey (Std.LawfulEqOrd.eq_of_compare heq), Function.update_of_ne hkey]
    rfl

theorem eq_of_map_eq {α β : Type} {f : α → β} : ∀ {l l' : List α},
    (∀ a ∈ l, ∀ b ∈ l', f a = f b → a = b) → l.map f = l'.map f → l = l'
  | [], l', _, h => (List.map_eq_nil_iff.1 h.symm).symm
  | a :: l, l', hinj, h => by
    cases l' with
    | nil => cases h
    | cons b l' =>
      obtain ⟨hhead, htail⟩ := List.cons.inj h
      rw [hinj a List.mem_cons_self b List.mem_cons_self hhead,
        eq_of_map_eq (fun a ha b hb =>
          hinj a (List.mem_cons_of_mem _ ha) b (List.mem_cons_of_mem _ hb)) htail]

/-- Forms with ascending keys that mean the same are equal. -/
theorem meaning_injective {v w : Json} (hv : v.IsCanonical) (hw : w.IsCanonical)
    (h : v.meaning = w.meaning) : v = w := by
  induction hv generalizing w with
  | null => cases hw <;> first | rfl | cases h
  | bool b => cases hw <;> cases h; rfl
  | integer n => cases hw <;> cases h; rfl
  | float x => cases hw <;> cases h; rfl
  | string s => cases hw <;> cases h; rfl
  | array hitems ih =>
    cases hw with
    | array hitems' =>
      have h := Value.array.inj h
      rw [itemMeanings_eq, itemMeanings_eq] at h
      rw [eq_of_map_eq (fun v hv w hw => ih v hv (hitems' w hw)) h]
    | _ => cases h
  | @object members hascending hmembers ih =>
    cases hw with
    | @object members' hascending' hmembers' =>
      rw [meaning_object hascending, meaning_object hascending'] at h
      have hmap (key : String) : (Assoc.find? key members).map meaning =
          (Assoc.find? key members').map meaning := congrFun (Value.object.inj h) key
      -- lists with ascending keys are equal if every key is looked up alike
      congr 1
      refine Assoc.ext_of_find? hascending hascending' fun key => ?_
      specialize hmap key
      cases hfind : Assoc.find? key members with
      | none =>
        rw [hfind, Option.map_none, eq_comm, Option.map_eq_none_iff] at hmap
        rw [hmap]
      | some v =>
        rw [hfind, Option.map_some, eq_comm, Option.map_eq_some_iff] at hmap
        obtain ⟨w, hfind', hmeaning⟩ := hmap
        have hmem := (Assoc.mem_iff_find? hascending key v).2 hfind
        have hmem' := (Assoc.mem_iff_find? hascending' key w).2 hfind'
        rw [hfind', show v = w from ih _ hmem (hmembers' _ hmem') hmeaning.symm]
    | _ => cases h

end Json

/-! ## Structured values -/

/-- What a floating point number means. -/
def FloatValue.meaning : FloatValue → Value
  | .finite x => .float x
  | _ => .null

namespace Parameter

mutual

/-- What a value means; nothing if some part of it cannot be written. -/
def meaning : Parameter → Option Value
  | .unit | .none => .some .null
  | .bool b => .some (.bool b)
  | .integer n =>
    if -(Nat.pow 2 63 : Int) ≤ n ∧ n < (Nat.pow 2 64 : Int) then .some (.integer n) else .none
  | .single x | .double x => .some x.meaning
  | .char c => .some (.string c.toString)
  | .text s => .some (.string s)
  | .bytes b => .some (.array (b.map fun x => .integer x.toNat))
  | .some v | .newtype v => v.meaning
  | .sequence items => .array <$> itemMeanings items
  | .map entries => .object <$> entryMeanings Value.noMembers entries
  | .record fields => .object <$> fieldMeanings Value.noMembers fields
  | .variant name => .some (.string name)
  | .newtypeVariant name v => .single name <$> v.meaning
  | .tupleVariant name items => (.single name ∘ .array) <$> itemMeanings items
  | .recordVariant name fields =>
    (.single name ∘ .object) <$> fieldMeanings Value.noMembers fields
  | .failing _ => .none

def itemMeanings : List Parameter → Option (List Value)
  | [] => .some []
  | v :: rest => do return (← v.meaning) :: (← itemMeanings rest)

/-- Entries set one after the other in a map. -/
def entryMeanings (map : String → Option Value) :
    List (Parameter × Parameter) → Option (String → Option Value)
  | [] => .some map
  | (k, v) :: rest => do
    let k ← k.key.toOption
    let v ← v.meaning
    entryMeanings (Function.update map k (.some v)) rest

/-- Fields set one after the other in a map. -/
def fieldMeanings (map : String → Option Value) :
    List (String × Parameter) → Option (String → Option Value)
  | [] => .some map
  | (k, v) :: rest => do
    let v ← v.meaning
    fieldMeanings (Function.update map k (.some v)) rest

end

end Parameter

/-! ## Results and what they mean -/

/-- A result with a certain property comes with its meaning, a failure with none. -/
inductive Renders {ε α β : Type} (P : α → Prop) (meaning : α → β) : Except ε α → Option β → Prop
  | ok {a : α} : P a → Renders P meaning (.ok a) (some (meaning a))
  | error (e : ε) : Renders P meaning (.error e) none

namespace Renders

variable {ε α β α' β' : Type} {P : α → Prop} {meaning : α → β} {P' : α' → Prop} {meaning' : α' → β'}
  {result : Except ε α} {x : Option β}

theorem bind (h : Renders P meaning result x) {f : α → Except ε α'} {g : β → Option β'}
    (hf : ∀ a, P a → Renders P' meaning' (f a) (g (meaning a))) :
    Renders P' meaning' (result >>= f) (x >>= g) := by
  cases h with
  | ok ha => exact hf _ ha
  | error e => exact .error e

theorem map (h : Renders P meaning result x) {f : α → α'} {g : β → β'}
    (hf : ∀ a, P a → P' (f a) ∧ g (meaning a) = meaning' (f a)) :
    Renders P' meaning' (f <$> result) (g <$> x) := by
  cases h with
  | ok ha =>
    obtain ⟨ha', heq⟩ := hf _ ha
    show Renders P' meaning' (.ok _) (some _)
    rw [heq]
    exact .ok ha'
  | error e => exact .error e

theorem of_ok (h : Renders P meaning result x) {a : α} (hresult : result = .ok a) :
    P a ∧ x = some (meaning a) := by
  subst hresult
  cases h with
  | ok ha => exact ⟨ha, rfl⟩

theorem of_some (h : Renders P meaning result x) {b : β} (hx : x = some b) :
    ∃ a, result = .ok a ∧ P a ∧ meaning a = b := by
  subst hx
  cases h with
  | ok ha => exact ⟨_, rfl, ha, rfl⟩

end Renders

namespace Parameter
open Json (IsCanonical mapOf)

/-- Members with ascending keys, each in canonical form. -/
def AreCanonical (members : List (String × Json)) : Prop :=
  Assoc.Ascending members ∧ ∀ m ∈ members, m.2.IsCanonical

theorem AreCanonical.put {members : List (String × Json)} (h : AreCanonical members) (k : String)
    {v : Json} (hv : v.IsCanonical) : AreCanonical (Assoc.put k v members) := by
  refine ⟨Assoc.ascending_put k v h.1, fun m hm => ?_⟩
  rcases Assoc.mem_put hm with rfl | hm
  · exact hv
  · exact h.2 m hm

theorem isCanonical_single (name : String) {v : Json} (hv : v.IsCanonical) :
    (Json.object [(name, v)]).IsCanonical :=
  .object (List.pairwise_singleton _ _) (List.forall_mem_singleton.2 hv)

theorem fitsWord_iff {n : Int} :
    fitsWord n = true ↔ -(Nat.pow 2 63 : Int) ≤ n ∧ n < (Nat.pow 2 64 : Int) := by
  rw [fitsWord, Bool.and_eq_true, decide_eq_true_iff, decide_eq_true_iff]

theorem renders_key (k : Parameter) : Renders (fun _ => True) id k.key k.key.toOption := by
  cases k.key with
  | ok s => exact .ok trivial
  | error e => exact .error e

mutual

/-- The canonical form of a value means what the value means. -/
theorem renders_canonical :
    ∀ v : Parameter, Renders IsCanonical Json.meaning v.canonical v.meaning
  | .unit | .none => .ok .null
  | .bool b => .ok (.bool b)
  | .integer n => by
    rw [canonical, meaning]
    by_cases h : fitsWord n = true
    · rw [if_pos h, if_pos (fitsWord_iff.1 h)]
      exact .ok (.integer n)
    · rw [if_neg h, if_neg (mt fitsWord_iff.2 h)]
      exact .error _
  | .single x | .double x => by cases x <;> first | exact .ok (.float _) | exact .ok .null
  | .char c => .ok (.string _)
  | .text s => .ok (.string s)
  | .bytes b => by
    have hmeaning : .array (b.map fun x => .integer x.toNat) =
        Json.meaning (.array (b.map fun x => .integer x.toNat)) := by
      rw [Json.meaning, Json.itemMeanings_eq, List.map_map]
      rfl
    rw [canonical, meaning, hmeaning]
    exact .ok (.array (List.forall_mem_map.2 fun x _ => .integer x.toNat))
  | .some v | .newtype v => renders_canonical v
  | .sequence items => (renders_canonicalItems items).map fun l hl => ⟨.array hl, by
      rw [Json.meaning, Json.itemMeanings_eq]⟩
  | .map entries => (renders_canonicalEntries ⟨.nil, nofun⟩ entries).map fun l hl =>
      ⟨.object hl.1 hl.2, (Json.meaning_object hl.1).symm⟩
  | .record fields => (renders_canonicalFields ⟨.nil, nofun⟩ fields).map fun l hl =>
      ⟨.object hl.1 hl.2, (Json.meaning_object hl.1).symm⟩
  | .variant name => .ok (.string name)
  | .newtypeVariant name v => (renders_canonical v).map fun j hj =>
      ⟨isCanonical_single name hj, rfl⟩
  | .tupleVariant name items => (renders_canonicalItems items).map fun l hl =>
      ⟨isCanonical_single name (.array hl), by
        rw [Function.comp_apply, ← Json.itemMeanings_eq]
        rfl⟩
  | .recordVariant name fields => (renders_canonicalFields ⟨.nil, nofun⟩ fields).map fun l hl =>
      ⟨isCanonical_single name (.object hl.1 hl.2), by
        rw [Function.comp_apply, ← Json.meaning_object hl.1]
        rfl⟩
  | .failing reason => .error _

theorem renders_canonicalItems : ∀ items : List Parameter,
    Renders (fun l => ∀ v ∈ l, v.IsCanonical) (List.map Json.meaning) (canonicalItems items)
      (itemMeanings items)
  | [] => .ok (by simp)
  | v :: rest => (renders_canonical v).bind fun j hj =>
      (renders_canonicalItems rest).bind fun l hl => .ok (List.forall_mem_cons.2 ⟨hj, hl⟩)

theorem renders_canonicalEntries {members : List (String × Json)} (h : AreCanonical members) :
    ∀ entries : List (Parameter × Parameter), Renders AreCanonical mapOf
      (canonicalEntries members entries) (entryMeanings (mapOf members) entries)
  | [] => .ok h
  | (k, v) :: rest => (renders_key k).bind fun s _ => (renders_canonical v).bind fun j hj => by
    rw [← Json.mapOf_put]
    exact renders_canonicalEntries (h.put s hj) rest

theorem renders_canonicalFields {members : List (String × Json)} (h : AreCanonical members) :
    ∀ fields : List (String × Parameter), Renders AreCanonical mapOf
      (canonicalFields members fields) (fieldMeanings (mapOf members) fields)
  | [] => .ok h
  | (k, v) :: rest => (renders_canonical v).bind fun j hj => by
    rw [← Json.mapOf_put]
    exact renders_canonicalFields (h.put k hj) rest

end

theorem canonical_of_meaning_eq {v w : Parameter} (h : v.meaning = w.meaning) {j : Json}
    (hv : v.canonical = .ok j) : w.canonical = .ok j := by
  obtain ⟨hj, hmeaning⟩ := (renders_canonical v).of_ok hv
  obtain ⟨j', hw, hj', hmeaning'⟩ := (renders_canonical w).of_some (h ▸ hmeaning)
  rw [hw, Json.meaning_injective hj' hj hmeaning']

theorem canonical_eq_iff {v w : Parameter} {j j' : Json} (hv : v.canonical = .ok j)
    (hw : w.canonical = .ok j') : j = j' ↔ v.meaning = w.meaning := by
  constructor
  · rintro rfl
    rw [((renders_canonical v).of_ok hv).2, ((renders_canonical w).of_ok hw).2]
  · intro h
    exact Except.ok.inj ((canonical_of_meaning_eq h hv).symm.trans hw)

end Parameter

end Rebuild
