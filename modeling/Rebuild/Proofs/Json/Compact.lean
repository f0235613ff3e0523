import Rebuild.Proofs.Json.RoundTrip

/-!
# The compact spelling tells values apart

The compact spelling of a value without floating point numbers has the tokens of the value, and so
it is read as the tree of the value. Different values have different trees, so no text is the
compact spelling of two of them.

* `scans_compactChars`: the tokens of the compact spelling.
* `tree_injective`: values of the same tree are equal.
* `compact_injective`: values of the same compact text are equal.
-/
namespace Rebuild.Json

/-! ## The compact spelling -/

mutual

theorem scans_compactChars : ∀ (v : Json) {cs : List Char} {ts : List Token},
    isFloatFree v = true → EndsNumber cs → Scans cs ts →
    Scans (compactChars v ++ cs) (tokens v ++ ts)
  | .null, _, _, _, _, h => Scans.token (c := 'n') rfl rfl (by simp; omega) h
  | .bool true, _, _, _, _, h => Scans.token (c := 't') rfl rfl (by simp; omega) h
  | .bool false, _, _, _, _, h => Scans.token (c := 'f') rfl rfl (by simp; omega) h
  | .integer n, _, _, _, hcs, h => Scans.integer n hcs h
  | .float _, _, _, hv, _, _ => by cases hv
  | .string s, _, _, _, _, h => Scans.quote s h
  | .array items, cs, ts, hv, _, h => by
    have hclose : Scans (']' :: cs) (.closeArray :: ts) := .punctuation (by simp) rfl h
    have hitems := scans_compactItems items hv (endsNumber_cons (by decide)) hclose
    have := Scans.punctuation (c := '[') (by simp) rfl hitems
    simpa [compactChars, tokens] using this
  | .object members, cs, ts, hv, _, h => by
    have hclose : Scans ('\x7d' :: cs) (.closeObject :: ts) := .punctuation (by simp) rfl h
    have hmembers := scans_compactMembers members hv (endsNumber_cons (by decide)) hclose
    have := Scans.punctuation (c := '\x7b') (by simp) rfl hmembers
    simpa [compactChars, tokens] using this

theorem scans_compactItems : ∀ (items : List Json) {cs : List Char} {ts : List Token},
    areFloatFree items = true → EndsNumber cs → Scans cs ts →
    Scans (compactItems items ++ cs) (itemTokens items ++ ts)
  | [], _, _, _, _, h => h
  | [v], _, _, hv, hcs, h => scans_compactChars v (Bool.and_eq_true_iff.1 hv).1 hcs h
  | v :: w :: rest, cs, ts, hv, hcs, h => by
    obtain ⟨hv, hrest⟩ := Bool.and_eq_true_iff.1 hv
    have hothers := scans_compactItems (w :: rest) hrest hcs h
    have hcomma := Scans.punctuation (c := ',') (by simp) rfl hothers
    have := scans_compactChars v hv (endsNumber_cons (by decide)) hcomma
    simpa [compactItems, itemTokens] using this

theorem scans_compactMembers : ∀ (members : List (String × Json)) {cs : List Char}
    {ts : List Token}, areFloatFreeMembers members = true → EndsNumber cs → Scans cs ts →
    Scans (compactMembers members ++ cs) (memberTokens members ++ ts)
  | [], _, _, _, _, h => h
  | [(k, v)], _, _, hv, hcs, h => by
    have hcolon := Scans.punctuation (c := ':') (by simp) rfl
      (scans_compactChars v (Bool.and_eq_true_iff.1 hv).1 hcs h)
    simpa [compactMembers, memberTokens] using Scans.quote k hcolon
  | (k, v) :: m :: rest, cs, ts, hv, hcs, h => by
    obtain ⟨hv, hrest⟩ := Bool.and_eq_true_iff.1 hv
    have hothers := scans_compactMembers (m :: rest) hrest hcs h
    have hcomma := Scans.punctuation (c := ',') (by simp) rfl hothers
    have hcolon := Scans.punctuation (c := ':') (by simp) rfl
      (scans_compactChars v hv (endsNumber_cons (by decide)) hcomma)
    simpa [compactMembers, memberTokens] using Scans.quote k hcolon

end

/-- The compact spelling of a value is read as the value's tree. -/
theorem Tree.parse_compact {v : Json} (hv : isFloatFree v = true) : parse v.compact = some v.tree :=
  parse_of_scan hv (by
    have hscans := scans_compactChars v hv (fun c hc => by cases hc) Scans.nil
    rw [List.append_nil, List.append_nil] at hscans
    refine Scans.scan ?_
    rwa [compact, String.toList_ofList])

/-! ## Trees -/

theorem numberOf_injective {n m : Int} (h : numberOf n = numberOf m) : n = m := by
  obtain ⟨hsign, hdigits, -⟩ := NumberText.mk.inj h
  have habs : n.natAbs = m.natAbs := by
    rw [← Nat.ofDigitChars_ten_toDigits (n := n.natAbs), hdigits, Nat.ofDigitChars_ten_toDigits]
  have hsign : n < 0 ↔ m < 0 := decide_eq_decide.1 hsign
  omega

theorem pieces_injective {s t : String} (h : pieces s = pieces t) : s = t :=
  String.toList_injective (Option.some.inj (by rw [← assemble_pieces, h, assemble_pieces]))

mutual

theorem tree_injective : ∀ {v w : Json}, isFloatFree v = true → isFloatFree w = true →
    tree v = tree w → v = w
  | .null, w, _, hw, h => by
    cases w with
    | null => rfl
    | float _ => cases hw
    | _ => cases h
  | .bool b, w, _, hw, h => by
    cases w with
    | bool c => rw [Tree.bool.inj h]
    | float _ => cases hw
    | _ => cases h
  | .integer n, w, _, hw, h => by
    cases w with
    | integer m => rw [numberOf_injective (Tree.number.inj h)]
    | float _ => cases hw
    | _ => cases h
  | .float _, _, hv, _, _ => by cases hv
  | .string s, w, _, hw, h => by
    cases w with
    | string t => rw [pieces_injective (Tree.string.inj h)]
    | float _ => cases hw
    | _ => cases h
  | .array items, w, hv, hw, h => by
    cases w with
    | array items' => rw [itemTrees_injective hv hw (Tree.array.inj h)]
    | float _ => cases hw
    | _ => cases h
  | .object members, w, hv, hw, h => by
    cases w with
    | object members' => rw [memberTrees_injective hv hw (Tree.object.inj h)]
    | float _ => cases hw
    | _ => cases h

theorem itemTrees_injective : ∀ {items items' : List Json}, areFloatFree items = true →
    areFloatFree items' = true → itemTrees items = itemTrees items' → items = items'
  | [], items', _, _, h => by
    cases items' with
    | nil => rfl
    | cons _ _ => cases h
  | v :: rest, items', hv, hw, h => by
    cases items' with
    | nil => cases h
    | cons w rest' =>
      obtain ⟨hv, hrest⟩ := Bool.and_eq_true_iff.1 hv
      obtain ⟨hw, hrest'⟩ := Bool.and_eq_true_iff.1 hw
      obtain ⟨hhead, htail⟩ := List.cons.inj h
      rw [tree_injective hv hw hhead, itemTrees_injective hrest hrest' htail]

theorem memberTrees_injective : ∀ {members members' : List (String × Json)},
    areFloatFreeMembers members = true → areFloatFreeMembers members' = true →
    memberTrees members = memberTrees members' → members = members'
  | [], members', _, _, h => by
    cases members' with
    | nil => rfl
    | cons _ _ => cases h
  | (k, v) :: rest, members', hv, hw, h => by
    cases members' with
    | nil => cases h
    | cons m rest' =>
      obtain ⟨k', w⟩ := m
      obtain ⟨hv, hrest⟩ := Bool.and_eq_true_iff.1 hv
      obtain ⟨hw, hrest'⟩ := Bool.and_eq_true_iff.1 hw
      obtain ⟨hhead, htail⟩ := List.cons.inj h
      obtain ⟨hkey, hvalue⟩ := Prod.mk.inj hhead
      rw [pieces_injective hkey, tree_injective hv hw hvalue,
        memberTrees_injective hrest hrest' htail]

end

theorem compact_injective {v w : Json} (hv : isFloatFree v = true) (hw : isFloatFree w = true)
    (h : v.compact = w.compact) : v = w :=
  tree_injective hv hw
    (Option.some.inj (by rw [← Tree.parse_compact hv, h, Tree.parse_compact hw]))

end Rebuild.Json
