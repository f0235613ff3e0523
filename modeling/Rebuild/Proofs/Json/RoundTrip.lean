import Rebuild.Proofs.Json.Tokens

/-!
# JSON texts read back

The indented spelling of a value without floating point numbers is read as the
tree of that value: first its tokens are found, then they are put together. The
fields of a record are picked out of its tree.

* `scans_prettyChars`: the tokens of the indented spelling.
* `value_tokens`: the tree that the tokens spell.
* `Tree.parse_pretty`: the two together.
* `Tree.fields?_tree`: the fields of a record whose keys differ.
-/
namespace Rebuild.Json

/-! ## The indented spelling -/

theorem Scans.integer (n : Int) {cs : List Char} {ts : List Token} (hcs : EndsNumber cs)
    (h : Scans cs ts) : Scans ((toString n).toList ++ cs) (.number (numberOf n) :: ts) := by
  rw [Int.toString_eq_repr, Int.repr_eq_if]
  split
  next hn =>
    have hnumber : numberOf n = ⟨false, Nat.toDigits 10 n.toNat, false⟩ := by
      unfold numberOf
      rw [decide_eq_false (by omega), show n.natAbs = n.toNat by omega]
    have htake := takeToken_digits n.toNat hcs
    rw [Nat.toList_repr, hnumber]
    cases hdigits : Nat.toDigits 10 n.toNat with
    | nil => exact absurd hdigits Nat.toDigits_ne_nil
    | cons c digits =>
      rw [hdigits] at htake
      have hc : c.isDigit = true := by
        refine Nat.isDigit_of_mem_toDigits (b := 10) (n := n.toNat) (by decide) (by decide) ?_
        rw [hdigits]
        exact List.mem_cons_self
      have hblank : isBlank c = false := by
        refine Bool.eq_false_iff.2 ?_
        intro hb
        unfold isBlank at hb
        simp only [Bool.or_eq_true, beq_iff_eq] at hb
        rcases hb with ((rfl | rfl) | rfl) | rfl <;> cases hc
      refine Scans.token hblank htake ?_ h
      show cs.length ≤ (digits ++ cs).length
      rw [List.length_append]
      omega
  next hn =>
    have hnumber : numberOf n = ⟨true, Nat.toDigits 10 (-n).toNat, false⟩ := by
      unfold numberOf
      rw [decide_eq_true (by omega), show n.natAbs = (-n).toNat by omega]
    rw [String.toList_append, Nat.toList_repr, hnumber]
    refine Scans.token (c := '-') rfl ?_ ?_ h
    · show (takeNumber true (Nat.toDigits 10 (-n).toNat ++ cs)).map _ = _
      rw [takeNumber_digits true _ hcs]
      rfl
    · show cs.length ≤ (Nat.toDigits 10 (-n).toNat ++ cs).length
      rw [List.length_append]
      omega

theorem endsNumber_cons {c : Char} {cs : List Char}
    (hc : c.isDigit = false ∧ c ≠ '.' ∧ c ≠ 'e' ∧ c ≠ 'E') : EndsNumber (c :: cs) := by
  intro d hd
  cases hd
  exact hc

theorem endsNumber_indentation (level : Nat) (cs : List Char) :
    EndsNumber (indentation level ++ cs) :=
  endsNumber_cons (c := '\n') (by decide)

mutual

theorem scans_prettyChars : ∀ (v : Json) (level : Nat) {cs : List Char} {ts : List Token},
    isFloatFree v = true → EndsNumber cs → Scans cs ts →
    Scans (prettyChars level v ++ cs) (tokens v ++ ts)
  | .null, _, _, _, _, _, h => Scans.token (c := 'n') rfl rfl (by simp; omega) h
  | .bool true, _, _, _, _, _, h => Scans.token (c := 't') rfl rfl (by simp; omega) h
  | .bool false, _, _, _, _, _, h => Scans.token (c := 'f') rfl rfl (by simp; omega) h
  | .integer n, _, _, _, _, hcs, h => Scans.integer n hcs h
  | .float _, _, _, _, hv, _, _ => by cases hv
  | .string s, _, _, _, _, _, h => Scans.quote s h
  | .array [], _, _, _, _, _, h =>
    .punctuation (c := '[') (by simp) rfl (.punctuation (c := ']') (by simp) rfl h)
  | .object [], _, _, _, _, _, h =>
    .punctuation (c := '\x7b') (by simp) rfl (.punctuation (c := '\x7d') (by simp) rfl h)
  | .array (v :: rest), level, cs, ts, hv, _, h => by
    have hclose : Scans (indentation level ++ ']' :: cs) (.closeArray :: ts) :=
      .indentation level (.punctuation (by simp) rfl h)
    have hitems := scans_prettyItems (v :: rest) (level + 1) hv (by simp)
      (endsNumber_indentation level (']' :: cs)) hclose
    have := Scans.punctuation (c := '[') (by simp) rfl hitems
    simpa [prettyChars, tokens] using this
  | .object (m :: rest), level, cs, ts, hv, _, h => by
    have hclose : Scans (indentation level ++ '\x7d' :: cs) (.closeObject :: ts) :=
      .indentation level (.punctuation (by simp) rfl h)
    have hmembers := scans_prettyMembers (m :: rest) (level + 1) hv (by simp)
      (endsNumber_indentation level ('\x7d' :: cs)) hclose
    have := Scans.punctuation (c := '\x7b') (by simp) rfl hmembers
    simpa [prettyChars, tokens] using this

theorem scans_prettyItems : ∀ (items : List Json) (level : Nat) {cs : List Char}
    {ts : List Token}, areFloatFree items = true → items ≠ [] → EndsNumber cs → Scans cs ts →
    Scans (prettyItems level items ++ cs) (itemTokens items ++ ts)
  | [], _, _, _, _, hne, _, _ => absurd rfl hne
  | [v], level, cs, ts, hv, _, hcs, h => by
    have hv : isFloatFree v = true := (Bool.and_eq_true_iff.1 hv).1
    rw [prettyItems, itemTokens, List.append_assoc]
    exact .indentation level (scans_prettyChars v level hv hcs h)
  | v :: w :: rest, level, cs, ts, hv, _, hcs, h => by
    obtain ⟨hv, hrest⟩ := Bool.and_eq_true_iff.1 hv
    have hothers := scans_prettyItems (w :: rest) level hrest (by simp) hcs h
    have hcomma := Scans.punctuation (c := ',') (by simp) rfl hothers
    have := (scans_prettyChars v level hv (endsNumber_cons (by decide)) hcomma).indentation
      level
    simpa [prettyItems, itemTokens] using this

theorem scans_prettyMembers : ∀ (members : List (String × Json)) (level : Nat) {cs : List Char}
    {ts : List Token}, areFloatFreeMembers members = true → members ≠ [] → EndsNumber cs →
    Scans cs ts → Scans (prettyMembers level members ++ cs) (memberTokens members ++ ts)
  | [], _, _, _, _, hne, _, _ => absurd rfl hne
  | [(k, v)], level, cs, ts, hv, _, hcs, h => by
    have hv : isFloatFree v = true := (Bool.and_eq_true_iff.1 hv).1
    have hcolon := Scans.punctuation (c := ':') (by simp) rfl
      (.blank (c := ' ') rfl (scans_prettyChars v level hv hcs h))
    have := (Scans.quote k hcolon).indentation level
    simpa [prettyMembers, memberTokens] using this
  | (k, v) :: m :: rest, level, cs, ts, hv, _, hcs, h => by
    obtain ⟨hv, hrest⟩ := Bool.and_eq_true_iff.1 hv
    have hothers := scans_prettyMembers (m :: rest) level hrest (by simp) hcs h
    have hcomma := Scans.punctuation (c := ',') (by simp) rfl hothers
    have hcolon := Scans.punctuation (c := ':') (by simp) rfl
      (.blank (c := ' ') rfl (scans_prettyChars v level hv (endsNumber_cons (by decide)) hcomma))
    have := (Scans.quote k hcolon).indentation level
    simpa [prettyMembers, memberTokens] using this

end

/-! ## Trees -/

mutual

/-- The tree that a value is read as. -/
def tree : Json → Tree
  | .null => .null
  | .bool b => .bool b
  | .integer n => .number (numberOf n)
  | .float _ => .null
  | .string s => .string (pieces s)
  | .array items => .array (itemTrees items)
  | .object members => .object (memberTrees members)

def itemTrees : List Json → List Tree
  | [] => []
  | v :: rest => tree v :: itemTrees rest

def memberTrees : List (String × Json) → List (List Piece × Tree)
  | [] => []
  | (k, v) :: rest => (pieces k, tree v) :: memberTrees rest

end

theorem itemTrees_eq : ∀ items : List Json, itemTrees items = items.map tree
  | [] => rfl
  | v :: rest => congrArg (tree v :: ·) (itemTrees_eq rest)

theorem memberTrees_eq : ∀ members : List (String × Json),
    memberTrees members = members.map fun m => (pieces m.1, tree m.2)
  | [] => rfl
  | (k, v) :: rest => congrArg ((pieces k, tree v) :: ·) (memberTrees_eq rest)

/-- No value starts with the end of one. -/
theorem tokens_eq_cons (v : Json) (hv : isFloatFree v = true) :
    ∃ t ts, tokens v = t :: ts ∧ t ≠ .closeArray ∧ t ≠ .closeObject := by
  cases v with
  | float x => cases hv
  | _ => exact ⟨_, _, rfl, by simp, by simp⟩

theorem itemTokens_cons (v : Json) (rest : List Json) :
    ∃ ts, itemTokens (v :: rest) = tokens v ++ ts := by
  cases rest with
  | nil => exact ⟨[], by rw [itemTokens, List.append_nil]⟩
  | cons w rest => exact ⟨_, rfl⟩

theorem memberTokens_cons (m : String × Json) (rest : List (String × Json)) :
    ∃ ts, memberTokens (m :: rest) = .string (pieces m.1) :: ts := by
  cases rest with
  | nil => exact ⟨_, rfl⟩
  | cons w rest => exact ⟨_, rfl⟩

mutual

/-- The tokens of a value are put together to its tree, with two units of fuel for each token. -/
theorem value_tokens : ∀ (v : Json) (fuel : Nat) (rest : List Token), isFloatFree v = true →
    2 * (tokens v).length ≤ fuel → Tree.value fuel (tokens v ++ rest) = some (tree v, rest)
  | v, 0, _, hv, hfuel => by
    obtain ⟨t, ts, heq, -⟩ := tokens_eq_cons v hv
    rw [heq, List.length_cons] at hfuel
    omega
  | .null, _ + 1, _, _, _ => rfl
  | .bool _, _ + 1, _, _, _ => rfl
  | .integer _, _ + 1, _, _, _ => rfl
  | .float _, _ + 1, _, hv, _ => by cases hv
  | .string _, _ + 1, _, _, _ => rfl
  | .array [], _ + 1, _, _, _ => rfl
  | .object [], _ + 1, _, _, _ => rfl
  | .array (v :: items), fuel + 1, rest, hv, hfuel => by
    obtain ⟨t, ts, heq, hclose, -⟩ := tokens_eq_cons v (Bool.and_eq_true_iff.1 hv).1
    obtain ⟨us, hus⟩ := itemTokens_cons v items
    rw [tokens, List.length_cons, List.length_append, List.length_singleton] at hfuel
    have hitems := items_tokens (v :: items) fuel rest hv (by simp) (by omega)
    rw [tokens, List.cons_append, List.append_assoc, List.singleton_append, Tree.value]
    · rw [hitems]
      rfl
    · intro rest' h
      rw [hus, heq] at h
      exact hclose (List.cons.inj h).1
  | .object (m :: members), fuel + 1, rest, hv, hfuel => by
    obtain ⟨us, hus⟩ := memberTokens_cons m members
    rw [tokens, List.length_cons, List.length_append, List.length_singleton] at hfuel
    have hmembers := members_tokens (m :: members) fuel rest hv (by simp) (by omega)
    rw [tokens, List.cons_append, List.append_assoc, List.singleton_append, Tree.value]
    · rw [hmembers]
      rfl
    · intro rest' h
      rw [hus] at h
      cases h

theorem items_tokens : ∀ (items : List Json) (fuel : Nat) (rest : List Token),
    areFloatFree items = true → items ≠ [] → 2 * (itemTokens items).length + 1 ≤ fuel →
    Tree.items fuel (itemTokens items ++ .closeArray :: rest) = some (itemTrees items, rest)
  | [], _, _, _, hne, _ => absurd rfl hne
  | _ :: _, 0, _, _, _, hfuel => by omega
  | [v], fuel + 1, rest, hv, _, hfuel => by
    have hv : isFloatFree v = true := (Bool.and_eq_true_iff.1 hv).1
    rw [itemTokens] at hfuel
    rw [itemTokens, Tree.items, value_tokens v fuel _ hv (by omega)]
    rfl
  | v :: w :: items, fuel + 1, rest, hv, _, hfuel => by
    obtain ⟨hv, hrest⟩ := Bool.and_eq_true_iff.1 hv
    rw [itemTokens, List.length_append, List.length_cons] at hfuel
    · have hothers := items_tokens (w :: items) fuel rest hrest (by simp) (by omega)
      rw [itemTokens, List.append_assoc, List.cons_append, Tree.items,
        value_tokens v fuel _ hv (by omega)]
      · show (Tree.items fuel _).bind _ = _
        rw [hothers]
        rfl
      · simp
    · simp

theorem members_tokens : ∀ (members : List (String × Json)) (fuel : Nat) (rest : List Token),
    areFloatFreeMembers members = true → members ≠ [] →
    2 * (memberTokens members).length + 1 ≤ fuel →
    Tree.members fuel (memberTokens members ++ .closeObject :: rest) =
      some (memberTrees members, rest)
  | [], _, _, _, hne, _ => absurd rfl hne
  | _ :: _, 0, _, _, _, hfuel => by omega
  | [(k, v)], fuel + 1, rest, hv, _, hfuel => by
    have hv : isFloatFree v = true := (Bool.and_eq_true_iff.1 hv).1
    rw [memberTokens, List.length_cons, List.length_cons] at hfuel
    rw [memberTokens, List.cons_append, List.cons_append, Tree.members,
      value_tokens v fuel _ hv (by omega)]
    rfl
  | (k, v) :: m :: members, fuel + 1, rest, hv, _, hfuel => by
    obtain ⟨hv, hrest⟩ := Bool.and_eq_true_iff.1 hv
    rw [memberTokens, List.length_cons, List.length_cons, List.length_append,
      List.length_cons] at hfuel
    · have hothers := members_tokens (m :: members) fuel rest hrest (by simp) (by omega)
      rw [memberTokens, List.cons_append, List.cons_append, List.append_assoc, List.cons_append,
        Tree.members, value_tokens v fuel _ hv (by omega)]
      · show (Tree.members fuel _).bind _ = _
        rw [hothers]
        rfl
      · simp
    · simp

end

namespace Tree

theorem parse_of_scan {v : Json} (hv : isFloatFree v = true) {s : String}
    (hscan : scan s = some v.tokens) : parse s = some v.tree := by
  have hvalue := value_tokens v (2 * v.tokens.length + 1) [] hv (by omega)
  rw [List.append_nil] at hvalue
  unfold parse
  rw [hscan]
  dsimp only [bind, Option.bind]
  rw [hvalue]

theorem parse_pretty {v : Json} (hv : isFloatFree v = true) : parse v.pretty = some v.tree := by
  have hscans := scans_prettyChars v 0 hv (fun c hc => by cases hc) Scans.nil
  rw [List.append_nil, List.append_nil] at hscans
  refine parse_of_scan hv (Scans.scan ?_)
  rwa [pretty, String.toList_ofList]

/-! ## Parts of a tree -/

@[simp] theorem text?_tree (s : String) : (tree (.string s)).text? = some s := by
  show (assemble (pieces s)).map String.ofList = some s
  rw [assemble_pieces]
  exact congrArg some String.ofList_toList

theorem unsigned?_tree {n bound : Nat} (h : n < bound) :
    (tree (.integer n)).unsigned? bound = some n := by
  have hnumber : numberOf (n : Int) = ⟨false, Nat.toDigits 10 n, false⟩ := by
    unfold numberOf
    rw [decide_eq_false (by omega), Int.natAbs_natCast]
  show unsigned? bound (.number (numberOf n)) = some n
  rw [hnumber]
  show (if Nat.ofDigitChars 10 (Nat.toDigits 10 n) 0 < bound then
    some (Nat.ofDigitChars 10 (Nat.toDigits 10 n) 0) else none) = _
  rw [Nat.ofDigitChars_ten_toDigits]
  exact if_pos h

theorem mapM_eq_map {α β : Type} {f : α → Option β} {g : α → β} :
    ∀ {l : List α}, (∀ a ∈ l, f a = some (g a)) → l.mapM f = some (l.map g)
  | [], _ => rfl
  | a :: l, h => by
    rw [List.mapM_cons, h a List.mem_cons_self,
      mapM_eq_map fun b hb => h b (List.mem_cons_of_mem _ hb)]
    rfl

theorem items?_tree {α : Type} {read : Tree → Option α} {write : α → Json} {l : List α}
    (h : ∀ a ∈ l, read (write a).tree = some a) :
    (tree (.array (l.map write))).items? read = some l := by
  show (itemTrees (l.map write)).mapM read = some l
  have hmap : l.mapM (read ∘ tree ∘ write) = some (l.map id) := mapM_eq_map h
  rw [itemTrees_eq, List.map_map, List.mapM_map, hmap, List.map_id]

theorem unique?_of_nodup {key : String} {v : Tree} : ∀ {members : List (String × Tree)},
    (members.map Prod.fst).Nodup → (key, v) ∈ members → unique? key members = some v
  | [], _, h => by cases h
  | (k, w) :: members, hnodup, h => by
    rw [List.map_cons, List.nodup_cons] at hnodup
    have hothers (hk : key ∉ members.map Prod.fst) : members.filter (·.1 == key) = [] := by
      refine List.filter_eq_nil_iff.2 fun m hm heq => hk ?_
      exact List.mem_map.2 ⟨m, hm, beq_iff_eq.1 heq⟩
    unfold unique?
    rcases List.mem_cons.1 h with heq | hmem
    · cases heq
      have hfilter : ((key, v) :: members).filter (·.1 == key) =
          (key, v) :: members.filter (·.1 == key) := List.filter_cons_of_pos (beq_self_eq_true key)
      rw [hfilter, hothers hnodup.1]
    · have hne : k ≠ key := fun heq => hnodup.1 (heq ▸ List.mem_map.2 ⟨_, hmem, rfl⟩)
      rw [List.filter_cons_of_neg (by simpa using hne)]
      exact unique?_of_nodup hnodup.2 hmem

theorem fields?_tree {members : List (String × Json)} (hnodup : (members.map Prod.fst).Nodup) :
    (tree (.object members)).fields? (members.map Prod.fst) =
      some (members.map fun m => m.2.tree) := by
  have hkeys : (memberTrees members).mapM
      (fun m => (assemble m.1).map fun k => (String.ofList k, m.2)) =
      some (members.map fun m => (m.1, m.2.tree)) := by
    rw [memberTrees_eq, List.mapM_map]
    refine mapM_eq_map ?_
    intro m _
    show (assemble (pieces m.1)).map _ = _
    rw [assemble_pieces]
    exact congrArg (fun k => some (k, m.2.tree)) String.ofList_toList
  rw [tree]
  unfold fields?
  simp only [hkeys]
  show (members.map Prod.fst).mapM _ = _
  rw [List.mapM_map]
  refine mapM_eq_map ?_
  intro m hm
  refine unique?_of_nodup ?_ (List.mem_map.2 ⟨m, hm, rfl⟩)
  rw [List.map_map]
  exact hnodup

end Tree

end Rebuild.Json
