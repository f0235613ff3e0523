import Mathlib.Data.String.Basic
import Mathlib.Order.Defs.Unbundled
import Rebuild.Directory.Memory
import Rebuild.Proofs.Path.Normal
import Rebuild.Proofs.Path.Rooted

/-!
# Texts and segments

Suppose again that paths are kept as texts. The last separator parts a name from its directory, and
a path lies in a directory if its bytes go on after those of the directory with a separator. The
same can be told from the segments: a name is not taken for another one that begins alike, and no
byte of a longer character for a separator.

* `Bytes.ofText_lt`: texts in order have their bytes in order.
* `RelativePath.liesIn`: whether a path lies in a directory, by the bytes of the two texts.
* `liesIn_text`: whether it does by their segments.
* `MemoryDirectory.pairwise_list`: a listing is in the order of the bytes.
* `RelativePath.segment_operations`: what operations on paths are on their segments.
-/
namespace Rebuild

/-! ## The order of bytes -/

namespace Bytes

theorem ofNat_cons_lt {m n : Nat} (hm : m < 256) (hn : n < 256) (l l' : Bytes) :
    UInt8.ofNat m :: l < UInt8.ofNat n :: l' ↔ m < n ∨ m = n ∧ l < l' := by
  have heq : UInt8.ofNat m = UInt8.ofNat n ↔ m = n := by
    rw [← UInt8.toNat_inj, UInt8.toNat_ofNat_of_lt' hm, UInt8.toNat_ofNat_of_lt' hn]
  rw [List.cons_lt_cons_iff, UInt8.ofNat_lt_iff_lt hm hn, heq]

/-- The smaller one of two characters has the smaller bytes, whatever comes after them. -/
theorem utf8EncodeChar_lt {c c' : Char} (h : c < c') (rest rest' : Bytes) :
    String.utf8EncodeChar c ++ rest < String.utf8EncodeChar c' ++ rest' := by
  have hlt : c.val.toNat < c'.val.toNat := UInt32.lt_iff_toNat_lt.1 h
  have hmax : c'.val.toNat < 0x110000 := by
    rcases c'.valid with h | h <;> omega
  -- the digits to base 64 that the bytes hold
  have hthird (v : Nat) : v / 4096 = v / 64 / 64 := by omega
  have hfourth (v : Nat) : v / 262144 = v / 64 / 64 / 64 := by omega
  -- the first bytes tell how many there are, or else all have the same number of digits
  fun_cases String.utf8EncodeChar c <;> fun_cases String.utf8EncodeChar c'
  all_goals
    simp (disch := omega) only [List.cons_append, List.nil_append, ofNat_cons_lt, hthird, hfourth]
    omega

theorem flatMap_utf8EncodeChar_lt : ∀ {l l' : List Char}, l < l' →
    l.flatMap String.utf8EncodeChar < l'.flatMap String.utf8EncodeChar
  | [], [], h => absurd h (List.not_lt_nil _)
  | [], c' :: l', _ => by
    have hne : (c' :: l').flatMap String.utf8EncodeChar ≠ [] := by
      simp [String.utf8EncodeChar_ne_nil]
    obtain ⟨b, rest, heq⟩ := List.exists_cons_of_ne_nil hne
    rw [heq]
    exact List.nil_lt_cons b rest
  | c :: l, [], h => absurd h (List.not_lt_nil _)
  | c :: l, c' :: l', h => by
    rw [List.flatMap_cons, List.flatMap_cons]
    rcases List.cons_lt_cons_iff.1 h with hlt | ⟨rfl, hlt⟩
    · exact utf8EncodeChar_lt hlt _ _
    · exact List.append_left_lt (flatMap_utf8EncodeChar_lt hlt)

theorem ofText_lt {s t : String} (h : s < t) : ofText s < ofText t := by
  rw [ofText_eq, ofText_eq]
  exact flatMap_utf8EncodeChar_lt (String.lt_iff_toList_lt.1 h)

end Bytes

namespace RelativePath
open OsPath

variable {p q d : RelativePath}

/-! ## Lying in a directory -/

/-- The bytes of the text are those of the directory, or they go on after them with a separator. -/
def liesIn (s dir : String) : Bool :=
  s == dir || (Bytes.ofText dir).isPrefixOf (Bytes.ofText s) &&
    (Bytes.ofText s)[(Bytes.ofText dir).length]? == some separator

theorem liesIn_iff {s dir : String} :
    liesIn s dir = true ↔
      s = dir ∨ ∃ rest, Bytes.ofText s = Bytes.ofText dir ++ separator :: rest := by
  unfold liesIn
  rw [Bool.or_eq_true, beq_iff_eq, Bool.and_eq_true, List.isPrefixOf_iff_prefix, beq_iff_eq]
  refine or_congr_right ⟨?_, ?_⟩
  · rintro ⟨⟨rest, heq⟩, hnext⟩
    rw [← heq, List.getElem?_append_right (Nat.le_refl _), Nat.sub_self] at hnext
    obtain ⟨_, rfl⟩ := List.head?_eq_some_iff.1 (List.head?_eq_getElem? ▸ hnext)
    exact ⟨_, heq.symm⟩
  · rintro ⟨rest, heq⟩
    rw [heq]
    exact ⟨List.prefix_append _ _, by simp⟩

theorem splitOn_ofText_text (p : RelativePath) :
    (Bytes.ofText p.text).splitOn separator = p.segments.map Bytes.ofText := by
  rw [ofText_text, List.splitOn_intercalate]
  · exact fun name hname => (p.isName_segments name hname).plain
  · simpa using p.nonempty

/-- The bytes of a text go on after a separator where the segments go on. -/
theorem exists_ofText_text_eq_iff :
    (∃ rest, Bytes.ofText p.text = Bytes.ofText d.text ++ separator :: rest) ↔
      d.segments <+: p.segments ∧ p ≠ d := by
  constructor
  · rintro ⟨rest, heq⟩
    have hsplit : p.segments.map Bytes.ofText =
        d.segments.map Bytes.ofText ++ rest.splitOn separator := by
      rw [← splitOn_ofText_text, ← splitOn_ofText_text, heq, List.splitOn_append_cons_self]
    refine ⟨?_, ?_⟩
    · rw [← List.prefix_map_iff_of_injective fun _ _ => Bytes.ofText_injective]
      exact ⟨_, hsplit.symm⟩
    · rintro rfl
      exact List.splitOn_ne_nil _ _ (List.append_right_eq_self.1 hsplit.symm)
  · rintro ⟨⟨rest, hsegments⟩, hother⟩
    have hrest : rest ≠ [] := fun hnil =>
      hother (ext_segments (by rw [← hsegments, hnil, List.append_nil]))
    refine ⟨Bytes.ofText ("/".intercalate rest), ?_⟩
    have htext : p.text = d.text ++ "/" ++ "/".intercalate rest := by
      unfold text
      rw [← hsegments, String.intercalate_append_of_ne_nil d.nonempty hrest]
    rw [htext, Bytes.ofText_append, Bytes.ofText_append, List.append_assoc]
    rfl

theorem startsWith_eq_true_iff : p.startsWith d = true ↔ d.segments <+: p.segments := by
  unfold startsWith
  exact List.isPrefixOf_iff_prefix

/-- Whether a path lies in a directory can be told from the bytes of their texts. -/
theorem liesIn_text (p d : RelativePath) : liesIn p.text d.text = p.startsWith d := by
  rw [Bool.eq_iff_iff, liesIn_iff, exists_ofText_text_eq_iff, startsWith_eq_true_iff]
  constructor
  · rintro (h | ⟨h, -⟩)
    · rw [text_injective h]
    · exact h
  · intro h
    by_cases hself : p = d
    · exact .inl (congrArg text hself)
    · exact .inr ⟨h, hself⟩

/-! ## Directories and names -/

theorem parent?_eq_none_iff : p.parent? = none ↔ p.segments.length = 1 := by
  have hpos := List.length_pos_iff.2 p.nonempty
  unfold parent?
  split
  next h =>
    have hlength := congrArg List.length h
    rw [List.length_dropLast, List.length_nil] at hlength
    exact ⟨fun _ => by omega, fun _ => rfl⟩
  next h =>
    have hlength := List.length_pos_iff.2 h
    rw [List.length_dropLast] at hlength
    exact ⟨fun heq => absurd heq (Option.some_ne_none _), fun _ => by omega⟩

theorem parent?_eq_some_iff : p.parent? = some d ↔ d.segments = p.segments.dropLast := by
  unfold parent?
  split
  next h =>
    exact ⟨fun heq => absurd heq.symm (Option.some_ne_none _),
      fun heq => absurd (heq.trans h) d.nonempty⟩
  next h =>
    exact ⟨fun heq => Option.some.inj heq ▸ rfl, fun heq => congrArg some (ext_segments heq.symm)⟩

theorem fileName_eq (p : RelativePath) :
    p.fileName = (cutLast? p.text).elim p.text Prod.snd := by
  rw [cutLast?_text]
  cases hparent : p.parent? with
  | some d => rfl
  | none =>
    obtain ⟨s, hs⟩ := List.length_eq_one_iff.1 (parent?_eq_none_iff.1 hparent)
    show p.segments.getLast p.nonempty = "/".intercalate p.segments
    simp only [hs, List.getLast_singleton, String.intercalate_singleton]

end RelativePath

/-! ## Listings -/

namespace MemoryDirectory
open RelativePath

/-- A listing is in the order of the bytes, and no path comes twice. -/
theorem pairwise_list (m : MemoryDirectory) (below : Option RelativePath) :
    (m.list below).Pairwise fun p q => Bytes.ofText p.text < Bytes.ofText q.text := by
  have hkeys : m.files.keys.Pairwise fun p q => compare p q = .lt :=
    List.pairwise_map.2 m.files.ascending
  exact (hkeys.filter _).imp fun hlt => Bytes.ofText_lt (compareOfLessAndEq_eq_lt.1 hlt)

theorem mem_list {m : MemoryDirectory} {p d : RelativePath} :
    p ∈ m.list (some d) ↔
      m.holds p = true ∧ d.segments <+: p.segments ∧ p.segments ≠ d.segments := by
  have hother : p ≠ d ↔ p.segments ≠ d.segments :=
    not_congr ⟨congrArg segments, ext_segments⟩
  unfold list
  rw [List.mem_filter, SortedMap.mem_keys, Option.all_some, Bool.and_eq_true,
    startsWith_eq_true_iff, decide_eq_true_eq, hother]
  rfl

end MemoryDirectory

namespace RelativePath

/-- What operations on paths are on their segments. Done on texts they come to the same: joining
puts a separator between two texts, the last separator tells a name from its directory, and the
bytes tell what lies in a directory. -/
theorem segment_operations :
    (∀ p q : RelativePath, (p.join q).segments = p.segments ++ q.segments ∧
      (p.join q).text = joinTexts p.text q.text) ∧
    (∀ p : RelativePath, (p.parent? = none ↔ p.segments.length = 1) ∧
      (∀ d, p.parent? = some d ↔ d.segments = p.segments.dropLast) ∧
      p.parent?.map text = (cutLast? p.text).map Prod.fst) ∧
    (∀ p : RelativePath, p.segments.getLast? = some p.fileName ∧
      p.fileName = (cutLast? p.text).elim p.text Prod.snd) ∧
    (∀ p d : RelativePath, (p.startsWith d = true ↔ d.segments <+: p.segments) ∧
      p.startsWith d = liesIn p.text d.text) ∧
    IsPartialOrder RelativePath (fun d p => p.startsWith d = true) ∧
    (∀ p q : RelativePath, (p.join q).startsWith p = true) ∧
    ∀ (m : MemoryDirectory) (d : RelativePath),
      ((m.list (some d)).Pairwise fun p q => Bytes.ofText p.text < Bytes.ofText q.text) ∧
      ∀ p, p ∈ m.list (some d) ↔
        m.holds p = true ∧ d.segments <+: p.segments ∧ p.segments ≠ d.segments := by
  refine ⟨fun p q => ⟨rfl, text_join p q⟩,
    fun p => ⟨parent?_eq_none_iff, fun d => parent?_eq_some_iff, ?_⟩,
    fun p => ⟨List.getLast?_eq_some_getLast p.nonempty, fileName_eq p⟩,
    fun p d => ⟨startsWith_eq_true_iff, (liesIn_text p d).symm⟩, ?_,
    fun p q => startsWith_eq_true_iff.2 (List.prefix_append _ _),
    fun m d => ⟨m.pairwise_list (some d), fun p => MemoryDirectory.mem_list⟩⟩
  · rw [cutLast?_text, Option.map_map]
    rfl
  · simp only [startsWith_eq_true_iff]
    exact {
      refl := fun p => List.prefix_rfl
      trans := fun p q r => List.IsPrefix.trans
      antisymm := fun p q h h' => ext_segments (h.eq_of_length_le h'.length_le) }

/-- The name `a-b` comes before the directory `a` in a listing, but `a` does not hold it. -/
example : (MemoryDirectory.mk "" (.ofList [(⟨["a", "b"], by decide, by decide, by decide⟩, []),
    (⟨["a-b"], by decide, by decide, by decide⟩, [])])).list
      (some ⟨["a"], by decide, by decide, by decide⟩) =
    [⟨["a", "b"], by decide, by decide, by decide⟩] := by rfl

end RelativePath

end Rebuild
