import Mathlib.Data.List.Flatten
import Rebuild.Proofs.Path.Names
import Rebuild.Proofs.Path.Spelling

/-!
# What is read as a path

Reading a text drops its empty and `.` pieces. What remains must be there, must not
contain `..`, and must not begin with a drive name; then it is the list of segments.

* `RelativePath.remaining`: the pieces that count.
* `RelativePath.Spells`: when a text spells a path.
* `parse_eq_ok_iff`, `exists_parse_iff`: just such texts are read.
* `isDriveName_iff`: a drive name has two bytes, the last of which is a colon.
-/
namespace Rebuild

theorem isDriveName_iff {s : String} :
    isDriveName s = true ↔ (Bytes.ofText s).length = 2 ∧ s.toList.getLast? = some ':' := by
  have hsize (c : Char) : c.utf8Size = 1 ↔ c.toNat < 0x80 := by
    rw [Char.utf8Size_eq_one_iff, UInt32.le_iff_toNat_le]
    exact Nat.lt_succ_iff.symm
  have hcolon : (':' : Char).utf8Size = 1 := by decide
  rw [Bytes.ofText_eq]
  unfold isDriveName
  constructor
  · intro h
    split at h
    next c heq =>
      have hone := (hsize c).2 (of_decide_eq_true h)
      rw [heq]
      simp [String.length_utf8EncodeChar, hone, hcolon]
    · cases h
  · rintro ⟨hlength, hlast⟩
    obtain ⟨init, hinit⟩ := List.getLast?_eq_some_iff.1 hlast
    rw [hinit] at hlength ⊢
    simp only [List.flatMap_append, List.flatMap_cons, List.flatMap_nil, List.append_nil,
      List.length_append, String.length_utf8EncodeChar, hcolon] at hlength
    match init with
    | [] => simp at hlength
    | [c] =>
      have hone : c.utf8Size = 1 := by
        simpa [String.length_utf8EncodeChar] using hlength
      exact decide_eq_true ((hsize c).1 hone)
    | c :: c' :: rest =>
      have hc := c.utf8Size_pos
      have hc' := c'.utf8Size_pos
      simp only [List.flatMap_cons, List.length_append, String.length_utf8EncodeChar] at hlength
      omega

namespace RelativePath

/-- The pieces of a text that are neither empty nor `.`. -/
def remaining (raw : String) : List String := (pieces raw).filter fun s => s ≠ "" ∧ s ≠ "."

/-- A text that spells a path: relative, without a step up, and the path has its other pieces. -/
structure Spells (raw : String) (p : RelativePath) : Prop where
  relative : (unified raw).head? ≠ some '/'
  noParent : ".." ∉ pieces raw
  segments : p.segments = (pieces raw).filter fun s => s ≠ "" ∧ s ≠ "."
  noDrive : ∀ s ∈ p.segments.head?, isDriveName s = false

theorem of_keepSegments {l segments : List String} : ∀ {first : Bool},
    keepSegments first l = .ok segments →
      ".." ∉ l ∧ segments = l.filter fun s => s ≠ "" ∧ s ≠ "." := by
  induction l generalizing segments with
  | nil =>
    intro first h
    cases h
    exact ⟨List.not_mem_nil, rfl⟩
  | cons s rest ih =>
    intro first h
    rw [keepSegments] at h
    split at h
    next hdrop =>
      obtain ⟨hparent, hkept⟩ := ih h
      have hne : ".." ≠ s := by
        rintro rfl
        exact absurd hdrop (by decide)
      have hout : ¬(s ≠ "" ∧ s ≠ ".") := fun hs => hdrop.elim hs.1 hs.2
      exact ⟨List.not_mem_cons_of_ne_of_not_mem hne hparent,
        by rw [List.filter_cons_of_neg (by simpa using hout), hkept]⟩
    next hkeep =>
      split at h
      · cases h
      next hparent =>
        split at h
        · cases h
        · cases hrest : keepSegments false rest with
          | error e => rw [hrest] at h; cases h
          | ok others =>
            rw [hrest] at h
            cases h
            obtain ⟨hrest, hkept⟩ := ih hrest
            have hin : s ≠ "" ∧ s ≠ "." := not_or.1 hkeep
            exact ⟨List.not_mem_cons_of_ne_of_not_mem (Ne.symm hparent) hrest,
              by rw [List.filter_cons_of_pos (by simpa using hin), hkept]⟩

/-- Nothing else is a fault: a step up, or a drive name as the first of the pieces that count. -/
theorem keepSegments_filter {l : List String} : ∀ {first : Bool}, ".." ∉ l →
    (first = true → ∀ s ∈ (l.filter fun s => s ≠ "" ∧ s ≠ ".").head?, isDriveName s = false) →
    keepSegments first l = .ok (l.filter fun s => s ≠ "" ∧ s ≠ ".") := by
  induction l with
  | nil => exact fun _ _ => rfl
  | cons s rest ih =>
    intro first hparent hdrive
    have hs : ".." ≠ s := List.ne_of_not_mem_cons hparent
    have hrest : ".." ∉ rest := List.not_mem_of_not_mem_cons hparent
    rw [keepSegments]
    by_cases hdrop : s = "" ∨ s = "."
    · have hout : ¬(s ≠ "" ∧ s ≠ ".") := fun hs => hdrop.elim hs.1 hs.2
      rw [List.filter_cons_of_neg (by simpa using hout)] at hdrive ⊢
      rw [if_pos hdrop]
      exact ih hrest hdrive
    · have hin : s ≠ "" ∧ s ≠ "." := not_or.1 hdrop
      rw [List.filter_cons_of_pos (by simpa using hin)] at hdrive ⊢
      have hname : (first && isDriveName s) = false := by
        cases first with
        | false => rfl
        | true => exact hdrive rfl s (by rw [List.head?_cons, Option.mem_some])
      have hkept := @ih false hrest (absurd · Bool.false_ne_true)
      rw [if_neg hdrop, if_neg (Ne.symm hs), hname, hkept]
      rfl

variable {raw raw' : String} {p q : RelativePath}

theorem parse_eq_ok : parse raw = .ok p ↔ parseFault raw = .ok p := by
  unfold parse
  cases parseFault raw with
  | error => constructor <;> intro h <;> cases h
  | ok => constructor <;> intro h <;> cases h <;> rfl

theorem spells_of_parse (h : parse raw = .ok p) : Spells raw p := by
  have h : parseFault raw = .ok p := parse_eq_ok.1 h
  unfold parseFault at h
  split at h
  · cases h
  next hrelative =>
    split at h
    · cases h
    next segments hkept =>
      split at h
      · cases h
      · cases h
        obtain ⟨hparent, hsegments⟩ := of_keepSegments hkept
        exact ⟨hrelative, hparent, hsegments, noDrive_of_keepSegments hkept⟩

theorem Spells.parse (h : Spells raw p) : parse raw = .ok p := by
  have hkept : keepSegments true (pieces raw) = .ok p.segments := by
    rw [h.segments]
    exact keepSegments_filter h.noParent fun _ => h.segments ▸ h.noDrive
  rw [parse_eq_ok]
  unfold parseFault
  rw [if_neg h.relative]
  split
  · next fault herror => rw [hkept] at herror; cases herror
  · next segments hok =>
    obtain rfl : p.segments = segments := Except.ok.inj (hkept.symm.trans hok)
    rw [dif_neg p.nonempty]

theorem parse_eq_ok_iff : parse raw = .ok p ↔ Spells raw p := ⟨spells_of_parse, Spells.parse⟩

theorem segments_of_parse (h : parse raw = .ok p) : p.segments = remaining raw :=
  (spells_of_parse h).segments

theorem exists_parse_iff : (∃ p, parse raw = .ok p) ↔
    (unified raw).head? ≠ some '/' ∧ remaining raw ≠ [] ∧ ".." ∉ pieces raw ∧
      ∀ s ∈ (remaining raw).head?, isDriveName s = false := by
  constructor
  · rintro ⟨p, h⟩
    have hspells := spells_of_parse h
    have hsegments := segments_of_parse h
    exact ⟨hspells.relative, hsegments ▸ p.nonempty, hspells.noParent,
      hsegments ▸ hspells.noDrive⟩
  · rintro ⟨hrelative, hne, hparent, hdrive⟩
    have hkept : keepSegments true (pieces raw) = .ok (remaining raw) :=
      keepSegments_filter hparent fun _ => hdrive
    have hplain := plain_of_keepSegments (fun _ hs => not_mem_of_mem_pieces hs) hkept
    exact ⟨⟨remaining raw, hne, hplain, hdrive⟩, Spells.parse ⟨hrelative, hparent, rfl, hdrive⟩⟩

/-- A path takes no more bytes than the text that it was read from. -/
theorem length_text_le (h : parse raw = .ok p) :
    (Bytes.ofText p.text).length ≤ (Bytes.ofText raw).length := by
  have hsub : p.text.toList.Sublist (unified raw) := by
    have hpieces : (p.segments.map String.toList).Sublist ((unified raw).splitOn '/') := by
      have hall : (pieces raw).map String.toList = (unified raw).splitOn '/' := by
        simp [pieces, List.map_map, Function.comp_def]
      rw [segments_of_parse h, ← hall]
      exact List.filter_sublist.map _
    have hchars := @sublist_intercalate _ ['/'] _ _ hpieces
    rwa [List.intercalate_splitOn, ← toList_text] at hchars
  -- turning a separator round does not change how many bytes it takes
  have hturned : ((unified raw).flatMap String.utf8EncodeChar).length =
      (raw.toList.flatMap String.utf8EncodeChar).length := by
    unfold unified
    rw [List.flatMap_map, List.length_flatMap, List.length_flatMap]
    refine congrArg List.sum (List.map_congr_left fun c _ => ?_)
    by_cases hc : c = '\\'
    · rw [if_pos hc, hc]
      decide
    · rw [if_neg hc]
  rw [Bytes.ofText_eq, Bytes.ofText_eq, ← hturned]
  exact (hsub.flatMap _).length_le

theorem eq_iff_remaining_eq (h : parse raw = .ok p) (h' : parse raw' = .ok q) :
    p = q ↔ remaining raw = remaining raw' := by
  rw [← segments_of_parse h, ← segments_of_parse h']
  exact ⟨congrArg segments, ext_segments⟩

end RelativePath

end Rebuild
