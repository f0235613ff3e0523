/-!
# Relative paths

A path below some root: a non-empty list of plain segments, the first of which is no drive name.
Its text joins the segments by `/`.

* `RelativePath.segments_text`: splitting the text at `/` gives the segments back.
* `RelativePath.text_injective`: so paths with the same text are equal.
* Paths are ordered by their texts, character by character.
-/
namespace Rebuild
open Std

/-- A name that may stand between separators. -/
def IsSegment (s : String) : Prop :=
  s ≠ "" ∧ s ≠ "." ∧ s ≠ ".." ∧ '/' ∉ s.toList ∧ '\\' ∉ s.toList

instance (s : String) : Decidable (IsSegment s) := inferInstanceAs (Decidable (_ ∧ _))

/-- Two bytes, the second a colon. -/
def isDriveName (s : String) : Bool :=
  match s.toList with
  | [c, ':'] => c.toNat < 0x80
  | _ => false

/-- A normal path relative to some root. -/
structure RelativePath where
  segments : List String
  nonempty : segments ≠ []
  plain : ∀ s ∈ segments, IsSegment s
  noDrive : ∀ s ∈ segments.head?, isDriveName s = false

namespace RelativePath

theorem ext_segments {p q : RelativePath} (h : p.segments = q.segments) : p = q := by
  cases p; cases q; cases h; rfl

instance : DecidableEq RelativePath := fun p q =>
  decidable_of_iff (p.segments = q.segments) ⟨ext_segments, fun h => h ▸ rfl⟩

/-- The segments, joined by `/`. -/
def text (p : RelativePath) : String := "/".intercalate p.segments

instance : ToString RelativePath := ⟨text⟩

/-- Splitting the text at its separators gives the segments back. -/
theorem segments_text (p : RelativePath) :
    (p.text.toList.splitOn '/').map String.ofList = p.segments := by
  have h : p.text.toList = ['/'].intercalate (p.segments.map String.toList) :=
    String.toList_intercalate
  rw [h, List.splitOn_intercalate]
  · simp
  · intro l hl
    obtain ⟨s, hs, rfl⟩ := List.mem_map.1 hl
    exact (p.plain s hs).2.2.2.1
  · simpa using p.nonempty

theorem text_injective {p q : RelativePath} (h : p.text = q.text) : p = q :=
  ext_segments (by rw [← p.segments_text, ← q.segments_text, h])

instance : Ord RelativePath := ⟨compareOn text⟩

instance : TransOrd RelativePath := inferInstanceAs (TransCmp (compareOn text))

instance : LawfulEqOrd RelativePath where
  eq_of_compare h := text_injective (LawfulEqOrd.eq_of_compare h)
  compare_self := ReflOrd.compare_self (α := String)

/-- The last segment. -/
def fileName (p : RelativePath) : String := p.segments.getLast p.nonempty

/-- The path of `q` below the directory `p`. -/
def join (p q : RelativePath) : RelativePath where
  segments := p.segments ++ q.segments
  nonempty := by simp [p.nonempty]
  plain s hs := (List.mem_append.1 hs).elim (p.plain s) (q.plain s)
  noDrive s hs := p.noDrive s (by
    obtain ⟨a, rest, h⟩ := List.exists_cons_of_ne_nil p.nonempty
    simpa [h] using hs)

/-- The directory that holds the path; none for a single segment. -/
def parent? (p : RelativePath) : Option RelativePath :=
  if h : p.segments.dropLast = [] then none
  else some {
    segments := p.segments.dropLast
    nonempty := h
    plain := fun s hs => p.plain s (List.dropLast_subset _ hs)
    noDrive := fun s hs => p.noDrive s (by
      rw [List.head?_dropLast] at hs
      split at hs <;> simp_all) }

/-- Whether the path is `dir` or lies below it. -/
def startsWith (p dir : RelativePath) : Bool := dir.segments.isPrefixOf p.segments

end RelativePath

end Rebuild
