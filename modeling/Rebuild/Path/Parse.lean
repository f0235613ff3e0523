import Rebuild.Path.Basic
import Rebuild.Text.Quoted

/-!
# Reading relative paths

A text is read as a path by taking `\` for `/`, splitting at `/` and dropping the empty and `.`
pieces. Absolute texts, `..` pieces, a leading drive name and texts without any segment are refused;
the leftmost fault is the one reported.
-/
namespace Rebuild

/-- Why something is no relative path. -/
inductive PathFault where
  | absolute
  | parentSegment
  | drive
  | empty
  | notUtf8
  | backslash
  | notPlain
  deriving DecidableEq, Repr

def PathFault.message : PathFault → String
  | .absolute => "absolute paths are not allowed"
  | .parentSegment => "parent segments are not allowed"
  | .drive => "drive prefixes are not allowed"
  | .empty => "path is empty"
  | .notUtf8 => "file names must be valid UTF-8"
  | .backslash => "file names must not contain a backslash"
  | .notPlain => "only plain segments are allowed"

/-- A refused path: its text and what is wrong with it. -/
structure PathError where
  text : String
  fault : PathFault
  deriving DecidableEq, Repr

def PathError.message (e : PathError) : String :=
  s!"invalid relative path {quoted e.text}: {e.fault.message}"

namespace RelativePath

/-- The characters of a text with each `\` turned into `/`. -/
def unified (raw : String) : List Char := raw.toList.map fun c => if c = '\\' then '/' else c

/-- The pieces of a text between its separators. -/
def pieces (raw : String) : List String := ((unified raw).splitOn '/').map String.ofList

/-- The segments among the pieces. Only the first segment must not be a drive name. -/
def keepSegments (first : Bool) : List String → Except PathFault (List String)
  | [] => .ok []
  | s :: rest =>
    if s = "" ∨ s = "." then keepSegments first rest
    else if s = ".." then .error .parentSegment
    else if first && isDriveName s then .error .drive
    else (s :: ·) <$> keepSegments false rest

theorem not_mem_of_mem_splitOn {α : Type} [DecidableEq α] {a : α} {l piece : List α}
    (h : piece ∈ l.splitOn a) : a ∉ piece ∧ ∀ c ∈ piece, c ∈ l := by
  induction l generalizing piece with
  | nil => simp only [List.splitOn_nil, List.mem_singleton] at h; subst h; simp
  | cons hd tl ih =>
    rw [List.splitOn_cons_eq_if_modifyHead] at h
    split at h
    · rcases List.mem_cons.1 h with rfl | h
      · simp
      · exact ⟨(ih h).1, fun c hc => List.mem_cons_of_mem _ ((ih h).2 c hc)⟩
    next hne =>
      obtain ⟨first, rest, hl⟩ := List.exists_cons_of_ne_nil (List.splitOn_ne_nil a tl)
      rw [hl] at h ih
      rcases List.mem_cons.1 h with rfl | h
      · have := ih (List.mem_cons_self ..)
        refine ⟨fun ha => ?_, fun c hc => ?_⟩
        · rcases List.mem_cons.1 ha with rfl | ha
          · simp at hne
          · exact this.1 ha
        · rcases List.mem_cons.1 hc with rfl | hc
          · exact List.mem_cons_self ..
          · exact List.mem_cons_of_mem _ (this.2 c hc)
      · have := ih (List.mem_cons_of_mem _ h)
        exact ⟨this.1, fun c hc => List.mem_cons_of_mem _ (this.2 c hc)⟩

theorem not_mem_of_mem_pieces {raw s : String} (h : s ∈ pieces raw) :
    '/' ∉ s.toList ∧ '\\' ∉ s.toList := by
  obtain ⟨piece, hp, rfl⟩ := List.mem_map.1 h
  obtain ⟨h1, h2⟩ := not_mem_of_mem_splitOn hp
  refine ⟨by simpa using h1, fun hb => ?_⟩
  have := h2 '\\' (by simpa using hb)
  obtain ⟨c, -, hc⟩ := List.mem_map.1 this
  split at hc
  · exact absurd hc (by decide)
  · contradiction

theorem plain_of_keepSegments {first : Bool} {l segments : List String}
    (hl : ∀ s ∈ l, '/' ∉ s.toList ∧ '\\' ∉ s.toList) (h : keepSegments first l = .ok segments) :
    ∀ s ∈ segments, IsSegment s := by
  induction l generalizing first segments with
  | nil => cases h; simp
  | cons hd tl ih =>
    have htl : ∀ s ∈ tl, '/' ∉ s.toList ∧ '\\' ∉ s.toList := fun s hs =>
      hl s (List.mem_cons_of_mem _ hs)
    rw [keepSegments] at h
    split at h
    · exact ih htl h
    next h1 =>
      split at h
      · cases h
      next h2 =>
        split at h
        · cases h
        · cases ht : keepSegments false tl with
          | error e => rw [ht] at h; cases h
          | ok rest =>
            rw [ht] at h
            cases h
            intro s hs
            rcases List.mem_cons.1 hs with rfl | hs
            · have := hl s (List.mem_cons_self ..)
              exact ⟨fun e => h1 (.inl e), fun e => h1 (.inr e), h2, this.1, this.2⟩
            · exact ih htl ht s hs

theorem noDrive_of_keepSegments {l segments : List String}
    (h : keepSegments true l = .ok segments) :
    ∀ s ∈ segments.head?, isDriveName s = false := by
  induction l generalizing segments with
  | nil => cases h; simp
  | cons hd tl ih =>
    rw [keepSegments] at h
    split at h
    · exact ih h
    · split at h
      · cases h
      · split at h
        · cases h
        next hd' =>
          cases ht : keepSegments false tl with
          | error e => rw [ht] at h; cases h
          | ok rest =>
            rw [ht] at h
            cases h
            simpa using hd'

/-- Reads a text as a path, or names its leftmost fault. -/
def parseFault (raw : String) : Except PathFault RelativePath :=
  if (unified raw).head? = some '/' then .error .absolute
  else
    match h : keepSegments true (pieces raw) with
    | .error fault => .error fault
    | .ok segments =>
      if hne : segments = [] then .error .empty
      else .ok {
        segments
        nonempty := hne
        plain := plain_of_keepSegments (fun _ hs => not_mem_of_mem_pieces hs) h
        noDrive := noDrive_of_keepSegments h }

/-- Reads a text as a path. -/
def parse (raw : String) : Except PathError RelativePath :=
  (parseFault raw).mapError (⟨raw, ·⟩)

end RelativePath

end Rebuild
