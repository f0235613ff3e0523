import Rebuild.Path.Parse

/-!
# The text of a path reads back

`RelativePath.parse` refuses texts and tidies others up; the text of a path is
already tidy, so it is read as that path.

* `parse_text`: reading the text of a path gives the path.
-/
namespace Rebuild

theorem sublist_intercalate {α : Type} {sep : List α} {l l' : List (List α)} (h : l'.Sublist l) :
    (sep.intercalate l').Sublist (sep.intercalate l) := by
  have hcons (a : List α) (l : List (List α)) : sep.intercalate (a :: l) =
      a ++ (if l = [] then [] else sep ++ sep.intercalate l) := by
    cases l with
    | nil => simp
    | cons b l => simp [List.intercalate_cons_cons]
  induction h with
  | slnil => exact List.Sublist.refl _
  | @cons l' l a h ih =>
    rw [hcons]
    split
    next hnil =>
      subst hnil
      rw [List.sublist_nil.1 h]
      exact List.nil_sublist _
    · exact ih.trans ((List.sublist_append_right sep _).trans (List.sublist_append_right a _))
  | @cons_cons l' l a h ih =>
    rw [hcons, hcons]
    refine List.Sublist.append_left ?_ a
    split
    · exact List.nil_sublist _
    next hne =>
      rw [if_neg fun hnil => hne (by simpa [hnil] using h)]
      exact ih.append_left sep

namespace RelativePath

theorem mem_intercalate {sep : List Char} : ∀ {l : List (List Char)} {c : Char},
    c ∈ sep.intercalate l → c ∈ sep ∨ ∃ s ∈ l, c ∈ s
  | [], c, h => by simp at h
  | [s], c, h => Or.inr ⟨s, by simp, by simpa using h⟩
  | s :: t :: rest, c, h => by
    rw [List.intercalate_cons_cons] at h
    simp only [List.mem_append] at h
    rcases h with (h | h) | h
    · exact Or.inr ⟨s, by simp, h⟩
    · exact Or.inl h
    · rcases mem_intercalate h with h | ⟨u, hu, hc⟩
      · exact Or.inl h
      · exact Or.inr ⟨u, List.mem_cons_of_mem _ hu, hc⟩

theorem toList_text (p : RelativePath) :
    p.text.toList = ['/'].intercalate (p.segments.map String.toList) := String.toList_intercalate

theorem unified_intercalate {l : List String} (h : ∀ s ∈ l, IsSegment s) :
    unified ("/".intercalate l) = ("/".intercalate l).toList := by
  have hsame : ∀ c ∈ ("/".intercalate l).toList, (if c = '\\' then '/' else c) = id c := by
    intro c hc
    rw [if_neg, id]
    rintro rfl
    rw [String.toList_intercalate] at hc
    rcases mem_intercalate hc with hc | ⟨t, ht, hc⟩
    · exact absurd hc (by decide)
    · obtain ⟨s, hs, rfl⟩ := List.mem_map.1 ht
      exact (h s hs).2.2.2.2 hc
  rw [unified, List.map_congr_left hsame, List.map_id]

theorem pieces_intercalate {l : List String} (h : ∀ s ∈ l, IsSegment s) (hne : l ≠ []) :
    pieces ("/".intercalate l) = l := by
  have hchars : ("/".intercalate l).toList = ['/'].intercalate (l.map String.toList) :=
    String.toList_intercalate
  rw [pieces, unified_intercalate h, hchars, List.splitOn_intercalate]
  · simp
  · intro t ht
    obtain ⟨s, hs, rfl⟩ := List.mem_map.1 ht
    exact (h s hs).2.2.2.1
  · simpa using hne

theorem unified_text (p : RelativePath) : unified p.text = p.text.toList :=
  unified_intercalate p.plain

theorem pieces_text (p : RelativePath) : pieces p.text = p.segments :=
  pieces_intercalate p.plain p.nonempty

/-- A plain segment that is no drive name, or not the first, is kept. -/
theorem keepSegments_cons {first : Bool} {s : String} {rest kept : List String} (hs : IsSegment s)
    (hd : (first && isDriveName s) = false) (hr : keepSegments false rest = .ok kept) :
    keepSegments first (s :: rest) = .ok (s :: kept) := by
  rw [keepSegments, if_neg (fun e => e.elim hs.1 hs.2.1), if_neg hs.2.2.1, hd, hr]
  rfl

theorem keepSegments_false {l : List String} (h : ∀ s ∈ l, IsSegment s) :
    keepSegments false l = .ok l := by
  induction l with
  | nil => rfl
  | cons s rest ih =>
    exact keepSegments_cons (h s (by simp)) (by simp) (ih fun t ht => h t (by simp [ht]))

theorem keepSegments_segments (p : RelativePath) :
    keepSegments true p.segments = .ok p.segments := by
  obtain ⟨s, rest, h⟩ := List.exists_cons_of_ne_nil p.nonempty
  rw [h]
  exact keepSegments_cons (p.plain s (by simp [h])) (by simpa using p.noDrive s (by simp [h]))
    (keepSegments_false fun t ht => p.plain t (by simp [h, ht]))

theorem head?_text (p : RelativePath) : p.text.toList.head? ≠ some '/' := by
  obtain ⟨s, rest, h⟩ := List.exists_cons_of_ne_nil p.nonempty
  have hs := p.plain s (by simp [h])
  obtain ⟨c, cs, hc⟩ := List.exists_cons_of_ne_nil (l := s.toList) fun e => hs.1 (by simpa using e)
  have hslash : c ≠ '/' := fun e => hs.2.2.2.1 (by simp [hc, e])
  have hhead : p.text.toList.head? = some c := by
    rw [toList_text, h, List.map_cons, hc]
    cases rest with
    | nil => simp
    | cons t ts => rw [List.map_cons, List.intercalate_cons_cons]; simp
  rw [hhead]
  intro e
  exact hslash (Option.some.inj e)

theorem parseFault_text (p : RelativePath) : parseFault p.text = .ok p := by
  have hk : keepSegments true (pieces p.text) = .ok p.segments := by
    rw [pieces_text, keepSegments_segments]
  unfold parseFault
  rw [if_neg (by rw [unified_text]; exact p.head?_text)]
  split
  · next fault h => rw [hk] at h; cases h
  · next segments h =>
    have : segments = p.segments := by rw [hk] at h; cases h; rfl
    subst this
    rw [dif_neg p.nonempty]

theorem parse_text (p : RelativePath) : parse p.text = .ok p := by
  rw [parse, parseFault_text]; rfl

end RelativePath

end Rebuild
