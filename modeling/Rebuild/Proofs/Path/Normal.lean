import Mathlib.Data.List.TakeWhile
import Rebuild.Fingerprint.Payload
import Rebuild.Inputs.SourceSet
import Rebuild.Path.Os
import Rebuild.Proofs.Path.Reading

/-!
# Paths stay normal

Suppose that paths are kept as texts and that only readers check anything: one path is put
below another by writing it behind the other and a separator, and a directory is what stands
before the last separator. Still all texts that are ever kept are normal, and they are the
texts of paths, so nothing is lost by keeping the segments instead.

* `RelativePath.joinTexts`, `RelativePath.cutLast?`: the operations on texts.
* `text_join`, `cutLast?_text`: what they are on segments.
* `RelativePath.IsNormal`: normal texts. `isNormal_iff`: these are the texts of paths.
* `RelativePath.Kept`: the texts that any calls lead to.
* `kept_texts_normal`: these are the normal ones, and which texts are read as which.
-/
namespace Rebuild.RelativePath

variable {s t : String}

/-! ## Operations on texts -/

/-- The text of one path, and below it another. -/
def joinTexts (s t : String) : String := s ++ "/" ++ t

/-- What stands before and after the last separator. -/
def cutLast? (s : String) : Option (String × String) :=
  let backwards := s.toList.reverse
  match backwards.dropWhile (· ≠ '/') with
  | [] => none
  | _ :: rest =>
    some (String.ofList rest.reverse, String.ofList (backwards.takeWhile (· ≠ '/')).reverse)

theorem cutLast?_of_not_mem (h : '/' ∉ s.toList) : cutLast? s = none := by
  have hrest : s.toList.reverse.dropWhile (· ≠ '/') = [] := by
    rw [List.dropWhile_eq_nil_iff]
    intro c hc
    exact decide_eq_true fun heq => h (heq ▸ List.mem_reverse.1 hc)
  unfold cutLast?
  simp only [hrest]

theorem cutLast?_joinTexts (h : '/' ∉ t.toList) : cutLast? (joinTexts s t) = some (s, t) := by
  have hchars : (joinTexts s t).toList.reverse = t.toList.reverse ++ '/' :: s.toList.reverse := by
    simp [joinTexts, String.toList_append]
  have hname : ∀ c ∈ t.toList.reverse, decide (c ≠ '/') = true := fun c hc =>
    decide_eq_true fun heq => h (heq ▸ List.mem_reverse.1 hc)
  unfold cutLast?
  simp only [hchars, List.takeWhile_append_of_pos hname, List.dropWhile_append_of_pos hname]
  simp

/-! ## Operations on paths -/

variable {p q : RelativePath}

theorem text_join (p q : RelativePath) : (p.join q).text = joinTexts p.text q.text :=
  String.intercalate_append_of_ne_nil p.nonempty q.nonempty

/-- What stands before the last separator is the directory, and behind it stands the last name. -/
theorem cutLast?_text (p : RelativePath) :
    cutLast? p.text = p.parent?.map fun d => (d.text, p.fileName) := by
  have hsplit : p.segments = p.segments.dropLast ++ [p.fileName] :=
    (List.dropLast_concat_getLast p.nonempty).symm
  have hlast : '/' ∉ p.fileName.toList :=
    (p.plain _ (List.getLast_mem p.nonempty)).2.2.2.1
  unfold parent?
  split
  next hnone =>
    have htext : p.text = p.fileName := by
      unfold text
      rw [hsplit, hnone, List.nil_append, String.intercalate_singleton]
    rw [htext]
    exact cutLast?_of_not_mem hlast
  next hsome =>
    have htext : p.text = joinTexts ("/".intercalate p.segments.dropLast) p.fileName := by
      unfold text
      rw [hsplit, String.intercalate_append_of_ne_nil (by simpa using hsome) (List.cons_ne_nil _ _),
        String.intercalate_singleton, List.dropLast_concat]
      rfl
    rw [htext]
    exact cutLast?_joinTexts hlast

/-! ## Normal texts -/

/-- Segments that are joined by single separators, the first of which is not two bytes long and
ends in a colon. -/
def IsNormal (s : String) : Prop :=
  ∃ segments : List String, segments ≠ [] ∧ s = "/".intercalate segments ∧
    (∀ x ∈ segments, IsSegment x) ∧
    ∀ x ∈ segments.head?, ¬((Bytes.ofText x).length = 2 ∧ x.toList.getLast? = some ':')

theorem not_isDriveName_iff : isDriveName s = false ↔
    ¬((Bytes.ofText s).length = 2 ∧ s.toList.getLast? = some ':') := by
  rw [← isDriveName_iff, Bool.not_eq_true]

/-- The texts of paths are the normal ones. -/
theorem isNormal_iff : IsNormal s ↔ ∃ p : RelativePath, p.text = s := by
  constructor
  · rintro ⟨segments, hne, rfl, hplain, hdrive⟩
    exact ⟨⟨segments, hne, hplain, fun x hx => not_isDriveName_iff.2 (hdrive x hx)⟩, rfl⟩
  · rintro ⟨p, rfl⟩
    exact ⟨p.segments, p.nonempty, rfl, p.plain, fun x hx => not_isDriveName_iff.1 (p.noDrive x hx)⟩

theorem isNormal_text (p : RelativePath) : IsNormal p.text := isNormal_iff.2 ⟨p, rfl⟩

theorem IsNormal.join (h : IsNormal s) (h' : IsNormal t) : IsNormal (joinTexts s t) := by
  obtain ⟨p, rfl⟩ := isNormal_iff.1 h
  obtain ⟨q, rfl⟩ := isNormal_iff.1 h'
  exact text_join p q ▸ isNormal_text _

theorem IsNormal.cutLast {name : String} (h : IsNormal s) (hcut : cutLast? s = some (t, name)) :
    IsNormal t := by
  obtain ⟨p, rfl⟩ := isNormal_iff.1 h
  rw [cutLast?_text, Option.map_eq_some_iff] at hcut
  obtain ⟨d, -, heq⟩ := hcut
  obtain rfl : d.text = t := congrArg Prod.fst heq
  exact isNormal_text d

/-- The texts that calls lead to. Readers of texts, of JSON, of payloads and of paths of the
operating system check what they read; what is done with the texts then is not checked. -/
inductive Kept : String → Prop
  | parse {raw : String} {p : RelativePath} (h : parse raw = .ok p) : Kept p.text
  | json {tree : Json.Tree} {p : RelativePath} (h : ofTree? tree = some p) : Kept p.text
  | payload {b rest : Bytes} {p : RelativePath} (h : Payload.readPath b = .ok (p, rest)) :
    Kept p.text
  | os {path : OsPath} {p : RelativePath} (h : ofOs path = .ok p) : Kept p.text
  | join {s t : String} (h : Kept s) (h' : Kept t) : Kept (joinTexts s t)
  | parent {s t name : String} (h : Kept s) (hcut : cutLast? s = some (t, name)) : Kept t

theorem kept_iff : Kept s ↔ IsNormal s := by
  constructor
  · intro h
    induction h with
    | parse | json | payload | os => exact isNormal_text _
    | join _ _ ih ih' => exact ih.join ih'
    | parent _ hcut ih => exact ih.cutLast hcut
  · intro h
    obtain ⟨p, rfl⟩ := isNormal_iff.1 h
    exact .parse (parse_text p)

/-- All texts that are ever kept are normal. A text is read if it is relative, something remains of
it, it has no step up, and what remains does not begin with a drive name; the segments of the path
are what remains. So a path is read back from its text, and texts are read as the same path if the
same remains of them. -/
theorem kept_texts_normal :
    (∀ s, Kept s ↔ IsNormal s) ∧
    (∀ p q : RelativePath, (p.join q).text = joinTexts p.text q.text ∧
      p.parent?.map text = (cutLast? p.text).map Prod.fst) ∧
    (∀ raw, (∃ p, parse raw = .ok p) ↔
      (unified raw).head? ≠ some '/' ∧ remaining raw ≠ [] ∧ ".." ∉ pieces raw ∧
        ∀ x ∈ (remaining raw).head?,
          ¬((Bytes.ofText x).length = 2 ∧ x.toList.getLast? = some ':')) ∧
    (∀ raw p, parse raw = .ok p → p.segments = remaining raw) ∧
    (∀ p : RelativePath, parse p.text = .ok p) ∧
    ∀ raw raw' p p', parse raw = .ok p → parse raw' = .ok p' →
      (p = p' ↔ p.text = p'.text) ∧ (p = p' ↔ remaining raw = remaining raw') := by
  refine ⟨fun s => kept_iff, fun p q => ⟨text_join p q, ?_⟩, fun raw => ?_,
    fun _ _ h => segments_of_parse h, parse_text, fun _ _ _ _ h h' =>
      ⟨⟨congrArg text, text_injective⟩, eq_iff_remaining_eq h h'⟩⟩
  · rw [cutLast?_text, Option.map_map]
    rfl
  · simp only [← not_isDriveName_iff]
    exact exists_parse_iff

/-- A drive name is refused behind a step that does not count. As a second segment it is read, also
behind a separator that was turned round. -/
theorem kept_texts_normal_drive :
    (¬∃ p, parse ".\\C:/x" = .ok p) ∧
      ∃ p, parse "x//.\\C:" = .ok p ∧ parse "./x\\C:" = .ok p ∧ p.segments = ["x", "C:"] := by
  obtain ⟨-, -, hread, hsegments, -, hsame⟩ := kept_texts_normal
  refine ⟨fun h => ?_, ?_⟩
  · exact ((hread _).1 h).2.2.2 "C:" (by decide) (by decide)
  · obtain ⟨p, h⟩ := (hread "x//.\\C:").2 (by decide)
    obtain ⟨p', h'⟩ := (hread "./x\\C:").2 (by decide)
    obtain rfl : p = p' := (hsame _ _ p p' h h').2.2 (by decide)
    exact ⟨p, h, h', (hsegments _ p h).trans (by decide)⟩

end Rebuild.RelativePath
