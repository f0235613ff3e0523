import Rebuild.Path.Os
import Rebuild.Proofs.Path.Names
import Rebuild.Proofs.Path.Reading

/-!
# Components of paths of the operating system

A path below a root has the components of the root and then its own segments. Paths of
the operating system are read component by component, and what is read has just the names
of the path as its segments.

* `OsPath.components_push`, `RelativePath.components_under`: one name below, a path below.
* `RelativePath.ofOs_eq_ok_iff`: which path is read, and when.
* `RelativePath.Foreign`, `not_ofOs_of_foreign`: components that are never read.
-/
namespace Rebuild

namespace Bytes

theorem mem_ofText_of_mem {s : String} {c : Char} (h : c ∈ s.toList) {b : UInt8}
    (hb : b ∈ String.utf8EncodeChar c) : b ∈ ofText s := by
  rw [ofText_eq]
  exact List.mem_flatMap.2 ⟨c, h, hb⟩

end Bytes

/-! ## Components -/

namespace OsPath

/-- Whether a component is a plain name. -/
def Component.isName : Component → Bool
  | .name _ => true
  | _ => false

variable {name : Bytes} {q : OsPath}

theorem IsName.ofPiece_eq (h : IsName name) : Component.ofPiece name = some (.name name) := by
  unfold Component.ofPiece
  rw [if_neg (fun e => e.elim h.ne_nil h.ne_dot), if_neg h.ne_dots]

theorem components_append_separator (p q : OsPath) :
    components (p ++ separator :: q) = (if p = [] then [.root] else origin p) ++
      ((p.splitOn separator).filterMap Component.ofPiece ++
        (q.splitOn separator).filterMap Component.ofPiece) := by
  unfold components
  rw [List.splitOn_append_cons_self, List.filterMap_append]
  congr 1
  unfold origin isAbsolute
  rw [List.splitOn_append_cons_self]
  cases p with
  | nil => rfl
  | cons b p =>
    obtain ⟨piece, rest, hsplit⟩ :=
      List.exists_cons_of_ne_nil (List.splitOn_ne_nil separator (b :: p))
    rw [hsplit]
    simp

theorem components_push (h : IsName name) (dir : OsPath) :
    components (push dir name) = components dir ++ [.name name] := by
  have hname : (name.splitOn separator).filterMap Component.ofPiece = [.name name] := by
    rw [List.splitOn_eq_singleton h.plain, List.filterMap_cons_some h.ofPiece_eq]
    rfl
  unfold push
  rw [h.isAbsolute_eq, if_neg Bool.false_ne_true]
  split
  next hend =>
    rcases hend with rfl | hend
    · have horigin : origin name = [] := by
        unfold origin
        rw [h.isAbsolute_eq, List.splitOn_eq_singleton h.plain]
        simpa using h.ne_dot
      unfold components
      rw [List.nil_append, horigin, hname]
      rfl
    · obtain ⟨rest, rfl⟩ := List.getLast?_eq_some_iff.1 hend
      rw [List.append_assoc, List.singleton_append, components_append_separator, hname,
        components_append_separator, List.splitOn_nil, ← List.append_assoc, ← List.append_assoc]
      congr 1
      exact (List.append_nil _).symm
  next hend =>
    rw [components_append_separator, if_neg fun hdir => hend (.inl hdir), hname,
      ← List.append_assoc]
    rfl

theorem components_below {names : List Bytes} (h : ∀ n ∈ names, IsName n) (dir : OsPath) :
    components (below dir names) = components dir ++ names.map .name := by
  induction names generalizing dir with
  | nil => exact (List.append_nil _).symm
  | cons name names ih =>
    obtain ⟨hname, hnames⟩ := List.forall_mem_cons.1 h
    rw [show below dir (name :: names) = below (push dir name) names from rfl, ih hnames,
      components_push hname, List.append_assoc]
    rfl

theorem isName_of_mem_components (h : .name name ∈ components q) : IsName name := by
  unfold components at h
  rcases List.mem_append.1 h with h | h
  · unfold origin at h
    split at h
    · simp at h
    · split at h <;> simp at h
  · obtain ⟨piece, hpiece, hof⟩ := List.mem_filterMap.1 h
    unfold Component.ofPiece at hof
    split at hof
    · cases hof
    next hskipped =>
      obtain ⟨hempty, hdot⟩ := not_or.1 hskipped
      split at hof
      · cases hof
      next hdots =>
        cases hof
        exact ⟨hempty, hdot, hdots, (RelativePath.not_mem_of_mem_splitOn hpiece).1⟩

end OsPath

namespace RelativePath
open OsPath

variable {p : RelativePath} {q : OsPath} {names : List String} {l : List Component}

theorem components_under (p : RelativePath) (root : OsPath) :
    components (p.under root) =
      components root ++ p.segments.map fun s => .name (Bytes.ofText s) := by
  rw [under_eq, components_below p.isName_segments, List.map_map]
  rfl

theorem nameOf_injective :
    Function.Injective fun s : String => Component.name (Bytes.ofText s) :=
  fun _ _ h => Bytes.ofText_injective (Component.name.inj h)

/-! ## What is read -/

/-- Components are read as names if those that count are names, of text without backslashes. -/
theorem plainNames_eq_ok_iff : plainNames l = .ok names ↔
    (l.filter (· ≠ .current) = names.map fun s => .name (Bytes.ofText s)) ∧
      ∀ s ∈ names, '\\' ∉ s.toList := by
  induction l generalizing names with
  | nil => cases names <;> simp [plainNames]
  | cons c rest ih =>
    cases c with
    | current => simpa [plainNames] using ih
    | root => cases names <;> simp [plainNames]
    | parent => cases names <;> simp [plainNames]
    | name bytes =>
      rw [plainNames, List.filter_cons_of_pos (by simp)]
      cases htext : bytes.text? with
      | none =>
        cases names with
        | nil => simp
        | cons s names =>
          simp only [reduceCtorEq, List.map_cons, List.cons.injEq, Component.name.injEq, false_iff]
          rintro ⟨⟨rfl, -⟩, -⟩
          rw [Bytes.text?_ofText] at htext
          cases htext
      | some s =>
        obtain rfl := Bytes.ofText_of_text? htext
        dsimp only
        split
        next hslash =>
          cases names with
          | nil => simp
          | cons s' names =>
            simp only [reduceCtorEq, List.map_cons, List.cons.injEq, Component.name.injEq,
              List.forall_mem_cons, false_iff]
            rintro ⟨⟨heq, -⟩, hno, -⟩
            exact hno (Bytes.ofText_injective heq ▸ hslash)
        next hslash =>
          cases hrest : plainNames rest with
          | error e =>
            cases names with
            | nil => simp [Functor.map, Except.map]
            | cons s' names =>
              simp only [Functor.map, Except.map, reduceCtorEq, List.map_cons, List.cons.injEq,
                List.forall_mem_cons, false_iff]
              rintro ⟨⟨-, heq⟩, -, hno⟩
              cases hrest.symm.trans (ih.2 ⟨heq, hno⟩)
          | ok kept =>
            obtain ⟨hkept, hplain⟩ := ih.1 hrest
            simp only [Functor.map, Except.map, Except.ok.injEq]
            constructor
            · rintro rfl
              exact ⟨by rw [List.map_cons, hkept], List.forall_mem_cons.2 ⟨hslash, hplain⟩⟩
            · rintro ⟨heq, -⟩
              rw [hkept, ← List.map_cons (f := fun s => Component.name (Bytes.ofText s))] at heq
              exact (List.map_inj_right fun _ _ h => nameOf_injective h).1 heq

theorem isSegment_of_isName {s : String} (h : IsName (Bytes.ofText s)) (hslash : '\\' ∉ s.toList) :
    IsSegment s := by
  refine ⟨?_, ?_, ?_, fun hmem => ?_, hslash⟩
  · rintro rfl
    exact h.ne_nil (by decide)
  · rintro rfl
    exact h.ne_dot (by decide)
  · rintro rfl
    exact h.ne_dots (by decide)
  · exact h.plain (Bytes.mem_ofText_of_mem hmem (by decide))

theorem remaining_intercalate (h : ∀ s ∈ names, IsSegment s) (hne : names ≠ []) :
    remaining ("/".intercalate names) = names := by
  unfold remaining
  rw [pieces_intercalate h hne, List.filter_eq_self]
  exact fun s hs => decide_eq_true ⟨(h s hs).1, (h s hs).2.1⟩

/-- A path is read if its components, but for a step at its start that stays, are the segments. -/
theorem ofOs_eq_ok_iff : ofOs q = .ok p ↔
    (components q).filter (· ≠ .current) = p.segments.map fun s => .name (Bytes.ofText s) := by
  unfold ofOs
  constructor
  · intro h
    split at h
    · cases h
    next names hnames =>
      obtain ⟨hcomponents, hslash⟩ := plainNames_eq_ok_iff.1 hnames
      have hsegments : ∀ s ∈ names, IsSegment s := by
        intro s hs
        have hmem : Component.name (Bytes.ofText s) ∈ (components q).filter (· ≠ .current) := by
          rw [hcomponents]
          exact List.mem_map_of_mem hs
        exact isSegment_of_isName (isName_of_mem_components (List.mem_filter.1 hmem).1)
          (hslash s hs)
      have hne : names ≠ [] := by
        rintro rfl
        cases h
      rw [hcomponents, segments_of_parse h, remaining_intercalate hsegments hne]
  · intro h
    have hnames : plainNames (components q) = .ok p.segments :=
      plainNames_eq_ok_iff.2 ⟨h, fun s hs => (p.plain s hs).2.2.2.2⟩
    rw [hnames]
    exact parse_text p

/-- A component that is no part of a relative path: a root, a step up, or a name that is no text or
has a backslash. -/
inductive Foreign : Component → Prop
  | root : Foreign .root
  | parent : Foreign .parent
  | noText {name : Bytes} (h : name.text? = none) : Foreign (.name name)
  | backslash {name : Bytes} (h : 0x5C ∈ name) : Foreign (.name name)

theorem not_ofOs_of_foreign {c : Component} (hmem : c ∈ components q) (hc : Foreign c) :
    ofOs q ≠ .ok p := by
  intro h
  have hcurrent : decide (c ≠ .current) = true := decide_eq_true (by rintro rfl; cases hc)
  have hname : c ∈ (components q).filter (· ≠ .current) := List.mem_filter.2 ⟨hmem, hcurrent⟩
  rw [ofOs_eq_ok_iff.1 h] at hname
  obtain ⟨s, hs, rfl⟩ := List.mem_map.1 hname
  cases hc with
  | noText htext =>
    rw [Bytes.text?_ofText] at htext
    cases htext
  | backslash hbyte =>
    obtain ⟨c, hc, heq⟩ := Bytes.mem_ofText hbyte (by decide)
    obtain rfl : c = '\\' := Char.toNat_inj.1 heq
    exact (p.plain s hs).2.2.2.2 hc

end RelativePath

end Rebuild
