import Mathlib.Data.List.Infix
import Rebuild.Proofs.Disk.Walk
import Rebuild.Proofs.Path.Components

/-!
# Paths stay below their root

A relative path lies strictly below every root, at a place of its own, and is read back
when the root is taken off. A path of the operating system that is read as a relative
path names the same file.

* `OsPath.strip?`: what is left of a path when a directory is taken off its front.
* `RelativePath.ofOs_strip`: the relative path is read back from it.
* `OsPath.Skips`, `Disk.walk_of_skips`: steps that stay may be left out of a walk.
* `RelativePath.resolve_under`: a path that was read leads to the same place.
* `RelativePath.rooted`: paths and roots.
-/
namespace Rebuild

/-! ## Taking a root off -/

namespace OsPath

/-- What is left of a path when the components of a directory are taken off its front. -/
def strip? (dir path : OsPath) : Option OsPath :=
  path.tails.find? fun rest => components path = components dir ++ components rest

theorem push_push {a b : Bytes} (ha : IsName a) (hb : isAbsolute b = false) (dir : OsPath) :
    push (push dir a) b = push dir (a ++ separator :: b) := by
  have hnext : isAbsolute (a ++ separator :: b) = false := by
    obtain ⟨x, rest, rfl⟩ := List.exists_cons_of_ne_nil ha.ne_nil
    simpa [isAbsolute] using ha.isAbsolute_eq
  have hjoined (p : OsPath) : push (p ++ a) b = p ++ (a ++ separator :: b) := by
    have hend : ¬(p ++ a = [] ∨ (p ++ a).getLast? = some separator) := fun h =>
      h.elim (fun h => ha.ne_nil (List.append_eq_nil_iff.1 h).2) (ha.getLast?_append p)
    rw [push, hb, if_neg Bool.false_ne_true, if_neg hend, List.append_assoc]
  rw [push.eq_1 dir a, push.eq_1 dir (a ++ separator :: b), ha.isAbsolute_eq, hnext]
  simp only [Bool.false_eq_true, if_false]
  split
  · exact hjoined dir
  · have := hjoined (dir ++ [separator])
    simpa using this

theorem not_isAbsolute_intercalate {names : List Bytes} (h : ∀ n ∈ names, IsName n) :
    isAbsolute ([separator].intercalate names) = false := by
  cases names with
  | nil => rfl
  | cons name names =>
    have hname := h name List.mem_cons_self
    obtain ⟨x, rest, rfl⟩ := List.exists_cons_of_ne_nil hname.ne_nil
    cases names with
    | nil => simpa using hname.isAbsolute_eq
    | cons next names =>
      rw [List.intercalate_cons_cons]
      simpa [isAbsolute] using hname.isAbsolute_eq

theorem below_eq_push {names : List Bytes} (h : ∀ n ∈ names, IsName n) (hne : names ≠ [])
    (dir : OsPath) : below dir names = push dir ([separator].intercalate names) := by
  induction names generalizing dir with
  | nil => exact absurd rfl hne
  | cons name names ih =>
    obtain ⟨hname, hnames⟩ := List.forall_mem_cons.1 h
    cases names with
    | nil => rw [List.intercalate_singleton]; rfl
    | cons next rest =>
      have hbelow : below dir (name :: next :: rest) = below (push dir name) (next :: rest) := rfl
      rw [hbelow, ih hnames (List.cons_ne_nil _ _), List.intercalate_cons_cons,
        push_push hname (not_isAbsolute_intercalate hnames), List.append_assoc]
      rfl

theorem push_nil_left (p : OsPath) : push [] p = p := by
  unfold push
  split
  · rfl
  · rw [if_pos (.inl rfl), List.nil_append]

theorem steps_below_nil {names : List Bytes} (h : ∀ n ∈ names, IsName n) (hne : names ≠ []) :
    steps (below [] names) = names.map .down := by
  obtain ⟨name, rest, rfl⟩ := List.exists_cons_of_ne_nil hne
  obtain ⟨hname, hrest⟩ := List.forall_mem_cons.1 h
  have hbelow : below [] (name :: rest) = below name rest :=
    congrArg (below · rest) (push_nil_left name)
  have hend : name.getLast? ≠ some separator := hname.getLast?_append []
  have hstem : stem name = [.down name] := by
    rw [stem, if_neg hend, hname.steps_eq]
  rw [hbelow]
  by_cases hlast : rest = []
  · rw [hlast]
    exact hname.steps_eq
  · rw [(steps_below hrest hname.ne_nil hlast).1, hstem]
    rfl

theorem suffix_push (dir p : OsPath) : p <:+ push dir p := by
  unfold push
  split
  · exact List.suffix_rfl
  · split
    · exact List.suffix_append dir p
    · exact (List.suffix_cons separator p).trans (List.suffix_append dir _)

end OsPath

namespace RelativePath
open OsPath

variable {p p' : RelativePath} {q root : OsPath}

theorem ofText_text (p : RelativePath) :
    Bytes.ofText p.text = [separator].intercalate (p.segments.map Bytes.ofText) := by
  have hjoin : ∀ l : List String, Bytes.ofText ("/".intercalate l) =
      [separator].intercalate (l.map Bytes.ofText) := by
    intro l
    induction l with
    | nil => rfl
    | cons s l ih =>
      cases l with
      | nil => simp
      | cons t l =>
        rw [String.intercalate_cons_cons, Bytes.ofText_append, Bytes.ofText_append, ih]
        simp only [List.map_cons, List.intercalate_cons_cons]
        rfl
  exact hjoin p.segments

theorem under_eq_push (p : RelativePath) (root : OsPath) :
    p.under root = push root (Bytes.ofText p.text) := by
  rw [under_eq, below_eq_push p.isName_segments (by simpa using p.nonempty), ofText_text]

/-- What is left of a path below a root is read as the path. -/
theorem ofOs_of_components (h : components (p.under root) = components root ++ components q) :
    ofOs q = .ok p := by
  rw [components_under] at h
  rw [ofOs_eq_ok_iff, ← List.append_cancel_left h, List.filter_eq_self]
  intro c hc
  obtain ⟨s, -, rfl⟩ := List.mem_map.1 hc
  rfl

theorem ofOs_strip (p : RelativePath) (root : OsPath) :
    ∃ rest, strip? root (p.under root) = some rest ∧ ofOs rest = .ok p := by
  have htext : components (p.under root) = components root ++ components (Bytes.ofText p.text) := by
    have hself : p.under [] = Bytes.ofText p.text := by rw [under_eq_push, push_nil_left]
    rw [← hself, components_under, components_under]
    rfl
  have hmem : Bytes.ofText p.text ∈ (p.under root).tails := by
    rw [List.mem_tails, under_eq_push]
    exact suffix_push root _
  have hsome : (strip? root (p.under root)).isSome = true :=
    List.find?_isSome.2 ⟨_, hmem, decide_eq_true htext⟩
  obtain ⟨rest, hrest⟩ := Option.isSome_iff_exists.1 hsome
  have hleft := List.find?_some hrest
  exact ⟨rest, hrest, ofOs_of_components (of_decide_eq_true hleft)⟩

theorem eq_of_components_under (h : components (p.under root) = components (p'.under root)) :
    p = p' := by
  rw [components_under, components_under] at h
  exact ext_segments ((List.map_inj_right fun _ _ h => nameOf_injective h).1
    (List.append_cancel_left h))

/-- All components of a path that is read are names or stay in place; the names are the segments. -/
theorem names_of_ofOs (h : ofOs q = .ok p) :
    (components q).filter (·.isName) = p.segments.map fun s => .name (Bytes.ofText s) := by
  have hnames := ofOs_eq_ok_iff.1 h
  rw [← hnames, List.filter_congr]
  intro c hc
  by_cases hcurrent : c = .current
  · rw [hcurrent]
    rfl
  · have hmem : c ∈ (components q).filter (· ≠ .current) :=
      List.mem_filter.2 ⟨hc, decide_eq_true hcurrent⟩
    rw [hnames] at hmem
    obtain ⟨s, -, rfl⟩ := List.mem_map.1 hmem
    rfl

theorem under_join (d p : RelativePath) (root : OsPath) :
    (d.join p).under root = p.under (d.under root) := List.foldl_append

end RelativePath

/-! ## Steps that stay -/

namespace OsPath

/-- Steps, and the same without some that stay. -/
inductive Skips : List PathStep → List PathStep → Prop
  | nil : Skips [] []
  | stay {l l' : List PathStep} (h : Skips l l') : Skips (.stay :: l) l'
  | keep {l l' : List PathStep} (step : PathStep) (h : Skips l l') : Skips (step :: l) (step :: l')

theorem Skips.append_left {l l' : List PathStep} (h : Skips l l') :
    ∀ first : List PathStep, Skips (first ++ l) (first ++ l')
  | [] => h
  | step :: first => .keep step (h.append_left first)

end OsPath

theorem Disk.walk_of_skips {d : Disk} {n : Nat} {here : Place} {steps : List PathStep}
    {found : Found} (h : d.walk true n here steps = .ok found) :
    ∀ {steps' : List PathStep}, OsPath.Skips steps steps' →
      d.walk true n here steps' = .ok found := by
  fun_induction Disk.walk d true n here steps with
  | case1 =>
    intro steps' hskips
    cases hskips
    rw [walk, h]
  | case2 => cases h
  | case3 n here rest hdir ih =>
    intro steps' hskips
    cases hskips with
    | stay hrest => exact ih h hrest
    | keep _ hrest =>
      rw [walk, if_neg hdir]
      exact ih h hrest
  | case4 n here rest hdir ih =>
    intro steps' hskips
    cases hskips with
    | keep _ hrest =>
      rw [walk, if_neg hdir]
      exact ih h hrest
  | case5 => cases h
  | case6 n here hdir name hshort next hnone =>
    intro steps' hskips
    cases hskips with
    | keep _ hrest =>
      cases hrest
      have hnone : d.at? (here ++ [name]) = none := hnone
      rw [walk, if_neg hdir]
      simp only [if_neg hshort, hnone, if_true]
      exact h
  | case7 => cases h
  | case8 n here rest hdir name hshort next target hlink hend => cases hend.2
  | case9 => cases h
  | case10 here rest hdir name hshort next target hlink hend n ih =>
    intro steps' hskips
    cases hskips with
    | keep _ hrest =>
      have hlink : d.at? (here ++ [name]) = some (.link target) := hlink
      rw [walk, if_neg hdir]
      simp only [if_neg hshort, hlink, if_neg fun e : _ ∧ true = false => Bool.noConfusion e.2]
      exact ih h (hrest.append_left _)
  | case11 n here rest hdir name hshort next item hitem hnext ih =>
    intro steps' hskips
    cases hskips with
    | keep _ hrest =>
      have hnext : d.at? (here ++ [name]) = some item := hnext
      rw [walk, if_neg hdir]
      simp only [if_neg hshort, hnext]
      cases item with
      | link target => exact absurd rfl (hitem target)
      | _ => exact ih h hrest

namespace OsPath

theorem steps_push_relative {p dir : OsPath} (hp : isAbsolute p = false) (hdir : dir ≠ []) :
    steps (push dir p) = stem dir ++ steps p := by
  unfold push stem
  rw [hp, if_neg Bool.false_ne_true]
  split
  next hend =>
    have hend : dir.getLast? = some separator := hend.resolve_left hdir
    obtain ⟨rest, rfl⟩ := List.getLast?_eq_some_iff.1 hend
    rw [if_pos hend, List.dropLast_concat, ← steps_append_separator, List.append_assoc]
    rfl
  next hend =>
    rw [if_neg fun e => hend (.inr e), steps_append_separator]

/-- The names among pieces are where the pieces lead, if these lead nowhere else. -/
theorem skips_of_pieces {pieces names : List Bytes}
    (h : pieces.filterMap Component.ofPiece = names.map .name) :
    names.Sublist pieces ∧ Skips (pieces.map stepOfPiece) (names.map .down) := by
  induction pieces generalizing names with
  | nil =>
    obtain rfl := List.map_eq_nil_iff.1 h.symm
    exact ⟨.slnil, .nil⟩
  | cons piece pieces ih =>
    by_cases hstay : piece = [] ∨ piece = [0x2E]
    · have hpiece : Component.ofPiece piece = none := by rw [Component.ofPiece, if_pos hstay]
      have hstep : stepOfPiece piece = .stay := by rw [stepOfPiece, if_pos hstay]
      rw [List.filterMap_cons_none hpiece] at h
      obtain ⟨hsub, hskips⟩ := ih h
      rw [List.map_cons, hstep]
      exact ⟨hsub.cons piece, .stay hskips⟩
    · by_cases hup : piece = [0x2E, 0x2E]
      · have hpiece : Component.ofPiece piece = some .parent := by
          rw [Component.ofPiece, if_neg hstay, if_pos hup]
        rw [List.filterMap_cons_some hpiece] at h
        cases names <;> cases h
      · have hpiece : Component.ofPiece piece = some (.name piece) := by
          rw [Component.ofPiece, if_neg hstay, if_neg hup]
        have hstep : stepOfPiece piece = .down piece := by
          rw [stepOfPiece, if_neg hstay, if_neg hup]
        rw [List.filterMap_cons_some hpiece] at h
        cases names with
        | nil => cases h
        | cons name names =>
          simp only [List.map_cons, List.cons.injEq, Component.name.injEq] at h
          obtain ⟨rfl, h⟩ := h
          obtain ⟨hsub, hskips⟩ := ih h
          rw [List.map_cons, hstep]
          exact ⟨hsub.cons_cons piece, .keep _ hskips⟩

theorem sublist_push {p q : OsPath} (h : p.Sublist q) (hp : isAbsolute p = false)
    (hq : isAbsolute q = false) (dir : OsPath) : (push dir p).Sublist (push dir q) := by
  unfold push
  rw [hp, hq, if_neg Bool.false_ne_true, if_neg Bool.false_ne_true]
  split
  · exact h.append_left dir
  · exact (h.cons_cons separator).append_left dir

end OsPath

namespace RelativePath
open OsPath

variable {p : RelativePath} {q root : OsPath}

theorem pieces_of_ofOs (h : ofOs q = .ok p) : isAbsolute q = false ∧
    (q.splitOn separator).filterMap Component.ofPiece =
      (p.segments.map Bytes.ofText).map .name := by
  have hnames := ofOs_eq_ok_iff.1 h
  have hpieces : ((q.splitOn separator).filterMap Component.ofPiece).filter (· ≠ .current) =
      (q.splitOn separator).filterMap Component.ofPiece := by
    rw [List.filter_eq_self]
    intro c hc
    obtain ⟨piece, -, hpiece⟩ := List.mem_filterMap.1 hc
    refine decide_eq_true ?_
    rintro rfl
    unfold Component.ofPiece at hpiece
    split at hpiece
    · cases hpiece
    · split at hpiece <;> cases hpiece
  unfold components origin at hnames
  rw [List.filter_append, hpieces] at hnames
  rw [List.map_map]
  cases habsolute : isAbsolute q with
  | true =>
    obtain ⟨s, l, hsegments⟩ := List.exists_cons_of_ne_nil p.nonempty
    simp [habsolute, hsegments] at hnames
  | false =>
    refine ⟨rfl, ?_⟩
    rw [habsolute, if_neg Bool.false_ne_true] at hnames
    split at hnames <;> exact hnames

theorem steps_ofText_text (p : RelativePath) :
    steps (Bytes.ofText p.text) = (p.segments.map Bytes.ofText).map .down := by
  have hplain : ∀ name ∈ p.segments.map Bytes.ofText, separator ∉ name := fun name hname =>
    (p.isName_segments name hname).plain
  have hstep : ∀ name ∈ p.segments.map Bytes.ofText, stepOfPiece name = .down name := by
    intro name hname
    have hn := p.isName_segments name hname
    rw [stepOfPiece, if_neg fun e => e.elim hn.ne_nil hn.ne_dot, if_neg hn.ne_dots]
  rw [ofText_text, steps, List.splitOn_intercalate separator hplain (by simpa using p.nonempty)]
  exact List.map_congr_left hstep

theorem under_ne_nil (p : RelativePath) (root : OsPath) : p.under root ≠ [] := by
  intro h
  have hlength := congrArg List.length (components_under p root)
  have hpos := List.length_pos_iff.2 p.nonempty
  rw [h, List.length_append, List.length_map] at hlength
  have hnone : (components []).length = 0 := rfl
  omega

/-- A path that was read leads where the path of the operating system leads. -/
theorem resolve_under (h : ofOs q = .ok p) {d : Disk} {found : Found}
    (hfound : d.resolve true (push root q) = .ok found) :
    d.resolve true (p.under root) = .ok found := by
  obtain ⟨hq, hpieces⟩ := pieces_of_ofOs h
  obtain ⟨hsub, hskips⟩ := skips_of_pieces hpieces
  have hp : isAbsolute (Bytes.ofText p.text) = false :=
    ofText_text p ▸ not_isAbsolute_intercalate p.isName_segments
  have hsub : (Bytes.ofText p.text).Sublist q := by
    have hpieces := @sublist_intercalate _ [separator] _ _ hsub
    rwa [List.intercalate_splitOn, ← ofText_text] at hpieces
  have hskips : Skips (steps (push root q)) (steps (push root (Bytes.ofText p.text))) := by
    rw [← steps_ofText_text] at hskips
    by_cases hroot : root = []
    · rw [hroot, push_nil_left, push_nil_left]
      exact hskips
    · rw [steps_push_relative hq hroot, steps_push_relative hp hroot]
      exact hskips.append_left _
  have hbytes := sublist_push hsub hp hq root
  have hne : push root (Bytes.ofText p.text) ≠ [] := by
    rw [← under_eq_push]
    exact under_ne_nil p root
  rw [under_eq_push]
  unfold Disk.resolve at hfound ⊢
  split at hfound
  · cases hfound
  next hnul =>
    split at hfound
    · cases hfound
    · split at hfound
      · cases hfound
      next hlength =>
        have hlength := Nat.not_le.1 hlength
        rw [if_neg fun h => hnul (hbytes.mem h), if_neg hne,
          if_neg (Nat.not_le.2 (Nat.lt_of_le_of_lt hbytes.length_le hlength))]
        exact Disk.walk_of_skips hfound hskips

/-! ## Main result -/

/-- A path below a root has the components of the root and then its segments, so it lies strictly
below the root, and paths have places of their own. It is read back when the root is taken off. A
path of the operating system that is read has the same names, and leads to the same place; the other
way round this may fail, as a separator at the end asks for a directory. Paths with components that
are no part of a relative path are refused. A directory and a path in it may be put below a root one
by one. -/
theorem rooted (root : OsPath) :
    (∀ p : RelativePath,
      (components (p.under root) =
        components root ++ p.segments.map fun s => .name (Bytes.ofText s)) ∧
      p.segments ≠ [] ∧
      ∃ rest, strip? root (p.under root) = some rest ∧ ofOs rest = .ok p) ∧
    (∀ p p' : RelativePath, components (p.under root) = components (p'.under root) → p = p') ∧
    (∀ q p, ofOs q = .ok p →
      components (p.under root) = components root ++ (components q).filter (·.isName) ∧
      ∀ (d : Disk) found, d.resolve true (push root q) = .ok found →
        d.resolve true (p.under root) = .ok found) ∧
    (∀ q, (∃ c ∈ components q, Foreign c) → ∃ e, ofOs q = .error e) ∧
    ∀ d p : RelativePath, (d.join p).under root = p.under (d.under root) := by
  refine ⟨fun p => ⟨components_under p root, p.nonempty, ofOs_strip p root⟩,
    fun _ _ => eq_of_components_under, fun q p h => ⟨?_, fun d found => resolve_under h⟩, ?_,
    fun d p => under_join d p root⟩
  · rw [components_under, names_of_ofOs h]
  · rintro q ⟨c, hc, hforeign⟩
    cases h : ofOs q with
    | error e => exact ⟨e, rfl⟩
    | ok p => exact absurd h (not_ofOs_of_foreign hc hforeign)

/-- The path `x`. -/
def leaf : RelativePath := ⟨["x"], by decide, by decide, by decide⟩

/-- On an empty disk, `./x` below the root of the disk leads to where `x` may be put. A path up and
down again is refused. -/
theorem rooted_leaf :
    components (leaf.under [separator]) = [.root, .name [0x78]] ∧
      ({} : Disk).resolve true (leaf.under [separator]) = .ok ⟨[[0x78]], none⟩ ∧
      ∃ e, ofOs (Bytes.ofText "x/../x") = .error e := by
  obtain ⟨hunder, hdistinct, hread, hforeign, -⟩ := rooted [separator]
  have hleaf : ofOs (Bytes.ofText "./x") = .ok leaf := by rfl
  have hsteps : steps (push [separator] (Bytes.ofText "./x")) = [.stay, .stay, .down [0x78]] := by
    decide
  have hroot : ({} : Disk).at? [] = some .dir := rfl
  refine ⟨(hunder leaf).1, (hread _ leaf hleaf).2 _ _ ?_, hforeign _ ⟨.parent, by decide, .parent⟩⟩
  unfold Disk.resolve
  rw [if_neg (by decide), if_neg (by decide), if_neg (by decide), hsteps]
  rw [Disk.walk, if_neg (not_not_intro hroot), Disk.walk, if_neg (not_not_intro hroot), Disk.walk,
    if_neg (not_not_intro hroot)]
  rfl

end RelativePath

end Rebuild
