import Rebuild.Proofs.Disk.Meets
import Rebuild.Proofs.Disk.Walk
import Rebuild.Proofs.Path.Names

/-!
# Directories that are held on to

What a path leads to below a directory can be told from the names alone if the
directory is reached without going into it, holds no links, and has no items
without a parent. Whatever changes in the directory later, the way to it stays.

* `Disk.Anchored`: a path leads to a directory whatever lies in it.
* `Disk.IsTree`: what lies below a place lies in a directory.
* `Disk.Footing`: an anchored directory with nothing odd in it.
* `Footing.resolve_below`: paths below it lead where their names say.
-/
namespace Rebuild.Disk

/-- The path leads to the directory, whatever lies in it. -/
def Anchored (root : OsPath) (dir : Place) (d : Disk) : Prop :=
  ∀ d', d.AgreesOff dir d' → d'.dirAt root = .ok dir

/-- What lies below a place lies in a directory. -/
def IsTree (dir : Place) (d : Disk) : Prop :=
  ∀ names name, d.at? (dir ++ (names ++ [name])) ≠ none → d.at? (dir ++ names) = some .dir

/-- A directory with a path to it, without links below and without items that hang in the air. -/
structure Footing (root : OsPath) (dir : Place) (d : Disk) : Prop where
  anchored : d.Anchored root dir
  linkless : ∀ place target, dir.Inside place → d.at? place ≠ some (.link target)
  parent : ∀ names name, d.at? (dir ++ (names ++ [name])) ≠ none →
    d.at? (dir ++ names) = some .dir
  named : ∀ name, d.at? (dir ++ [name]) ≠ none → OsPath.IsName name

/-- At a place and below it everything is as it was. -/
def Same (place : Place) (d d' : Disk) : Prop :=
  ∀ rest, d'.at? (place ++ rest) = d.at? (place ++ rest)

variable {d d' : Disk} {root : OsPath} {dir place : Place} {names : List Bytes}

theorem Same.refl : Same place d d := fun _ => rfl

theorem Same.trans {d'' : Disk} (h : Same place d d') (h' : Same place d' d'') :
    Same place d d'' := fun rest => (h' rest).trans (h rest)

theorem Same.below (h : Same place d d') (names : List Bytes) : Same (place ++ names) d d' := by
  intro rest
  rw [List.append_assoc]
  exact h (names ++ rest)

theorem AgreesOff.refl : d.AgreesOff dir d := fun _ _ => rfl

theorem AgreesOff.trans {d'' : Disk} (h : d.AgreesOff dir d') (h' : d'.AgreesOff dir d'') :
    d.AgreesOff dir d'' := fun place hplace => (h' place hplace).trans (h place hplace)

theorem not_inside_self (dir : Place) : ¬dir.Inside dir := by
  intro ⟨name, names, h⟩
  have := congrArg List.length h
  rw [List.length_append, List.length_cons] at this
  omega

theorem named_ne_nil (dir : Place) (name : Bytes) : dir ++ [name] ≠ [] :=
  List.append_ne_nil_of_right_ne_nil _ (List.cons_ne_nil _ _)

theorem inside_append (dir : Place) {names : List Bytes} (h : names ≠ []) :
    dir.Inside (dir ++ names) := by
  obtain ⟨name, rest, rfl⟩ := List.exists_cons_of_ne_nil h
  exact ⟨name, rest, rfl⟩

theorem inside_of_below (hne : names ≠ []) (h : dir ++ names <+: place) : dir.Inside place := by
  obtain ⟨rest, rfl⟩ := h
  rw [List.append_assoc]
  exact inside_append dir (List.append_ne_nil_of_left_ne_nil hne _)

/-- Something below a place makes it a directory. -/
theorem IsTree.at?_of_below (h : d.IsTree dir) : ∀ {rest names : List Bytes} {name : Bytes},
    d.at? (dir ++ (names ++ name :: rest)) ≠ none → d.at? (dir ++ names) = some .dir
  | [], names, name, hne => h names name hne
  | next :: rest, names, name, hne => by
    rw [List.append_cons] at hne
    refine h names name ?_
    rw [h.at?_of_below hne]
    exact Option.some_ne_none _

theorem IsTree.at?_eq_none (h : d.IsTree dir) (hdir : d.at? (dir ++ names) ≠ some .dir)
    (hplace : Place.Inside (dir ++ names) place) : d.at? place = none := by
  obtain ⟨name, rest, rfl⟩ := hplace
  rw [List.append_assoc]
  exact Decidable.not_not.1 fun hne => hdir (h.at?_of_below hne)

/-- What lies somewhere lies in a directory, unless it is the root. -/
theorem IsTree.at?_dropLast (h : d.IsTree []) (hsome : d.at? place ≠ none) :
    d.at? place.dropLast = some .dir := by
  rcases List.eq_nil_or_concat place with rfl | ⟨names, name, rfl⟩
  · rfl
  · rw [List.concat_eq_append] at hsome ⊢
    rw [List.dropLast_concat]
    exact h names name hsome

theorem dirAt_eq_ok (h : d.dirAt root = .ok dir) :
    root ≠ [] ∧ ∃ m, Way d linkLimit [] (OsPath.steps root) m dir := by
  obtain ⟨⟨place, item⟩, hresolve, h⟩ := ok_of_bind h
  have hitem : item = some .dir ∧ place = dir := by
    cases item with
    | none => cases h
    | some item => cases item <;> cases h; exact ⟨rfl, rfl⟩
  unfold resolve at hresolve
  split at hresolve
  · cases hresolve
  · split at hresolve
    · cases hresolve
    next hne =>
      split at hresolve
      · cases hresolve
      · obtain ⟨m, hway⟩ := way_of_walk hresolve hitem.1
        exact ⟨hne, m, hitem.2 ▸ hway⟩

theorem at?_of_dirAt (h : d.dirAt root = .ok dir) : d.at? dir = some .dir := by
  obtain ⟨-, m, hway⟩ := dirAt_eq_ok h
  exact hway.finish

theorem walk_of_dirAt (h : d.dirAt root = .ok dir) : ∃ m, ∀ follow (more : List PathStep),
    more ≠ [] → d.walk follow linkLimit [] (OsPath.stem root ++ more) =
      d.walk follow m dir more := by
  obtain ⟨-, m, hway⟩ := dirAt_eq_ok h
  obtain ⟨k, hsteps⟩ := OsPath.steps_eq_stem root
  rw [hsteps] at hway
  exact ⟨m, fun follow _ hne => hway.of_append_stay.walk_append follow hne⟩

/-- A path leads to a directory as long as all directories and links are there. -/
theorem dirAt_mono (h : d.dirAt root = .ok dir)
    (hkeep : ∀ place item, (∀ serial content, item ≠ .file serial content) →
      d.at? place = some item → d'.at? place = some item) : d'.dirAt root = .ok dir := by
  obtain ⟨-, m, hway⟩ := dirAt_eq_ok h
  have hresolve : d'.resolve true root = d.resolve true root := by
    unfold resolve
    rw [hway.walk_eq, (hway.mono hkeep).walk_eq]
  unfold dirAt at h ⊢
  rwa [hresolve]

/-- A directory that holds nothing but files is anchored by any path to it. -/
theorem anchored_of_flat (h : d.dirAt root = .ok dir)
    (hflat : ∀ place, dir.Inside place → d.at? place = none ∨ ∃ serial content,
      d.at? place = some (.file serial content)) : d.Anchored root dir := by
  refine fun d' hagree => dirAt_mono h fun place item hfile hitem => ?_
  rw [hagree place fun hinside => ?_, hitem]
  rcases hflat place hinside with hnone | ⟨serial, content, hsome⟩
  · cases hnone.symm.trans hitem
  · exact hfile serial content (Option.some.inj (hitem.symm.trans hsome))

theorem Anchored.of_agreesOff (h : d.Anchored root dir) (hagree : d.AgreesOff dir d') :
    d'.Anchored root dir := fun _ hagree' => h _ (hagree.trans hagree')

namespace Footing

theorem dirAt_eq (h : d.Footing root dir) : d.dirAt root = .ok dir := h.anchored d .refl

theorem root_ne_nil (h : d.Footing root dir) : root ≠ [] := (dirAt_eq_ok h.dirAt_eq).1

theorem at?_dir (h : d.Footing root dir) : d.at? dir = some .dir := at?_of_dirAt h.dirAt_eq

theorem walk_below (h : d.Footing root dir) : ∃ m, ∀ follow (names : List Bytes), names ≠ [] →
    d.walk follow linkLimit [] (OsPath.stem root ++ names.map .down) =
      d.walk follow m dir (names.map .down) := by
  obtain ⟨m, hwalk⟩ := walk_of_dirAt h.dirAt_eq
  exact ⟨m, fun follow _ hne => hwalk follow _ fun e => hne (List.map_eq_nil_iff.1 e)⟩

/-- A path of names leads to the place of these names, in a directory. -/
theorem resolve_below (h : d.Footing root dir) (hnames : ∀ name ∈ names, OsPath.IsName name)
    (hne : names ≠ []) {follow : Bool} {found : Found}
    (hresolve : d.resolve follow (OsPath.below root names) = .ok found) :
    found = ⟨dir ++ names, d.at? (dir ++ names)⟩ ∧ d.at? (dir ++ names.dropLast) = some .dir := by
  unfold resolve at hresolve
  split at hresolve
  · cases hresolve
  · split at hresolve
    · cases hresolve
    · split at hresolve
      · cases hresolve
      · obtain ⟨m, hwalk⟩ := h.walk_below
        rw [(OsPath.steps_below hnames h.root_ne_nil hne).1, hwalk follow names hne] at hresolve
        obtain ⟨hfound, hparent⟩ := walk_names h.linkless hresolve
        exact ⟨hfound, hparent hne⟩

theorem dirAt_below (h : d.Footing root dir) (hnames : ∀ name ∈ names, OsPath.IsName name)
    (hne : names ≠ []) (hdirAt : d.dirAt (OsPath.below root names) = .ok place) :
    place = dir ++ names ∧ d.at? (dir ++ names) = some .dir := by
  obtain ⟨found, hresolve, hdirAt⟩ := ok_of_bind hdirAt
  obtain ⟨rfl, -⟩ := h.resolve_below hnames hne hresolve
  dsimp only at hdirAt
  split at hdirAt
  next hitem => cases hdirAt; exact ⟨rfl, hitem⟩
  next => cases hdirAt
  next => cases hdirAt

theorem isTree (h : d.Footing root dir) : d.IsTree dir := h.parent

theorem at?_of_below (h : d.Footing root dir) {rest names : List Bytes} {name : Bytes}
    (hne : d.at? (dir ++ (names ++ name :: rest)) ≠ none) : d.at? (dir ++ names) = some .dir :=
  h.isTree.at?_of_below hne

theorem at?_eq_none (h : d.Footing root dir) (hdir : d.at? (dir ++ names) ≠ some .dir)
    (hplace : Place.Inside (dir ++ names) place) : d.at? place = none :=
  h.isTree.at?_eq_none hdir hplace

/-! ## Changes that keep the footing -/

theorem of_same (h : d.Footing root dir) (hanchored : d'.Anchored root dir)
    (hsame : Same dir d d') : d'.Footing root dir := by
  refine ⟨hanchored, ?_, ?_, ?_⟩
  · intro q target hq
    obtain ⟨name, names, rfl⟩ := hq
    rw [hsame]
    exact h.linkless _ target ⟨name, names, rfl⟩
  · intro names name hne
    rw [hsame] at hne ⊢
    exact h.parent names name hne
  · intro name hne
    rw [hsame] at hne
    exact h.named name hne

theorem congr (h : d.Footing root dir) (hat : ∀ q, d'.at? q = d.at? q) : d'.Footing root dir :=
  h.of_same (h.anchored.of_agreesOff fun q _ => hat q) fun _ => hat _

theorem put (h : d.Footing root dir) (hne : names ≠ []) {item : Item}
    (hat : ∀ q, d'.at? q = if q = dir ++ names then some item else d.at? q)
    (hlink : ∀ target, item ≠ .link target) (hparent : d.at? (dir ++ names.dropLast) = some .dir)
    (hkeep : d.at? (dir ++ names) = some .dir → item = .dir)
    (hnamed : ∀ name, names = [name] → OsPath.IsName name) : d'.Footing root dir := by
  have hself (rest : List Bytes) : dir ++ rest = dir ++ names ↔ rest = names :=
    ⟨List.append_cancel_left, fun e => by rw [e]⟩
  refine ⟨h.anchored.of_agreesOff ?_, ?_, ?_, ?_⟩
  · intro q hq
    have hother : q ≠ dir ++ names := fun e => hq (e ▸ inside_append dir hne)
    rw [hat, if_neg hother]
  · intro q target hq
    rw [hat]
    split
    · exact fun e => hlink target (Option.some.inj e)
    · exact h.linkless q target hq
  · intro rest name hsome
    rw [hat] at hsome ⊢
    simp only [hself] at hsome ⊢
    have hdir : d.at? (dir ++ rest) = some .dir := by
      split at hsome
      next hlast => rwa [← hlast, List.dropLast_concat] at hparent
      next => exact h.parent rest name hsome
    split
    next heq => rw [hkeep (heq ▸ hdir)]
    next => exact hdir
  · intro name hsome
    rw [hat] at hsome
    simp only [hself] at hsome
    split at hsome
    next heq => exact hnamed name heq.symm
    next => exact h.named name hsome

theorem prune (h : d.Footing root dir) (hne : names ≠ [])
    (hat : ∀ q, d'.at? q = if dir ++ names <+: q then none else d.at? q) :
    d'.Footing root dir := by
  refine ⟨h.anchored.of_agreesOff ?_, ?_, ?_, ?_⟩
  · intro q hq
    have hother : ¬dir ++ names <+: q := fun e => hq (inside_of_below hne e)
    rw [hat, if_neg hother]
  · intro q target hq
    rw [hat]
    split
    · exact (Option.some_ne_none _).symm
    · exact h.linkless q target hq
  · intro rest name hsome
    rw [hat] at hsome ⊢
    split at hsome
    · exact absurd rfl hsome
    next hout =>
      have hparent : ¬dir ++ names <+: dir ++ rest := fun e =>
        hout (e.trans ((List.prefix_append_right_inj dir).2 (List.prefix_append _ _)))
      rw [if_neg hparent]
      exact h.parent rest name hsome
  · intro name hsome
    rw [hat] at hsome
    split at hsome
    · exact absurd rfl hsome
    · exact h.named name hsome

theorem moved {source : List Bytes} (h : d.Footing root dir) (hsource : source ≠ [])
    (hne : names ≠ [])
    (hat : ∀ rest, d'.at? (dir ++ (names ++ rest)) = d.at? (dir ++ (source ++ rest)))
    (hout : ∀ q, ¬dir ++ names <+: q → d'.at? q = if dir ++ source <+: q then none else d.at? q)
    (hparent : d.at? (dir ++ names.dropLast) = some .dir) (hapart : ¬source <+: names.dropLast)
    (hnamed : ∀ name, names = [name] → OsPath.IsName name) : d'.Footing root dir := by
  have hshift (l rest : List Bytes) : dir ++ l <+: dir ++ rest ↔ l <+: rest :=
    List.prefix_append_right_inj dir
  refine ⟨h.anchored.of_agreesOff ?_, ?_, ?_, ?_⟩
  · intro q hq
    have htarget : ¬dir ++ names <+: q := fun e => hq (inside_of_below hne e)
    have hsource : ¬dir ++ source <+: q := fun e => hq (inside_of_below hsource e)
    rw [hout q htarget, if_neg hsource]
  · intro q target hq
    by_cases hin : dir ++ names <+: q
    · obtain ⟨rest, rfl⟩ := hin
      rw [List.append_assoc, hat]
      exact h.linkless _ target (inside_append dir (List.append_ne_nil_of_left_ne_nil hsource _))
    · rw [hout q hin]
      split
      · exact (Option.some_ne_none _).symm
      · exact h.linkless q target hq
  · intro rest name hsome
    by_cases hin : names <+: rest
    · obtain ⟨more, rfl⟩ := hin
      rw [List.append_assoc, hat, ← List.append_assoc source] at hsome
      rw [hat]
      exact h.parent _ name hsome
    · by_cases hlast : names = rest ++ [name]
      · rw [hlast, List.dropLast_concat] at hparent hapart
        have htarget : ¬dir ++ names <+: dir ++ rest := fun e => hin ((hshift _ _).1 e)
        have hsource : ¬dir ++ source <+: dir ++ rest := fun e => hapart ((hshift _ _).1 e)
        rw [hout _ htarget, if_neg hsource]
        exact hparent
      · have hnot : ¬dir ++ names <+: dir ++ (rest ++ [name]) := fun e =>
          (List.prefix_concat_iff.1 ((hshift _ _).1 e)).elim hlast hin
        rw [hout _ hnot] at hsome
        split at hsome
        · exact absurd rfl hsome
        next hkept =>
          have htarget : ¬dir ++ names <+: dir ++ rest := fun e => hin ((hshift _ _).1 e)
          have hsource : ¬dir ++ source <+: dir ++ rest := fun e =>
            hkept (e.trans ((hshift _ _).2 (List.prefix_append _ _)))
          rw [hout _ htarget, if_neg hsource]
          exact h.parent rest name hsome
  · intro name hsome
    by_cases hin : names = [name]
    · exact hnamed name hin
    · have hnot : ¬dir ++ names <+: dir ++ [name] := fun e => by
        rcases List.prefix_cons_iff.1 ((hshift _ _).1 e) with e | ⟨l, rfl, hl⟩
        · exact hne e
        · exact hin (by rw [List.prefix_nil.1 hl])
      rw [hout _ hnot] at hsome
      split at hsome
      · exact absurd rfl hsome
      · exact h.named name hsome

end Footing

end Rebuild.Disk
