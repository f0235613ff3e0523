import Rebuild.Disk.Resolve

/-!
# Ways to directories

A walk that ends at a directory comes by directories and links only. Taken as a
way of its own, it can be cut in two, goes on to whatever lies below, and is the
same on every disk that has the same items on the way.

* `Disk.Way`: steps that lead from one directory to another.
* `Way.walk_eq`, `way_of_walk`: a way is a walk that ends at a directory.
* `Way.walk_append`: a walk goes on where a way has led.
* `Way.mono`: a way is there as long as its directories and links are.
* `walk_mono`: so does a walk that finds something.
* `walk_names`: walking down names where there are no links.
-/
namespace Rebuild

/-- A place lies in a directory, at any depth. -/
def Place.Inside (dir place : Place) : Prop := ∃ name names, place = dir ++ name :: names

namespace Disk

/-- Outside a directory, two disks hold the same. -/
def AgreesOff (dir : Place) (d d' : Disk) : Prop :=
  ∀ place, ¬dir.Inside place → d'.at? place = d.at? place

/-- Steps lead from one directory to another. The numbers say how many more links may be followed
before and after. -/
inductive Way (d : Disk) : Nat → Place → List PathStep → Nat → Place → Prop where
  | done {n p} (here : d.at? p = some .dir) : Way d n p [] n p
  | stay {n m p q steps} (here : d.at? p = some .dir) (rest : Way d n p steps m q) :
      Way d n p (.stay :: steps) m q
  | up {n m p q steps} (here : d.at? p = some .dir) (rest : Way d n p.dropLast steps m q) :
      Way d n p (.up :: steps) m q
  | down {n m p q name steps} (here : d.at? p = some .dir) (short : ¬nameLimit < name.length)
      (next : d.at? (p ++ [name]) = some .dir) (rest : Way d n (p ++ [name]) steps m q) :
      Way d n p (.down name :: steps) m q
  | link {n m p q name target steps} (here : d.at? p = some .dir)
      (short : ¬nameLimit < name.length) (next : d.at? (p ++ [name]) = some (.link target))
      (rest : Way d n [] (OsPath.steps target ++ steps) m q) :
      Way d (n + 1) p (.down name :: steps) m q

/-! ## Ways and walks -/

section Walking

variable {d d' : Disk} {n m : Nat} {p q : Place} {steps : List PathStep}

theorem Way.start (h : Way d n p steps m q) : d.at? p = some .dir := by
  cases h <;> assumption

theorem Way.finish (h : Way d n p steps m q) : d.at? q = some .dir := by
  induction h with
  | done here => exact here
  | stay _ _ ih | up _ _ ih | down _ _ _ _ ih | link _ _ _ _ ih => exact ih

theorem Way.append {k : Nat} {r : Place} {more : List PathStep} (h : Way d n p steps k r)
    (h' : Way d k r more m q) : Way d n p (steps ++ more) m q := by
  induction h with
  | done => exact h'
  | stay here _ ih => exact .stay here (ih h')
  | up here _ ih => exact .up here (ih h')
  | down here short next _ ih => exact .down here short next (ih h')
  | link here short next _ ih =>
    have hrest := ih h'
    rw [List.append_assoc] at hrest
    exact .link here short next hrest

theorem Way.walk_append (h : Way d n p steps m q) (follow : Bool) {more : List PathStep}
    (hmore : more ≠ []) : d.walk follow n p (steps ++ more) = d.walk follow m q more := by
  induction h with
  | done => rfl
  | stay here _ ih => rw [List.cons_append, walk, if_neg (not_not_intro here), ih]
  | up here _ ih => rw [List.cons_append, walk, if_neg (not_not_intro here), ih]
  | down here short next _ ih =>
    rw [List.cons_append, walk, if_neg (not_not_intro here)]
    simp only [if_neg short, next]
    exact ih
  | link here short next _ ih =>
    rw [List.cons_append, walk, if_neg (not_not_intro here)]
    have hne (rest : List PathStep) : ¬(rest ++ more = [] ∧ follow = false) :=
      fun e => hmore (List.append_eq_nil_iff.1 e.1).2
    simp only [if_neg short, next, if_neg (hne _)]
    rw [← List.append_assoc, ih]

theorem Way.walk_eq (h : Way d n p steps m q) : d.walk true n p steps = .ok ⟨q, some .dir⟩ := by
  induction h with
  | done here => rw [walk, here]
  | stay here _ ih => rw [walk, if_neg (not_not_intro here), ih]
  | up here _ ih => rw [walk, if_neg (not_not_intro here), ih]
  | down here short next _ ih =>
    rw [walk, if_neg (not_not_intro here)]
    simp only [if_neg short, next]
    exact ih
  | link here short next _ ih =>
    rw [walk, if_neg (not_not_intro here)]
    simp only [if_neg short, next, if_neg fun e : _ ∧ true = false => Bool.noConfusion e.2]
    exact ih

/-- A walk that ends at a directory goes a way. -/
theorem way_of_walk {found : Found} (h : d.walk true n p steps = .ok found)
    (hitem : found.item = some .dir) : ∃ m, Way d n p steps m found.place := by
  fun_induction walk d true n p steps with
  | case1 n p => cases h; exact ⟨n, .done hitem⟩
  | case2 => cases h
  | case3 n p rest here ih =>
    obtain ⟨m, hway⟩ := ih h
    exact ⟨m, .stay (Decidable.not_not.1 here) hway⟩
  | case4 n p rest here ih =>
    obtain ⟨m, hway⟩ := ih h
    exact ⟨m, .up (Decidable.not_not.1 here) hway⟩
  | case5 => cases h
  | case6 => cases h; cases hitem
  | case7 => cases h
  | case8 => cases h; cases hitem
  | case9 => cases h
  | case10 p rest here name short next target hnext _ n ih =>
    obtain ⟨m, hway⟩ := ih h
    exact ⟨m, .link (Decidable.not_not.1 here) short hnext hway⟩
  | case11 n p rest here name short next item hlink hnext ih =>
    obtain ⟨m, hway⟩ := ih h
    have hdir : item = .dir := Option.some.inj (hnext.symm.trans hway.start)
    exact ⟨m, .down (Decidable.not_not.1 here) short (hdir ▸ hnext) hway⟩

/-- A walk that does not follow a last link finds at least the link. -/
theorem Way.walk_false (h : Way d n p steps m q) :
    ∃ found, d.walk false n p steps = .ok found ∧ found.item ≠ none := by
  induction h with
  | done here => exact ⟨_, by rw [walk], by rw [here]; exact Option.some_ne_none _⟩
  | stay here _ ih => rwa [walk, if_neg (not_not_intro here)]
  | up here _ ih => rwa [walk, if_neg (not_not_intro here)]
  | down here short next _ ih =>
    rw [walk, if_neg (not_not_intro here)]
    simp only [if_neg short, next]
    exact ih
  | @link n m p q name target steps here short next _ ih =>
    rw [walk, if_neg (not_not_intro here)]
    simp only [if_neg short, next]
    split
    · exact ⟨_, rfl, Option.some_ne_none _⟩
    · exact ih

theorem Way.cut {first second : List PathStep} (h : Way d n p (first ++ second) m q) :
    ∃ k r, Way d n p first k r ∧ Way d k r second m q := by
  generalize hsteps : first ++ second = steps at h
  induction h generalizing first with
  | done here =>
    obtain ⟨rfl, rfl⟩ := List.append_eq_nil_iff.1 hsteps
    exact ⟨_, _, .done here, .done here⟩
  | stay here hrest ih =>
    cases first with
    | nil => exact ⟨_, _, .done here, by cases hsteps; exact .stay here hrest⟩
    | cons step first =>
      cases hsteps
      obtain ⟨k, r, h₁, h₂⟩ := ih rfl
      exact ⟨k, r, .stay here h₁, h₂⟩
  | up here hrest ih =>
    cases first with
    | nil => exact ⟨_, _, .done here, by cases hsteps; exact .up here hrest⟩
    | cons step first =>
      cases hsteps
      obtain ⟨k, r, h₁, h₂⟩ := ih rfl
      exact ⟨k, r, .up here h₁, h₂⟩
  | down here short next hrest ih =>
    cases first with
    | nil => exact ⟨_, _, .done here, by cases hsteps; exact .down here short next hrest⟩
    | cons step first =>
      cases hsteps
      obtain ⟨k, r, h₁, h₂⟩ := ih rfl
      exact ⟨k, r, .down here short next h₁, h₂⟩
  | link here short next hrest ih =>
    cases first with
    | nil => exact ⟨_, _, .done here, by cases hsteps; exact .link here short next hrest⟩
    | cons step first =>
      cases hsteps
      obtain ⟨k, r, h₁, h₂⟩ := ih (List.append_assoc ..)
      exact ⟨k, r, .link here short next h₁, h₂⟩

theorem Way.of_stay {k : Nat} (h : Way d n p (List.replicate k .stay) m q) : n = m ∧ p = q := by
  induction k with
  | zero => cases h; exact ⟨rfl, rfl⟩
  | succ k ih =>
    cases h with
    | stay _ rest => exact ih rest

theorem Way.of_append_stay {k : Nat}
    (h : Way d n p (steps ++ List.replicate k .stay) m q) : Way d n p steps m q := by
  obtain ⟨i, r, hfirst, hstay⟩ := h.cut
  obtain ⟨rfl, rfl⟩ := hstay.of_stay
  exact hfirst

/-- A way is there on every disk that has the same directories and links. -/
theorem Way.mono (h : Way d n p steps m q)
    (hkeep : ∀ place item, (∀ serial content, item ≠ .file serial content) →
      d.at? place = some item → d'.at? place = some item) : Way d' n p steps m q := by
  have hdir {place : Place} (h : d.at? place = some .dir) : d'.at? place = some .dir :=
    hkeep place .dir (fun _ _ => nofun) h
  induction h with
  | done here => exact .done (hdir here)
  | stay here _ ih => exact .stay (hdir here) ih
  | up here _ ih => exact .up (hdir here) ih
  | down here short next _ ih => exact .down (hdir here) short (hdir next) ih
  | link here short next _ ih =>
    exact .link (hdir here) short (hkeep _ _ (fun _ _ => nofun) next) ih

/-- A walk that finds something finds the same on every disk that has the same items and more. -/
theorem walk_mono {follow : Bool} {here : Place} {found : Found}
    (h : d.walk follow n here steps = .ok found) (hsome : found.item ≠ none)
    (hkeep : ∀ place item, d.at? place = some item → d'.at? place = some item) :
    d'.walk follow n here steps = .ok found := by
  have hdir {place : Place} (hplace : ¬d.at? place ≠ some .dir) : ¬d'.at? place ≠ some .dir :=
    not_not_intro (hkeep _ _ (Decidable.not_not.1 hplace))
  fun_induction walk d follow n here steps with
  | case1 n here =>
    cases h
    obtain ⟨item, hitem⟩ := Option.ne_none_iff_exists'.1 hsome
    have hitem : d.at? here = some item := hitem
    rw [walk, hitem, hkeep _ _ hitem]
  | case2 => cases h
  | case3 n here rest hhere ih => rw [walk, if_neg (hdir hhere), ih h]
  | case4 n here rest hhere ih => rw [walk, if_neg (hdir hhere), ih h]
  | case5 => cases h
  | case6 =>
    cases h
    exact absurd rfl hsome
  | case7 => cases h
  | case8 n here rest hhere name hshort next target hlink hlast =>
    have hlink : d'.at? (here ++ [name]) = some (.link target) := hkeep _ _ hlink
    rw [walk, if_neg (hdir hhere)]
    simp only [if_neg hshort, hlink, if_pos hlast]
    exact h
  | case9 => cases h
  | case10 here rest hhere name hshort next target hlink hlast n ih =>
    have hlink : d'.at? (here ++ [name]) = some (.link target) := hkeep _ _ hlink
    rw [walk, if_neg (hdir hhere)]
    simp only [if_neg hshort, hlink, if_neg hlast]
    exact ih h
  | case11 n here rest hhere name hshort next item hother hitem ih =>
    have hitem : d'.at? (here ++ [name]) = some item := hkeep _ _ hitem
    rw [walk, if_neg (hdir hhere)]
    cases item with
    | link target => exact absurd rfl (hother target)
    | dir | file =>
      simp only [if_neg hshort, hitem]
      exact ih h

end Walking

/-! ## Walking down -/

theorem walk_names {d : Disk} {follow : Bool} {n : Nat} :
    ∀ {names : List Bytes} {here : Place} {found : Found},
    (∀ place target, here.Inside place → d.at? place ≠ some (.link target)) →
    d.walk follow n here (names.map .down) = .ok found →
    found = ⟨here ++ names, d.at? (here ++ names)⟩ ∧
      (names ≠ [] → d.at? (here ++ names.dropLast) = some .dir)
  | [], here, found, _, h => by
    rw [List.map_nil, walk] at h
    cases h
    rw [List.append_nil]
    exact ⟨rfl, fun hne => absurd rfl hne⟩
  | name :: names, here, found, hlinkless, h => by
    rw [List.map_cons, walk] at h
    split at h
    · cases h
    next hhere =>
      have hhere := Decidable.not_not.1 hhere
      simp only at h
      split at h
      · cases h
      · split at h
        next hnone =>
          split at h
          next hrest =>
            cases List.map_eq_nil_iff.1 hrest
            cases h
            refine ⟨by rw [hnone], ?_⟩
            intro _
            rw [List.dropLast_singleton, List.append_nil]
            exact hhere
          · cases h
        next target hlink => exact absurd hlink (hlinkless _ _ ⟨name, [], rfl⟩)
        next item _ hitem =>
          have hbelow (place : Place) (target : OsPath) (hin : (here ++ [name]).Inside place) :
              d.at? place ≠ some (.link target) := by
            obtain ⟨next, rest, rfl⟩ := hin
            refine hlinkless _ _ ⟨name, next :: rest, ?_⟩
            rw [List.append_assoc]
            rfl
          obtain ⟨rfl, hparent⟩ := walk_names hbelow h
          refine ⟨by rw [List.append_assoc]; rfl, fun _ => ?_⟩
          cases names with
          | nil => rw [List.dropLast_singleton, List.append_nil]; exact hhere
          | cons next rest =>
            have hparent := hparent (List.cons_ne_nil _ _)
            rwa [List.append_assoc] at hparent

end Disk

end Rebuild
