import Rebuild.Proofs.Disk.Footing

/-!
# What a path sees

A path below a directory with a footing sees the items on its own way and nothing
else. Two disks with the same items there read the same at the path.

* `Disk.walk_names_congr`: walking down names over the same items.
* `Footing.read_congr`: reading where the items on the way are the same.
* `Footing.read_of_shrunk`: reading where some items may be gone.
-/
namespace Rebuild.Disk

/-- Walking down names sees only what lies on the way. Where there are no links, it does not matter
how many may be followed. -/
theorem walk_names_congr {d d' : Disk} {follow : Bool} {n n' : Nat} :
    ∀ {names : List Bytes} {here : Place},
    (∀ place target, here.Inside place → d.at? place ≠ some (.link target)) →
    (∀ l, l <+: names → d'.at? (here ++ l) = d.at? (here ++ l)) →
    d'.walk follow n' here (names.map .down) = d.walk follow n here (names.map .down)
  | [], here, _, hsame => by
    have hhere := hsame [] List.prefix_rfl
    rw [List.append_nil] at hhere
    rw [List.map_nil, walk, walk, hhere]
  | name :: names, here, hlinkless, hsame => by
    have happend (l : List Bytes) : here ++ [name] ++ l = here ++ name :: l :=
      (List.append_cons here name l).symm
    have hhere := hsame [] List.nil_prefix
    have hnext := hsame [name] (List.cons_prefix_cons.2 ⟨rfl, List.nil_prefix⟩)
    have hrest : d'.walk follow n' (here ++ [name]) (names.map .down) =
        d.walk follow n (here ++ [name]) (names.map .down) := by
      refine walk_names_congr (fun place target hin => ?_) fun l hl => ?_
      · obtain ⟨first, more, rfl⟩ := hin
        exact hlinkless _ _ ⟨name, first :: more, happend _⟩
      · rw [happend]
        exact hsame (name :: l) (List.cons_prefix_cons.2 ⟨rfl, hl⟩)
    rw [List.append_nil] at hhere
    rw [List.map_cons, walk, walk, hhere]
    dsimp only
    rw [hnext, hrest]
    cases hitem : d.at? (here ++ [name]) with
    | none => rfl
    | some item =>
      cases item with
      | link target => exact absurd hitem (hlinkless _ target ⟨name, [], rfl⟩)
      | _ => rfl

variable {d d' : Disk} {root : OsPath} {dir : Place} {names : List Bytes}

theorem Footing.resolve_congr (h : d.Footing root dir) (h' : d'.Footing root dir)
    (hnames : ∀ name ∈ names, OsPath.IsName name) (hne : names ≠ [])
    (hsame : ∀ l, l <+: names → d'.at? (dir ++ l) = d.at? (dir ++ l)) (follow : Bool) :
    d'.resolve follow (OsPath.below root names) = d.resolve follow (OsPath.below root names) := by
  obtain ⟨m, hwalk⟩ := h.walk_below
  obtain ⟨m', hwalk'⟩ := h'.walk_below
  unfold resolve
  rw [(OsPath.steps_below hnames h.root_ne_nil hne).1, hwalk follow names hne,
    hwalk' follow names hne, walk_names_congr h.linkless hsame]

theorem Footing.read_congr (h : d.Footing root dir) (h' : d'.Footing root dir)
    (hnames : ∀ name ∈ names, OsPath.IsName name) (hne : names ≠ [])
    (hsame : ∀ l, l <+: names → d'.at? (dir ++ l) = d.at? (dir ++ l)) :
    d'.read (OsPath.below root names) = d.read (OsPath.below root names) := by
  unfold read
  rw [h.resolve_congr h' hnames hne hsame]

theorem Footing.read_of_same (h : d.Footing root dir) (h' : d'.Footing root dir) {name : Bytes}
    (hsame : Same (dir ++ [name]) d d') (hnames : ∀ n ∈ name :: names, OsPath.IsName n) :
    d'.read (OsPath.below root (name :: names)) = d.read (OsPath.below root (name :: names)) := by
  refine h.read_congr h' hnames (List.cons_ne_nil _ _) fun l hl => ?_
  cases l with
  | nil => rw [List.append_nil, h.at?_dir, h'.at?_dir]
  | cons first rest =>
    rw [(List.cons_prefix_cons.1 hl).1, List.append_cons dir name rest]
    exact hsame rest

/-! ## Items that are gone -/

/-- At a place and below it, each item is as it was or gone. -/
def Shrunk (place : Place) (d d' : Disk) : Prop :=
  ∀ rest, d'.at? (place ++ rest) = d.at? (place ++ rest) ∨ d'.at? (place ++ rest) = none

theorem Same.shrunk {place : Place} (h : Same place d d') : Shrunk place d d' :=
  fun rest => .inl (h rest)

theorem Shrunk.trans {place : Place} {d'' : Disk} (h : Shrunk place d d')
    (h' : Shrunk place d' d'') : Shrunk place d d'' := by
  intro rest
  rcases h' rest with hsame' | hnone'
  · rw [hsame']
    exact h rest
  · exact .inr hnone'

/-- A path that leads to a directory or a file leads through directories. -/
theorem Footing.at?_ne_none (h : d.Footing root dir) (hsome : d.at? (dir ++ names) ≠ none)
    {l : List Bytes} (hl : l <+: names) : d.at? (dir ++ l) ≠ none := by
  obtain ⟨more, rfl⟩ := hl
  cases more with
  | nil => rwa [List.append_nil] at hsome
  | cons name rest =>
    rw [h.at?_of_below hsome]
    exact Option.some_ne_none _

/-- What is still read below a name of which some items are gone was there before. -/
theorem Footing.read_of_shrunk (h : d.Footing root dir) (h' : d'.Footing root dir) {name : Bytes}
    (hshrunk : Shrunk (dir ++ [name]) d d') (hnames : ∀ n ∈ name :: names, OsPath.IsName n)
    {content : Bytes} (hread : d'.read (OsPath.below root (name :: names)) = .ok content) :
    d.read (OsPath.below root (name :: names)) = .ok content := by
  obtain ⟨found, hresolve, hitem⟩ := ok_of_bind hread
  obtain ⟨rfl, -⟩ := h'.resolve_below hnames (List.cons_ne_nil _ _) hresolve
  have hsome : d'.at? (dir ++ name :: names) ≠ none := by
    intro hnone
    dsimp only at hitem
    rw [hnone] at hitem
    cases hitem
  rw [← h.read_congr h' hnames (List.cons_ne_nil _ _) fun l hl => ?_]
  · exact hread
  · cases l with
    | nil => rw [List.append_nil, h.at?_dir, h'.at?_dir]
    | cons first rest =>
      have hthere := h'.at?_ne_none hsome hl
      rw [(List.cons_prefix_cons.1 hl).1, List.append_cons dir name rest] at hthere ⊢
      exact (hshrunk rest).resolve_right hthere

end Rebuild.Disk
