import Mathlib.Algebra.GroupWithZero.Nat
import Rebuild.Digest.ContentHash
import Rebuild.Disk.Action

/-!
# Paths of plain names

A path that is put together by pushing plain names is written so that its steps
are those of the directory and then one step down for each name. Segments of
relative paths are plain names, and so are the names that a cache gives its
entries.

* `OsPath.IsName`: a name that is a single step down.
* `OsPath.steps_below`: the steps of a path of names below a directory.
* `OsPath.sum_le_length_below`, `OsPath.length_below_le`, `OsPath.of_mem_below`: its
  length and its bytes.
* `OsPath.isName_ofText`, `OsPath.isName_shortHash`: texts that are plain names.
-/
namespace Rebuild

/-! ## Bytes of texts -/

namespace Bytes

theorem ofText_eq (s : String) : ofText s = s.toList.flatMap String.utf8EncodeChar := by
  have h : s.toUTF8 = s.toList.utf8Encode := String.utf8Encode_toList.symm
  unfold ofText
  rw [h, List.utf8Encode, List.data_toByteArray]

theorem ofText_append (s t : String) : ofText (s ++ t) = ofText s ++ ofText t := by
  rw [ofText_eq, ofText_eq, ofText_eq, String.toList_append, List.flatMap_append]

theorem not_lt_ofNat {n : Nat} (hlow : 0x80 ≤ n) (hhigh : n < 0x100) :
    ¬(UInt8.ofNat n).toNat < 0x80 := by
  rw [UInt8.toNat_ofNat']
  omega

/-- Bytes of characters outside ASCII are not those of ASCII characters. -/
theorem toNat_of_mem_utf8EncodeChar {c : Char} {b : UInt8} (h : b ∈ String.utf8EncodeChar c)
    (hb : b.toNat < 0x80) : c.toNat = b.toNat := by
  have hc : c.val.toNat = c.toNat := rfl
  revert h
  fun_cases String.utf8EncodeChar c
  next v hle =>
    intro h
    rw [List.mem_singleton] at h
    rw [h, UInt8.toNat_ofNat']
    omega
  all_goals
    intro h
    exfalso
    simp only [List.mem_cons, List.not_mem_nil, or_false] at h
    rcases h with rfl | rfl | rfl | rfl <;> exact not_lt_ofNat (by omega) (by omega) hb

theorem mem_ofText {s : String} {b : UInt8} (h : b ∈ ofText s) (hb : b.toNat < 0x80) :
    ∃ c ∈ s.toList, c.toNat = b.toNat := by
  rw [ofText_eq] at h
  obtain ⟨c, hc, hmem⟩ := List.mem_flatMap.1 h
  exact ⟨c, hc, toNat_of_mem_utf8EncodeChar hmem hb⟩

end Bytes

/-! ## Names -/

namespace OsPath

/-- A name that is a single step down. -/
structure IsName (name : Bytes) : Prop where
  ne_nil : name ≠ []
  ne_dot : name ≠ [0x2E]
  ne_dots : name ≠ [0x2E, 0x2E]
  plain : separator ∉ name

theorem isName_ofText {s : String} (hempty : s ≠ "") (hdot : s ≠ ".") (hdots : s ≠ "..")
    (hplain : '/' ∉ s.toList) : IsName (Bytes.ofText s) := by
  refine ⟨fun h => hempty ?_, fun h => hdot ?_, fun h => hdots ?_, ?_⟩
  · exact Bytes.ofText_injective (h.trans (by decide))
  · exact Bytes.ofText_injective (h.trans (by decide))
  · exact Bytes.ofText_injective (h.trans (by decide))
  · intro h
    obtain ⟨c, hc, heq⟩ := Bytes.mem_ofText h (by decide)
    have : c = '/' := Char.toNat_inj.1 heq
    exact hplain (this ▸ hc)

/-- A number after a stem of several plain letters makes a name. -/
theorem isName_numbered {stem : String} (hstem : 2 < stem.toList.length)
    (hplain : '/' ∉ stem.toList) (n : Nat) : IsName (Disk.numbered stem n) := by
  have hlength : 2 < (stem ++ String.ofList (Disk.sixDigits n)).toList.length := by
    rw [String.toList_append, List.length_append]
    omega
  refine isName_ofText ?_ ?_ ?_ ?_
  · intro e
    rw [e] at hlength
    exact absurd hlength (by decide)
  · intro e
    rw [e] at hlength
    exact absurd hlength (by decide)
  · intro e
    rw [e] at hlength
    exact absurd hlength (by decide)
  · intro hmem
    rw [String.toList_append, String.toList_ofList] at hmem
    rcases List.mem_append.1 hmem with hmem | hmem
    · exact hplain hmem
    · rcases List.mem_append.1 hmem with hmem | hmem
      · cases List.eq_of_mem_replicate hmem
      · have := Nat.isDigit_of_mem_toDigits (by decide) (by decide) hmem
        cases this

theorem isName_segment {s : String} (h : IsSegment s) : IsName (Bytes.ofText s) :=
  isName_ofText h.1 h.2.1 h.2.2.1 h.2.2.2.1

theorem mem_shortHash {s : String} {c : Char} (h : c ∈ (shortHash s).toList) :
    ∃ n < 16, c = hexDigit n := by
  unfold shortHash ContentHash.ofBytes Bytes.hex at h
  rw [String.toList_ofList, String.toList_ofList] at h
  obtain ⟨x, -, hx⟩ := List.mem_flatMap.1 (List.mem_of_mem_take h)
  have hlt := x.toNat_lt
  rcases List.mem_cons.1 hx with rfl | hx
  · exact ⟨_, by omega, rfl⟩
  · exact ⟨_, by omega, List.mem_singleton.1 hx⟩

/-- A short hash has no bytes below those of digits, so no dots, separators or NUL bytes. -/
theorem not_mem_shortHash {s : String} {b : UInt8} (hb : b.toNat < 0x30) :
    b ∉ Bytes.ofText (shortHash s) := by
  intro h
  obtain ⟨c, hc, heq⟩ := Bytes.mem_ofText h (by omega)
  obtain ⟨n, hn, rfl⟩ := mem_shortHash hc
  have hdigit : ∀ n < 16, 0x30 ≤ (hexDigit n).toNat := by decide
  have := hdigit n hn
  omega

theorem length_shortHash (s : String) : (Bytes.ofText (shortHash s)).length = shortHashLength := by
  have hdigits : ∀ n < 16, (hexDigit n).utf8Size = 1 := by decide
  have hlength : (shortHash s).toList.length = shortHashLength := by
    have hbytes (words : Sha256.Words) : words.bytes.hex.toList.length = 64 := by
      unfold Bytes.hex
      rw [String.toList_ofList]
      rfl
    unfold shortHash
    rw [String.toList_ofList, List.length_take]
    exact (congrArg (min shortHashLength) (hbytes _)).trans (by decide)
  have hsum (l : List Char) (h : ∀ c ∈ l, c.utf8Size = 1) :
      (l.flatMap String.utf8EncodeChar).length = l.length := by
    induction l with
    | nil => rfl
    | cons c l ih =>
      obtain ⟨hc, hl⟩ := List.forall_mem_cons.1 h
      rw [List.flatMap_cons, List.length_append, String.length_utf8EncodeChar, hc, ih hl,
        List.length_cons, Nat.add_comm]
  rw [Bytes.ofText_eq, hsum _ fun c hc => ?_, hlength]
  obtain ⟨n, hn, rfl⟩ := mem_shortHash hc
  exact hdigits n hn

theorem shortHash_ne_empty (s : String) : shortHash s ≠ "" := by
  intro h
  have hlength := length_shortHash s
  rw [h] at hlength
  exact absurd hlength (by decide)

theorem isName_shortHash (s : String) : IsName (Bytes.ofText (shortHash s)) := by
  refine ⟨?_, ?_, ?_, not_mem_shortHash (by decide)⟩
  · intro h
    exact shortHash_ne_empty s (Bytes.ofText_injective (h.trans (by decide)))
  · intro h
    exact not_mem_shortHash (s := s) (b := 0x2E) (by decide) (h ▸ by decide)
  · intro h
    exact not_mem_shortHash (s := s) (b := 0x2E) (by decide) (h ▸ by decide)

/-! ## Steps -/

/-- A path of names below a directory. -/
def below (dir : OsPath) (names : List Bytes) : OsPath := names.foldl push dir

theorem below_below (dir : OsPath) (names more : List Bytes) :
    below (below dir names) more = below dir (names ++ more) := List.foldl_append.symm

theorem push_eq (dir : OsPath) (name : Bytes) : push dir name = below dir [name] := rfl

theorem child_eq (dir : OsPath) (name : String) :
    dir.child name = below dir [Bytes.ofText name] := rfl

/-- The steps of a directory, as they stand in a path that goes on below it. -/
def stem (dir : OsPath) : List PathStep :=
  if dir.getLast? = some separator then steps dir.dropLast else steps dir

theorem steps_append_separator (p q : OsPath) :
    steps (p ++ separator :: q) = steps p ++ steps q := by
  unfold steps
  rw [List.splitOn_append_cons_self, List.map_append]

theorem IsName.stepOfPiece_eq {name : Bytes} (h : IsName name) : stepOfPiece name = .down name := by
  unfold stepOfPiece
  rw [if_neg (fun e => e.elim h.ne_nil h.ne_dot), if_neg h.ne_dots]

theorem IsName.steps_eq {name : Bytes} (h : IsName name) : steps name = [.down name] := by
  unfold steps
  rw [List.splitOn_eq_singleton h.plain, List.map_cons, List.map_nil, h.stepOfPiece_eq]

theorem IsName.getLast?_append {name : Bytes} (h : IsName name) (p : OsPath) :
    (p ++ name).getLast? ≠ some separator := by
  rw [List.getLast?_append, List.getLast?_eq_some_getLast h.ne_nil]
  intro e
  exact h.plain (Option.some.inj e ▸ List.getLast_mem h.ne_nil)

theorem IsName.isAbsolute_eq {name : Bytes} (h : IsName name) : isAbsolute name = false := by
  unfold isAbsolute
  rw [beq_eq_false_iff_ne]
  exact fun e => h.plain (List.mem_of_head? e)

theorem steps_push {name : Bytes} (h : IsName name) {dir : OsPath} (hdir : dir ≠ []) :
    steps (push dir name) = stem dir ++ [.down name] ∧ push dir name ≠ [] ∧
      (push dir name).getLast? ≠ some separator := by
  unfold OsPath.push stem
  rw [h.isAbsolute_eq, if_neg Bool.false_ne_true]
  split
  next hend =>
    have hend : dir.getLast? = some separator := hend.resolve_left hdir
    refine ⟨?_, fun e => hdir (List.append_eq_nil_iff.1 e).1, h.getLast?_append dir⟩
    obtain ⟨rest, rfl⟩ := List.getLast?_eq_some_iff.1 hend
    rw [if_pos hend, List.dropLast_concat, ← h.steps_eq, ← steps_append_separator,
      List.append_assoc]
    rfl
  next hend =>
    have hend : ¬dir.getLast? = some separator := fun e => hend (.inr e)
    refine ⟨by rw [if_neg hend, steps_append_separator, h.steps_eq],
      fun e => hdir (List.append_eq_nil_iff.1 e).1, ?_⟩
    have hlast := h.getLast?_append (dir ++ [separator])
    rwa [List.append_assoc] at hlast

theorem steps_below {names : List Bytes} (hnames : ∀ name ∈ names, IsName name) {dir : OsPath}
    (hdir : dir ≠ []) (hne : names ≠ []) :
    steps (below dir names) = stem dir ++ names.map .down ∧ below dir names ≠ [] ∧
      (below dir names).getLast? ≠ some separator := by
  induction names generalizing dir with
  | nil => exact absurd rfl hne
  | cons name names ih =>
    have hpush := steps_push (hnames name List.mem_cons_self) hdir
    cases names with
    | nil => exact hpush
    | cons next rest =>
      have hrest := ih (fun n hn => hnames n (List.mem_cons_of_mem _ hn)) hpush.2.1
        (List.cons_ne_nil _ _)
      refine ⟨?_, hrest.2⟩
      have hstem : stem (push dir name) = stem dir ++ [.down name] := by
        unfold stem
        rw [if_neg hpush.2.2]
        exact hpush.1
      rw [show below dir (name :: next :: rest) = below (push dir name) (next :: rest) from rfl,
        hrest.1, hstem, List.append_assoc]
      rfl

theorem trimEnd_eq {p : OsPath} (h : p.getLast? ≠ some separator) : trimEnd p = p := by
  unfold trimEnd
  cases hrev : p.reverse with
  | nil => rw [List.reverse_eq_nil_iff.1 hrev]; rfl
  | cons b rest =>
    have hb : b ≠ separator := by
      intro e
      rw [List.getLast?_eq_head?_reverse, hrev, e] at h
      exact h rfl
    rw [List.dropWhile_cons_of_neg (by simp [hb]), ← hrev, List.reverse_reverse]

/-- Steps that stay in place make up the end of the steps of a directory. -/
theorem steps_eq_stem (dir : OsPath) : ∃ n, steps dir = stem dir ++ List.replicate n .stay := by
  unfold stem
  split
  next h =>
    obtain ⟨rest, rfl⟩ := List.getLast?_eq_some_iff.1 h
    refine ⟨1, ?_⟩
    rw [List.dropLast_concat, steps_append_separator]
    rfl
  next => exact ⟨0, (List.append_nil _).symm⟩

theorem steps_eq_trimEnd (p : OsPath) :
    ∃ n, steps p = steps (trimEnd p) ++ List.replicate n .stay := by
  have hgo (l : List UInt8) : ∃ n, steps l.reverse =
      steps (l.dropWhile (· == separator)).reverse ++ List.replicate n .stay := by
    induction l with
    | nil => exact ⟨0, rfl⟩
    | cons b l ih =>
      by_cases hb : b = separator
      · obtain ⟨n, hn⟩ := ih
        refine ⟨n + 1, ?_⟩
        rw [List.dropWhile_cons_of_pos (by simp [hb]), List.reverse_cons, hb,
          steps_append_separator, hn, List.append_assoc, List.replicate_succ']
        rfl
      · refine ⟨0, ?_⟩
        rw [List.dropWhile_cons_of_neg (by simp [hb])]
        exact (List.append_nil _).symm
  have := hgo p.reverse
  rwa [List.reverse_reverse] at this

/-! ## Steps that stay at the end -/

theorem trimStays_eq_self {p : OsPath} (pieces : List Bytes) {last : Bytes}
    (hp : p.splitOn separator = pieces ++ [last]) (hlast : stepOfPiece last ≠ .stay) :
    trimStays p = p := by
  have hkeep : (p.splitOn separator).reverse.dropWhile (stepOfPiece · == .stay) =
      (p.splitOn separator).reverse := by
    rw [hp, List.reverse_concat, List.dropWhile_cons_of_neg (by simp [hlast])]
  unfold trimStays
  rw [hkeep]
  dsimp only
  rw [List.reverse_reverse, List.intercalate_splitOn, ite_self]

theorem trimStays_push {name : Bytes} (h : IsName name) (dir : OsPath) :
    trimStays (push dir name) = push dir name := by
  have hlast : stepOfPiece name ≠ .stay := by
    rw [h.stepOfPiece_eq]
    nofun
  have hsplit := List.splitOn_eq_singleton h.plain
  unfold push
  rw [h.isAbsolute_eq, if_neg Bool.false_ne_true]
  split
  next hend =>
    rcases hend with rfl | hend
    · exact trimStays_eq_self [] hsplit hlast
    · obtain ⟨rest, rfl⟩ := List.getLast?_eq_some_iff.1 hend
      refine trimStays_eq_self (rest.splitOn separator) ?_ hlast
      rw [List.append_assoc, List.singleton_append, List.splitOn_append_cons_self, hsplit]
  next =>
    refine trimStays_eq_self (dir.splitOn separator) ?_ hlast
    rw [List.splitOn_append_cons_self, hsplit]

/-- A trimmed path has the same steps but for those that stay. -/
theorem steps_eq_trimStays (p : OsPath) :
    ∃ n, steps p = steps (trimStays p) ++ List.replicate n .stay := by
  unfold trimStays
  dsimp only
  split
  next => exact ⟨0, (List.append_nil _).symm⟩
  next hne =>
    generalize hpieces : (p.splitOn separator).reverse.dropWhile
      (stepOfPiece · == .stay) = pieces at hne ⊢
    obtain ⟨dropped, hdropped, hsplit⟩ : ∃ dropped, (∀ piece ∈ dropped, stepOfPiece piece = .stay) ∧
        p.splitOn separator = pieces.reverse ++ dropped := by
      refine ⟨((p.splitOn separator).reverse.takeWhile (stepOfPiece · == .stay)).reverse,
        fun piece hpiece => ?_, ?_⟩
      · simpa using List.all_eq_true.1 List.all_takeWhile piece (List.mem_reverse.1 hpiece)
      · rw [← hpieces, ← List.reverse_append, List.takeWhile_append_dropWhile,
          List.reverse_reverse]
    have hplain : ∀ piece ∈ pieces.reverse, separator ∉ piece := fun piece hpiece =>
      (RelativePath.not_mem_of_mem_splitOn (hsplit ▸ List.mem_append_left _ hpiece)).1
    refine ⟨dropped.length, ?_⟩
    unfold steps
    rw [List.splitOn_intercalate _ hplain (by simpa using hne), hsplit, List.map_append]
    congr 1
    exact List.eq_replicate_iff.2 ⟨List.length_map _, List.forall_mem_map.2 hdropped⟩

/-! ## Lengths and bytes -/

theorem IsName.push_eq {name : Bytes} (h : IsName name) (dir : OsPath) :
    push dir name = dir ++ name ∨ push dir name = dir ++ separator :: name := by
  unfold push
  rw [h.isAbsolute_eq, if_neg Bool.false_ne_true]
  split
  · exact .inl rfl
  · exact .inr rfl

theorem prefix_below {names : List Bytes} (h : ∀ name ∈ names, IsName name) (dir : OsPath) :
    dir <+: below dir names := by
  induction names generalizing dir with
  | nil => exact List.prefix_rfl
  | cons name names ih =>
    obtain ⟨hname, hnames⟩ := List.forall_mem_cons.1 h
    have hpush : dir <+: push dir name := by
      rcases hname.push_eq dir with heq | heq <;> rw [heq] <;> exact List.prefix_append _ _
    exact hpush.trans (ih hnames (push dir name))

/-- A path gets longer with each name. -/
theorem sum_le_length_below {names : List Bytes} (h : ∀ name ∈ names, IsName name) (dir : OsPath) :
    dir.length + (names.map List.length).sum ≤ (below dir names).length := by
  induction names generalizing dir with
  | nil => exact Nat.le_refl _
  | cons name names ih =>
    obtain ⟨hname, hnames⟩ := List.forall_mem_cons.1 h
    have hpush : dir.length + name.length ≤ (push dir name).length := by
      rcases hname.push_eq dir with heq | heq <;> have hlength := congrArg List.length heq
      · rw [List.length_append] at hlength
        omega
      · rw [List.length_append, List.length_cons] at hlength
        omega
    have hrest := ih hnames (push dir name)
    rw [List.map_cons, List.sum_cons]
    refine Nat.le_trans ?_ hrest
    omega

theorem below_ne_nil {names : List Bytes} (h : ∀ name ∈ names, IsName name) (hne : names ≠ [])
    (dir : OsPath) : below dir names ≠ [] := by
  obtain ⟨name, rest, rfl⟩ := List.exists_cons_of_ne_nil hne
  have hname := List.length_pos_iff.2 (h name List.mem_cons_self).ne_nil
  have hlength := sum_le_length_below h dir
  rw [List.map_cons, List.sum_cons] at hlength
  exact List.length_pos_iff.1 (by omega)

/-- Each name takes a separator at most besides its own bytes. -/
theorem length_below_le {names : List Bytes} (h : ∀ name ∈ names, IsName name) (dir : OsPath) :
    (below dir names).length ≤ dir.length + (names.map (·.length + 1)).sum := by
  induction names generalizing dir with
  | nil => exact Nat.le_refl _
  | cons name names ih =>
    obtain ⟨hname, hnames⟩ := List.forall_mem_cons.1 h
    have hpush : (push dir name).length ≤ dir.length + (name.length + 1) := by
      rcases hname.push_eq dir with heq | heq <;> have hlength := congrArg List.length heq
      · rw [List.length_append] at hlength
        omega
      · rw [List.length_append, List.length_cons] at hlength
        omega
    have hrest := ih hnames (push dir name)
    rw [List.map_cons, List.sum_cons]
    refine Nat.le_trans hrest ?_
    omega

theorem IsName.length_push {name : Bytes} (h : IsName name) (dir : OsPath) :
    (push dir name).length = (push dir []).length + name.length := by
  have hnil : isAbsolute [] = false := rfl
  unfold push
  rw [h.isAbsolute_eq, hnil, if_neg Bool.false_ne_true, if_neg Bool.false_ne_true]
  split
  · rw [List.length_append, List.append_nil]
  · rw [List.length_append, List.length_append, List.length_cons, List.length_singleton]
    omega

theorem IsName.length_push_push {name : Bytes} (h : IsName name) (dir : OsPath) :
    (push (push dir name) []).length = (push dir name).length + 1 := by
  have hnil : isAbsolute [] = false := rfl
  have hend : ¬(push dir name = [] ∨ (push dir name).getLast? = some separator) := by
    rcases h.push_eq dir with heq | heq
    · rw [heq]
      exact fun e => e.elim (fun e => h.ne_nil (List.append_eq_nil_iff.1 e).2)
        (h.getLast?_append dir)
    · rw [heq, List.append_cons]
      exact fun e => e.elim (fun e => h.ne_nil (List.append_eq_nil_iff.1 e).2)
        (h.getLast?_append (dir ++ [separator]))
  rw [push.eq_1 (push dir name), hnil, if_neg Bool.false_ne_true, if_neg hend, List.length_append,
    List.length_singleton]

/-- After the first name, each takes a separator and its own bytes. -/
theorem length_below_cons {name : Bytes} {names : List Bytes} (hname : IsName name)
    (h : ∀ name ∈ names, IsName name) (dir : OsPath) :
    (below dir (name :: names)).length =
      (push dir []).length + name.length + (names.map (·.length + 1)).sum := by
  induction names generalizing dir name with
  | nil => exact hname.length_push dir
  | cons next rest ih =>
    obtain ⟨hnext, hrest⟩ := List.forall_mem_cons.1 h
    have hbelow := ih hnext hrest (push dir name)
    rw [hname.length_push_push, hname.length_push] at hbelow
    rw [List.map_cons, List.sum_cons]
    exact hbelow.trans (by omega)

theorem of_mem_below {names : List Bytes} (h : ∀ name ∈ names, IsName name) {dir : OsPath}
    {b : UInt8} (hb : b ∈ below dir names) :
    b ∈ dir ∨ b = separator ∨ ∃ name ∈ names, b ∈ name := by
  induction names generalizing dir with
  | nil => exact .inl hb
  | cons name names ih =>
    obtain ⟨hname, hnames⟩ := List.forall_mem_cons.1 h
    have hself : b ∈ name → ∃ n ∈ name :: names, b ∈ n := fun hb =>
      ⟨name, List.mem_cons_self, hb⟩
    rcases ih hnames hb with hb | hb | ⟨n, hn, hb⟩
    · rcases hname.push_eq dir with heq | heq
      · rw [heq, List.mem_append] at hb
        exact hb.imp_right fun hb => .inr (hself hb)
      · rw [heq, List.mem_append, List.mem_cons] at hb
        exact hb.imp_right (·.imp_right hself)
    · exact .inr (.inl hb)
    · exact .inr (.inr ⟨n, List.mem_cons_of_mem _ hn, hb⟩)

end OsPath

theorem RelativePath.under_eq (p : RelativePath) (root : OsPath) :
    p.under root = OsPath.below root (p.segments.map Bytes.ofText) := by
  unfold under OsPath.below
  rw [List.foldl_map]
  rfl

theorem RelativePath.isName_segments (p : RelativePath) :
    ∀ name ∈ p.segments.map Bytes.ofText, OsPath.IsName name := by
  intro name h
  obtain ⟨s, hs, rfl⟩ := List.mem_map.1 h
  exact OsPath.isName_segment (p.plain s hs)

end Rebuild
