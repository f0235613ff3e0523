import Rebuild.Proofs.Incremental.Cached

/-!
# Caches in memory can be trusted

Every entry was made of a product: it has the encoded fingerprint of which the
product was made, and the contents of its outputs. A hit means that the
fingerprints are encoded alike, so they are the same, and what is copied out is
what the builder would make.

* `Workshop.Backs`: an entry that was made of a product.
* `trusts_memory`: the cache hands out such entries only, and stores no others.
-/
namespace Rebuild

/-! ## Copying files -/

section Copying

variable {ρ : Type}

/-- Files of the target after others were written over them. -/
def Site.overwritten (s : Site ρ) (l : List (RelativePath × Bytes)) : Site ρ :=
  { s with target :=
    { s.target with files := l.foldl (fun m e => m.insert e.1 e.2) s.target.files } }

theorem writeAll_directory : ∀ (l : List (RelativePath × Bytes)) (s : Site ρ),
    Site.directory.writeAll l s = (.ok (), s.overwritten l)
  | [], _ => rfl
  | (p, content) :: l, s => by
    have hwrite : Site.directory.write p content s = (.ok (), s.overwritten [(p, content)]) := rfl
    rw [Directory.writeAll, hwrite]
    exact writeAll_directory l _

theorem get?_overwritten (s : Site ρ) (m : SortedMap RelativePath Bytes) (p : RelativePath) :
    (s.overwritten m.entries).target.files.get? p = (m.get? p <|> s.target.files.get? p) :=
  SortedMap.get?_foldl_insert p m.entries s.target.files m.ascending

end Copying

/-! ## Entries -/

theorem SortedMap.ascending_iff {κ ν : Type} [Ord κ] (l : List (κ × ν)) :
    Assoc.Ascending l ↔ (l.map Prod.fst).Pairwise fun a b => compare a b = .lt := by
  unfold Assoc.Ascending
  rw [List.pairwise_map]

namespace MemoryCache

theorem readFiles_eq {read : RelativePath → Except FsError Bytes} :
    ∀ {l : List RelativePath} {files : List (RelativePath × Bytes)},
    readFiles read l = .ok files →
      files.map Prod.fst = l ∧ ∀ p content, (p, content) ∈ files → read p = .ok content
  | [], files, h => by
    cases h
    exact ⟨rfl, fun _ _ h => by cases h⟩
  | p :: rest, files, h => by
    unfold readFiles at h
    obtain ⟨content, hread, h⟩ := ok_of_bind h
    obtain ⟨others, hrest, h⟩ := ok_of_bind h
    cases h
    obtain ⟨hkeys, hcontent⟩ := readFiles_eq hrest
    refine ⟨by rw [List.map_cons, hkeys], ?_⟩
    intro q content' hmem
    rcases List.mem_cons.1 hmem with heq | hmem
    · cases heq
      exact hread
    · exact hcontent q content' hmem

theorem get?_ofList_readFiles {read : RelativePath → Except FsError Bytes} {outputs : Outputs}
    {files : List (RelativePath × Bytes)} (h : readFiles read outputs.toList = .ok files) :
    (∀ p, p ∈ (SortedMap.ofList files).keys ↔ p ∈ outputs) ∧
      ∀ p content, (SortedMap.ofList files).get? p = some content → read p = .ok content := by
  obtain ⟨hkeys, hcontent⟩ := readFiles_eq h
  have hascending : Assoc.Ascending files := by
    rw [SortedMap.ascending_iff, hkeys]
    exact (SortedMap.ascending_iff _).1 outputs.map.ascending
  have hget (p : RelativePath) (content : Bytes) :
      (SortedMap.ofList files).get? p = some content ↔ (p, content) ∈ files := by
    rw [SortedMap.get?_ofList hascending, Assoc.mem_iff_find? hascending]
  refine ⟨?_, fun p content hp => hcontent p content ((hget p content).1 hp)⟩
  intro p
  rw [SortedMap.mem_keys, SortedMap.contains, Option.isSome_iff_exists, ← SortedSet.mem_toList,
    ← hkeys, List.mem_map]
  constructor
  · rintro ⟨content, hp⟩
    exact ⟨_, (hget p content).1 hp, rfl⟩
  · rintro ⟨e, he, heq⟩
    exact ⟨e.2, (hget p e.2).2 (heq ▸ he)⟩

theorem contains_eq_true {c : MemoryCache} {id : BuilderId} {fp : Fingerprint}
    (h : c.contains id fp = .ok true) :
    ∃ entry, c.entries.get? id = some entry ∧ fp.encode = .ok entry.fingerprint := by
  unfold contains at h
  obtain ⟨encoded, hencode, h⟩ := ok_of_bind h
  have hany : (c.entries.get? id).any (·.fingerprint == encoded) = true := Except.ok.inj h
  cases hentry : c.entries.get? id with
  | none => rw [hentry] at hany; cases hany
  | some entry =>
    rw [hentry] at hany
    have heq : entry.fingerprint = encoded := beq_iff_eq.1 hany
    exact ⟨entry, rfl, heq ▸ hencode⟩

theorem store_eq_ok {c c' : MemoryCache} {id : BuilderId} {fp : Fingerprint} {outputs : Outputs}
    {read : RelativePath → Except FsError Bytes} (h : c.store id fp outputs read = .ok c') :
    ∃ encoded files, fp.encode = .ok encoded ∧ readFiles read outputs.toList = .ok files ∧
      c' = ⟨c.entries.insert id ⟨encoded, .ofList files⟩⟩ := by
  unfold store at h
  obtain ⟨encoded, hencode, h⟩ := ok_of_bind h
  obtain ⟨files, hfiles, h⟩ := ok_of_bind h
  cases h
  exact ⟨encoded, files, ok_of_mapError hencode, ok_of_mapError hfiles, rfl⟩

end MemoryCache

/-! ## Trust -/

namespace Workshop

variable {ρ ι : Type}

/-- An entry of a builder was made of a product. -/
def Backs (w : Workshop ρ ι) (id : BuilderId) (entry : MemoryEntry) : Prop :=
  ∃ fp product, fp.isBuiltIn = true ∧ w.outcome id fp = some product ∧
    fp.encode = .ok entry.fingerprint ∧ (∀ p, p ∈ entry.files.keys ↔ p ∈ product.outputs) ∧
    ∀ p content, entry.files.get? p = some content → product.content p = some content

/-- All entries in memory were made of products. -/
def KeptInMemory (w : Workshop ρ ι) (s : Site ρ) : Prop :=
  ∀ id entry, s.memory.entries.get? id = some entry → w.Backs id entry

variable {w : Workshop ρ ι}

theorem copied_overwritten {product : Product} {files : SortedMap RelativePath Bytes}
    (hkeys : ∀ p, p ∈ files.keys ↔ p ∈ product.outputs)
    (hcontent : ∀ p content, files.get? p = some content → product.content p = some content)
    (s : Site ρ) : Copied product s (s.overwritten files.entries) (.ok (.ofList files.keys)) := by
  refine ⟨⟨_, rfl⟩, ?_, ?_⟩
  · intro p hp
    rw [← hkeys, SortedMap.mem_keys, SortedMap.contains, Bool.not_eq_true,
      Option.isSome_eq_false_iff, Option.isNone_iff_eq_none] at hp
    rw [get?_overwritten, hp]
    rfl
  · intro outputs heq
    cases heq
    refine ⟨SortedSet.ext_mem fun p => by rw [SortedSet.mem_ofList, hkeys], fun p hp => ?_⟩
    rw [← hkeys, SortedMap.mem_keys, SortedMap.contains, Option.isSome_iff_exists] at hp
    obtain ⟨content, hp⟩ := hp
    rw [get?_overwritten, hp, hcontent p content hp]
    rfl

theorem contains_memory (id : BuilderId) (fp : Fingerprint) (t : Traced (Site ρ)) :
    Told t ((MemoryCache.cache Site.memoryPart).contains id fp t).2 ∧
      (((MemoryCache.cache Site.memoryPart).contains id fp t).1 = true →
        t.world.memory.contains id fp = .ok true) := by
  have hpart : Site.memoryPart.get t.world = t.world.memory := rfl
  unfold MemoryCache.cache
  simp only [Action.bind_apply, Action.ask_apply, hpart]
  cases t.world.memory.contains id fp with
  | ok found => exact ⟨.rfl, fun hfound => congrArg Except.ok hfound⟩
  | error e => exact ⟨.tell _, nofun⟩

/-- A hit: the entry was made of a product of the fingerprint. -/
theorem KeptInMemory.found {s : Site ρ} (h : w.KeptInMemory s) {id : BuilderId} {fp : Fingerprint}
    (hfp : fp.isBuiltIn = true) (hcontains : s.memory.contains id fp = .ok true) :
    ∃ (entry : MemoryEntry) (product : Product), s.memory.files id = .ok entry.files ∧
      w.outcome id fp = some product ∧
      (∀ p, p ∈ entry.files.keys ↔ p ∈ product.outputs) ∧
      ∀ p content, entry.files.get? p = some content → product.content p = some content := by
  obtain ⟨entry, hentry, hencode⟩ := MemoryCache.contains_eq_true hcontains
  obtain ⟨fp', product, hfp', hproduct, hencode', hkeys, hcontent⟩ := h id entry hentry
  cases Fingerprint.eq_of_encode_eq hfp hfp' hencode hencode'
  have hfiles : s.memory.files id = .ok entry.files := by
    unfold MemoryCache.files
    rw [hentry]
  exact ⟨entry, product, hfiles, hproduct, hkeys, hcontent⟩

theorem restore_memory {id : BuilderId} {t : Traced (Site ρ)}
    {files : SortedMap RelativePath Bytes} (h : t.world.memory.files id = .ok files) :
    (MemoryCache.cache Site.memoryPart).restore id Site.directory t =
      (.ok (.ofList files.keys), { t with world := t.world.overwritten files.entries }) := by
  have hpart : Site.memoryPart.get t.world = t.world.memory := rfl
  unfold MemoryCache.cache
  simp only [Action.bind_apply, Action.ask_apply, hpart, h, Action.change_apply,
    writeAll_directory]
  rfl

theorem KeptInMemory.stored {s : Site ρ} (h : w.KeptInMemory s) {id : BuilderId}
    {fp : Fingerprint} {product : Product} (hfp : fp.isBuiltIn = true)
    (hproduct : w.outcome id fp = some product)
    (hcontent : ∀ p ∈ product.outputs, s.target.files.get? p = product.content p)
    {c : MemoryCache}
    (hstore : s.memory.store id fp product.outputs (Site.directory.read · s) = .ok c) :
    w.KeptInMemory { s with memory := c } := by
  obtain ⟨encoded, files, hencode, hfiles, rfl⟩ := MemoryCache.store_eq_ok hstore
  obtain ⟨hkeys, hread⟩ := MemoryCache.get?_ofList_readFiles hfiles
  intro a entry hentry
  have hentry : (s.memory.entries.insert id ⟨encoded, .ofList files⟩).get? a = some entry := hentry
  rw [SortedMap.get?_insert] at hentry
  split at hentry
  next ha =>
    cases hentry
    cases Std.LawfulEqOrd.eq_of_compare ha
    refine ⟨fp, product, hfp, hproduct, hencode, hkeys, ?_⟩
    intro p content hp
    have hmem : p ∈ product.outputs := by
      rw [← hkeys, SortedMap.mem_keys, SortedMap.contains, hp]
      rfl
    rw [← hcontent p hmem]
    exact Site.get?_of_read (hread p content hp)
  next => exact h a entry hentry

theorem trusts_memory (w : Workshop ρ ι) :
    w.Trusts w.KeptInMemory (MemoryCache.cache Site.memoryPart) := by
  refine ⟨fun s target h => h, fun id fp t => (contains_memory id fp t).1,
    ?_, ?_⟩
  · intro id fp t t' hfp hkept hfound htold
    obtain ⟨entry, product, hfiles, hproduct, hkeys, hcontent⟩ :=
      hkept.found hfp ((contains_memory id fp t).2 hfound)
    obtain ⟨events, rfl⟩ := htold
    rw [restore_memory (t := { t with log := events ++ t.log }) hfiles]
    exact ⟨product, hproduct, copied_overwritten hkeys hcontent t.world⟩
  · intro id fp product t hfp hproduct hkept hcontent
    have hget : (get : Action (Site ρ) _) t = (t, t) := rfl
    have hpart : Site.memoryPart.get t.world = t.world.memory := rfl
    unfold MemoryCache.cache
    simp only [Action.bind_apply, hget, hpart]
    cases hstore : t.world.memory.store id fp product.outputs (Site.directory.read · t.world) with
    | error e => exact ⟨hkept, rfl, rfl⟩
    | ok c =>
      exact ⟨hkept.stored hfp hproduct hcontent hstore, rfl,
        w.inputs_eq _ _ rfl (fun _ _ => rfl) fun _ _ => rfl⟩

end Workshop

end Rebuild
