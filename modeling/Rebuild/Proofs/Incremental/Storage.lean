import Rebuild.Proofs.Incremental.InMemory
import Rebuild.Proofs.Incremental.OnDisk

/-!
# What is stored between builds

Builders share a cache in memory or one on the disk, or they have none. Whichever it
is, the builders of a build deliver if the builders behind the cache do what is asked
of them, and if what is stored was made of products.

* `Storage`: what the builders of a build share.
* `Workshop.Kept`: what is stored was made of products.
* `Workshop.Makes`: what is asked of a builder.
* `Workshop.Staffed`: a context with such builders, behind what they share.
* `Staffed.delivers`: the builders of such a context deliver.
-/
namespace Rebuild

/-- What the builders of a build share to keep outputs in. -/
inductive Storage where
  | nothing
  | memory
  | disk (c : DiskCache)

namespace Storage

variable {ρ : Type}

def cache? : Storage → Option (Cache (Site ρ))
  | nothing => none
  | memory => some (MemoryCache.cache Site.memoryPart)
  | disk c => some (DiskCache.cache Site.diskPart c)

/-- A builder is another one behind the storage. -/
def Wraps (st : Storage) (inner b : Builder (Site ρ)) : Prop :=
  match st.cache? with
  | none => b = inner
  | some cache => ∃ serial locks, b = inner.cached serial cache Site.directory locks

end Storage

namespace Workshop

variable {ρ ι : Type}

/-! ## What is stored -/

/-- What is stored was made of products. -/
def Kept (w : Workshop ρ ι) : Storage → Site ρ → Prop
  | .nothing, _ => True
  | .memory, s => w.KeptInMemory s
  | .disk c, s => w.KeptOnDisk c s

/-- Nothing is stored. The directory of a cache on the disk holds the lock file at most, and lies
where the cache looks for it. -/
def Empty (w : Workshop ρ ι) : Storage → Site ρ → Prop
  | .nothing, _ => True
  | .memory, s => s.memory = {}
  | .disk c, s => c.registry = .standard ∧ s.disk.dirAt c.root = .ok w.vault ∧
      ∀ place, w.vault.Inside place → s.disk.at? place = none ∨
        place = w.vault ++ [CacheLock.fileName] ∧
          ∃ serial content, s.disk.at? place = some (.file serial content)

/-- From one site to another, nobody lays hands on what is stored, or on the way to it. Everything
else may change: the inputs, the target, and the rest of the disk. -/
structure Spares (w : Workshop ρ ι) (s s' : Site ρ) : Prop where
  memory : s'.memory = s.memory
  disk : Disk.Same w.vault s.disk s'.disk
  way : ∀ root, s.disk.Anchored root w.vault → s'.disk.Anchored root w.vault

variable {w : Workshop ρ ι} {st : Storage} {s s' : Site ρ}

theorem KeptOnDisk.of_spares {c : DiskCache} (h : w.KeptOnDisk c s) (hspares : w.Spares s s') :
    w.KeptOnDisk c s' := by
  refine ⟨h.registry, h.footing.of_same (hspares.way _ h.footing.anchored) hspares.disk, ?_⟩
  intro name hname
  exact (h.entries name hname).of_same (hspares.disk.below [name])

theorem Kept.of_spares (h : w.Kept st s) (hspares : w.Spares s s') : w.Kept st s' := by
  cases st with
  | nothing => exact h
  | memory =>
    intro id entry hentry
    rw [hspares.memory] at hentry
    exact h id entry hentry
  | disk c => exact KeptOnDisk.of_spares h hspares

theorem footing_of_empty {c : DiskCache} (h : w.Empty (.disk c) s) :
    s.disk.Footing c.root w.vault := CacheLock.footing_of_flat h.2.1 h.2.2

theorem Empty.kept (h : w.Empty st s) : w.Kept st s := by
  cases st with
  | nothing => exact h
  | memory =>
    intro id entry hentry
    have h : s.memory = {} := h
    rw [h] at hentry
    cases hentry
  | disk c =>
    refine ⟨h.1, footing_of_empty h, ?_⟩
    intro name hname serial text hindex
    rw [List.append_assoc] at hindex
    rcases h.2.2 _ (Disk.inside_append _ (List.cons_ne_nil _ _)) with hnone | ⟨heq, -⟩
    · cases hnone.symm.trans hindex
    · have heq : [name, DiskCache.indexName] = [CacheLock.fileName] := List.append_cancel_left heq
      exact nomatch (List.cons.inj heq).2

theorem trusts {cache : Cache (Site ρ)} (h : st.cache? = some cache) :
    w.Trusts (w.Kept st) cache := by
  cases st with
  | nothing => cases h
  | memory =>
    rw [← Option.some.inj h]
    exact trusts_memory w
  | disk c =>
    -- taking the caches apart to compare them is slow
    rw [← Option.some.inj h]
    exact trusts_disk w c

/-! ## Builders -/

/-- What is asked of a builder, without a cache: its fingerprint can always be taken, its runs end
as the workshop says, and it lets the caches alone. -/
structure Makes (w : Workshop ρ ι) (b : Builder (Site ρ)) : Prop where
  survey : ∀ s, b.inputs.fingerprint s = .ok (w.print b.id (w.inputs s))
  spares : ∀ t, w.Spares t.world (b.run t).2.world
  right : ∀ t, w.Right b.id t.world (b.run t).1 (b.run t).2.world

/-- A builder of the workshop, behind the storage. -/
def Employs (w : Workshop ρ ι) (st : Storage) (b : Builder (Site ρ)) : Prop :=
  ∃ inner, w.Makes inner ∧ st.Wraps inner b

theorem Makes.delivers {inner b : Builder (Site ρ)} (h : w.Makes inner) (hb : st.Wraps inner b) :
    w.Delivers (w.Kept st) b := by
  have hinner : w.Delivers (w.Kept st) inner :=
    ⟨h.survey, fun t hkept => ⟨hkept.of_spares (h.spares t), h.right t⟩⟩
  unfold Storage.Wraps at hb
  split at hb
  · rw [hb]
    exact hinner
  next cache hcache =>
    obtain ⟨serial, locks, rfl⟩ := hb
    exact hinner.cached (trusts hcache) serial locks

/-! ## Contexts -/

/-- The builders of a graph stand under their own names, and each is one of the workshop behind the
storage. -/
def Crewed (w : Workshop ρ ι) (st : Storage) (g : Graph (Builder (Site ρ))) : Prop :=
  ∀ id b, (id, b) ∈ g.nodes → b.id = id ∧ w.Employs st b

/-- A context that has not run, with builders of the workshop behind the storage, and with edits of
the edges that look at nothing else. -/
structure Staffed (w : Workshop ρ ι) (st : Storage) (edits : List EdgeEdit)
    (c : Context (Site ρ)) : Prop where
  hasRun : c.hasRun = false
  transformations : c.transformations = edits.map EdgeEdit.transformation
  crewed : w.Crewed st c.graph

section Contexts

variable {edits : List EdgeEdit} {c : Context (Site ρ)} {g : Graph (Builder (Site ρ))}
  {b : Builder (Site ρ)}

/-! ### Setting up -/

theorem staffed_new (w : Workshop ρ ι) (st : Storage) (config : Config) :
    w.Staffed st [] { config } :=
  ⟨rfl, rfl, fun _ _ h => (List.not_mem_nil h).elim⟩

theorem Staffed.add (h : w.Staffed st edits c) (hb : w.Employs st b)
    {prerequisites : List (Builder (Site ρ))} (hprerequisites : ∀ b ∈ prerequisites, w.Employs st b)
    (t : Traced (Site ρ)) : w.Staffed st edits (c.add b prerequisites t).1.2 := by
  obtain ⟨graph, t', heq, -, hnodes⟩ := Context.add_spec h.hasRun b prerequisites t
  rw [heq]
  refine ⟨h.hasRun, h.transformations, fun id b' hmem => ?_⟩
  rcases hnodes _ hmem with hold | ⟨b'', hb'', heq'⟩
  · exact h.crewed id b' hold
  · cases heq'
    exact ⟨rfl, List.forall_mem_cons.2 ⟨hb, hprerequisites⟩ b' hb''⟩

theorem Staffed.transform (h : w.Staffed st edits c) (edit : EdgeEdit) :
    w.Staffed st (edits ++ [edit]) (c.transform edit.transformation).2 := by
  have hfresh : ¬c.hasRun = true := by rw [h.hasRun]; nofun
  unfold Context.transform
  rw [if_neg hfresh]
  refine ⟨h.hasRun, ?_, h.crewed⟩
  show c.transformations ++ [edit.transformation] = _
  rw [h.transformations, List.map_append]
  rfl

/-! ### Running -/

theorem Staffed.delivers (h : w.Staffed st edits c) (edges : EdgeSet) {n : Nat} {id : BuilderId}
    (hnode : (c.edited edges).nodes[n]? = some (id, b)) :
    b.id = (c.edited edges).idAt n ∧ w.Delivers (w.Kept st) b := by
  obtain ⟨hid, inner, hinner, hb⟩ := h.crewed id b (List.mem_of_getElem? hnode)
  refine ⟨?_, hinner.delivers hb⟩
  have hlt : n < (c.edited edges).size := (List.getElem?_eq_some_iff.1 hnode).1
  have hidAt := (c.edited edges).idAt_of_lt hlt
  have hids : (c.edited edges).ids[n]? = some id := by
    unfold Graph.ids
    rw [List.getElem?_map, hnode]
    rfl
  rw [hid]
  exact Option.some.inj (hids.symm.trans hidAt)

end Contexts

end Workshop

end Rebuild
