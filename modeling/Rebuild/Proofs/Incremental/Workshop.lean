import Rebuild.Cache.Memory
import Rebuild.Cache.OnDisk
import Rebuild.Builder.Cached
import Rebuild.Directory.Memory
import Rebuild.Proofs.Build.Determinism
import Rebuild.Proofs.Disk.Walk
import Rebuild.Proofs.Fingerprint.Agreement

/-!
# Workshops

What is known of builders that share a target directory and a cache: what their
fingerprints are taken of, and what a run makes of a fingerprint. Whether a
builder is run or its outputs come out of a cache, the workshop tells how it ends
and what the target holds afterwards.

* `Site`, `Workshop`: where builds take place, and what is known of the builders.
* `Workshop.Right`: a run that ends as the workshop says and leaves others alone.
* `Workshop.Delivers`: a builder whose runs are right.
* `Runs.right`: runs of builders that deliver are right, and stay so.
-/
namespace Rebuild

/-- A world in which builds take place. -/
structure Site (ρ : Type) where
  target : MemoryDirectory
  memory : MemoryCache
  disk : Disk
  /-- What else there is, such as sources. -/
  rest : ρ

namespace Site

variable {ρ : Type}

def targetPart : Part (Site ρ) MemoryDirectory := ⟨target, fun d s => { s with target := d }⟩

def memoryPart : Part (Site ρ) MemoryCache := ⟨memory, fun c s => { s with memory := c }⟩

def diskPart : Part (Site ρ) Disk := ⟨disk, fun d s => { s with disk := d }⟩

/-- The target as a directory. -/
def directory : Directory (Site ρ) := MemoryDirectory.directory targetPart "target"

theorem get?_of_read {s : Site ρ} {p : RelativePath} {content : Bytes}
    (h : directory.read p s = .ok content) : s.target.files.get? p = some content := by
  have h : s.target.read p = .ok content := h
  unfold MemoryDirectory.read at h
  cases hfile : s.target.files.get? p with
  | none => rw [hfile] at h; cases h
  | some content' => rw [hfile] at h; cases h; rfl

end Site

/-- What a run makes: the outputs, and what the target holds at each of them. -/
structure Product where
  outputs : Outputs
  content : RelativePath → Option Bytes

/-- What is known of the builders that take part in builds. -/
structure Workshop (ρ ι : Type) where
  /-- What fingerprints are taken of. -/
  inputs : Site ρ → ι
  print : BuilderId → ι → Fingerprint
  isBuiltIn_print : ∀ id i, (print id i).isBuiltIn = true
  /-- What a builder makes of a fingerprint, unless it fails. -/
  outcome : BuilderId → Fingerprint → Option Product
  /-- The files of a builder, which no other one touches. -/
  own : BuilderId → RelativePath → Prop
  own_unique : ∀ {a b p}, own a p → own b p → a = b
  own_outputs : ∀ {id fp product}, outcome id fp = some product → ∀ p ∈ product.outputs, own id p
  /-- The directory of the cache on disk. -/
  vault : Place
  /-- No builder writes inputs, and neither does a cache. -/
  inputs_eq : ∀ s s', s'.rest = s.rest →
    (∀ p, (∀ id, ¬own id p) → s'.target.files.get? p = s.target.files.get? p) →
    (∀ place, ¬vault.Inside place → s'.disk.at? place = s.disk.at? place) → inputs s' = inputs s

namespace Workshop

variable {ρ ι : Type} (w : Workshop ρ ι)

/-- What a builder makes in a site, unless it fails. -/
def product (id : BuilderId) (s : Site ρ) : Option Product :=
  w.outcome id (w.print id (w.inputs s))

/-- The target holds what the builder makes. -/
def Holds (id : BuilderId) (s : Site ρ) : Prop :=
  ∀ product, w.product id s = some product →
    ∀ p ∈ product.outputs, s.target.files.get? p = product.content p

/-- How a run ends that is to give a product, or to fail. -/
def EndsAs (product : Option Product) (result : Except RunFailure Outputs) : Prop :=
  match product with
  | some product => result = .ok product.outputs
  | none => ∃ failure, result = .error failure

/-- From one site to another, the inputs and the files of all other builders stay as they are. -/
structure Confined (id : BuilderId) (s s' : Site ρ) : Prop where
  inputs : w.inputs s' = w.inputs s
  others : ∀ p, ¬w.own id p → s'.target.files.get? p = s.target.files.get? p

/-- A run of a builder from one site to another is right. -/
structure Right (id : BuilderId) (s : Site ρ) (result : Except RunFailure Outputs) (s' : Site ρ) :
    Prop extends Confined w id s s' where
  ends : EndsAs (w.product id s) result
  holds : w.Holds id s'

/-- A builder does its work right in all sites of a kind, and does not lead out of them. -/
structure Delivers (Kept : Site ρ → Prop) (b : Builder (Site ρ)) : Prop where
  survey : ∀ s, b.inputs.fingerprint s = .ok (w.print b.id (w.inputs s))
  run : ∀ t, Kept t.world → Kept (b.run t).2.world ∧
    w.Right b.id t.world (b.run t).1 (b.run t).2.world

variable {w} {Kept : Site ρ → Prop} {s s' s'' : Site ρ} {a id : BuilderId}
  {result result' : Except RunFailure Outputs}

theorem EndsAs.plain_eq {product : Option Product} (h : EndsAs product result)
    (h' : EndsAs product result') : (Fate.ran result).plain = (Fate.ran result').plain := by
  cases product with
  | some product =>
    have h : result = .ok product.outputs := h
    have h' : result' = .ok product.outputs := h'
    rw [h, h']
  | none =>
    obtain ⟨failure, rfl⟩ := h
    obtain ⟨failure', rfl⟩ := h'
    rfl

theorem EndsAs.of_ok {product : Option Product} {outputs : Outputs}
    (h : EndsAs product (.ok outputs)) : ∃ made, product = some made ∧ outputs = made.outputs := by
  cases product with
  | some made =>
    have h : (.ok outputs : Except RunFailure Outputs) = .ok made.outputs := h
    exact ⟨made, rfl, Except.ok.inj h⟩
  | none =>
    obtain ⟨failure, heq⟩ := h
    cases heq

theorem EndsAs.of_error {product : Option Product} {failure : RunFailure}
    (h : EndsAs product (.error failure)) : product = none := by
  cases product with
  | some made =>
    have h : (.error failure : Except RunFailure Outputs) = .ok made.outputs := h
    cases h
  | none => rfl

theorem product_eq (h : w.inputs s' = w.inputs s) (id : BuilderId) :
    w.product id s' = w.product id s := by
  unfold product
  rw [h]

theorem Holds.get? (h : w.Holds id s') (hinputs : w.inputs s' = w.inputs s) {product : Product}
    (hproduct : w.product id s = some product) {p : RelativePath} (hp : p ∈ product.outputs) :
    s'.target.files.get? p = product.content p :=
  h product ((product_eq hinputs id).trans hproduct) p hp

theorem Confined.trans (h : w.Confined id s s') (h' : w.Confined id s' s'') :
    w.Confined id s s'' :=
  ⟨h'.inputs.trans h.inputs, fun p hp => (h'.others p hp).trans (h.others p hp)⟩

/-- A run stays right if something confined comes before it. -/
theorem Right.of_confined (h : w.Confined id s s') (h' : w.Right id s' result s'') :
    w.Right id s result s'' := by
  refine ⟨h.trans h'.toConfined, ?_, h'.holds⟩
  rw [← product_eq h.inputs]
  exact h'.ends

/-- A right run of one builder leaves the files of all others as they are. -/
theorem Right.keeps_holds (h : w.Right a s result s') (hholds : w.Holds id s) : w.Holds id s' := by
  by_cases hid : a = id
  · exact hid ▸ h.holds
  · intro product hproduct p hp
    rw [product_eq h.inputs] at hproduct
    have hown : ¬w.own a p := fun ha => hid (w.own_unique ha (w.own_outputs hproduct p hp))
    rw [h.others p hown]
    exact hholds product hproduct p hp

end Workshop

open Workshop in
theorem Runs.right {ρ ι : Type} {w : Workshop ρ ι} {Kept : Site ρ → Prop}
    {g : Graph (Builder (Site ρ))} {t t' : Traced (Site ρ)}
    {runs : List (Nat × Except RunFailure Outputs)}
    (hserves : ∀ n id b, g.nodes[n]? = some (id, b) → b.id = g.idAt n ∧ w.Delivers Kept b)
    (h : Runs g t runs t') (hkept : Kept t.world) :
    Kept t'.world ∧ w.inputs t'.world = w.inputs t.world ∧
      (∀ id, w.Holds id t.world → w.Holds id t'.world) ∧
      ∀ n result, (n, result) ∈ runs →
        EndsAs (w.product (g.idAt n) t.world) result ∧ w.Holds (g.idAt n) t'.world := by
  have hsame {u u' : Traced (Site ρ)} (htold : Told u u') : u'.world = u.world := by
    obtain ⟨events, rfl⟩ := htold
    rfl
  induction h with
  | done told =>
    rw [hsame told]
    exact ⟨hkept, rfl, fun id h => h, fun n result h => by cases h⟩
  | @run t t₁ t₂ t' m id b result rest told node run others ih =>
    obtain ⟨hid, hdelivers⟩ := hserves m id b node
    have hrun := hdelivers.run t₁ (by rw [hsame told]; exact hkept)
    rw [run, hid, hsame told] at hrun
    obtain ⟨hkept₂, hright⟩ := hrun
    obtain ⟨hkept', hinputs, hholds, hruns⟩ := ih hkept₂
    refine ⟨hkept', hinputs.trans hright.inputs, fun a ha => hholds a (hright.keeps_holds ha), ?_⟩
    intro n result' hmem
    rcases List.mem_cons.1 hmem with heq | hmem
    · cases heq
      exact ⟨hright.ends, hholds _ hright.holds⟩
    · rw [← product_eq hright.inputs]
      exact hruns n result' hmem

end Rebuild
