import Rebuild.Builder.Id

/-!
# Identity locks

A lock for each builder identity, made when it is first asked for. Equal identities share a lock
(`IdentityLocks.get_get`) and different ones do not.
-/
namespace Rebuild

/-- The identities that have a lock; the place of an identity is its lock. -/
structure IdentityLocks where
  identities : List BuilderId := []
  deriving DecidableEq, Repr

namespace IdentityLocks

/-- The lock of an identity. -/
def get (locks : IdentityLocks) (id : BuilderId) : Nat × IdentityLocks :=
  match locks.identities.idxOf? id with
  | some lock => (lock, locks)
  | none => (locks.identities.length, ⟨locks.identities ++ [id]⟩)

/-- The lock that an identity got is the one it gets again. -/
theorem get_get (locks : IdentityLocks) (id : BuilderId) :
    (locks.get id).2.get id = locks.get id := by
  unfold get
  cases h : locks.identities.idxOf? id with
  | some lock => simp [h]
  | none =>
    have hnew : (locks.identities ++ [id]).idxOf? id = some locks.identities.length := by
      rw [List.idxOf?] at h ⊢
      rw [List.findIdx?_append, h]
      simp
    simp [hnew]

/-- The locks of several identities, asked for in order. -/
def getAll (locks : IdentityLocks) : List BuilderId → List Nat
  | [] => []
  | id :: rest =>
    let (lock, locks) := locks.get id
    lock :: locks.getAll rest

end IdentityLocks

end Rebuild
