import Rebuild.Inputs.Basic
import Rebuild.Log.Action

/-!
# Builders

A named unit of work that produces files. Given inputs with an unchanged fingerprint, a run must
produce the same files.
-/
namespace Rebuild

/-- A builder in a world. -/
structure Builder (σ : Type) where
  id : BuilderId
  /-- Tells builders apart, also those with the same identity. -/
  serial : Nat
  inputs : Inputs σ
  run : Action σ (Except RunFailure Outputs)
  /-- The serial numbers of the lock files that stay locked as long as the builder is around. -/
  locks : List Nat := []

end Rebuild
