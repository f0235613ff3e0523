import Rebuild.Directory.Basic
import Rebuild.Fingerprint.Basic
import Rebuild.Log.Action

/-!
# Build caches

A cache holds for each builder identity at most one entry: the fingerprint under which outputs were
stored, and the outputs. `Cache` is what the caches in memory and on disk have in common.
-/
namespace Rebuild

/-- A cache in a world. -/
structure Cache (σ : Type) where
  /-- Whether the entry of a builder was stored under a fingerprint that agrees. -/
  contains : BuilderId → Fingerprint → Action σ Bool
  /-- Replaces the entry of a builder by files of a directory. -/
  store : BuilderId → Fingerprint → Outputs → Directory σ → Action σ (Except CacheError Unit)
  /-- Copies the outputs of a builder into a directory, whatever its inputs are now. -/
  restore : BuilderId → Directory σ → Action σ (Except CacheError Outputs)

end Rebuild
