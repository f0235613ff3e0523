import Rebuild.Builder.Id
import Rebuild.Directory.Error
import Rebuild.Fingerprint.Error
import Rebuild.Lock.Error

/-!
# Errors of build caches

Why a cache cannot be opened, or cannot store or restore the outputs of a builder.
-/
namespace Rebuild

/-- What is wrong with an entry. -/
inductive EntryFault where
  | unreadableIndex
  | version (found : Nat)
  | foreign (owner : BuilderId)
  | fingerprint (error : ProtocolError)
  | artifact (error : FsError)
  /-- The artifacts of the entry are gone. -/
  | vanished
  deriving DecidableEq

def EntryFault.message : EntryFault → String
  | .unreadableIndex => "unreadable index: not the index of an entry"
  | .version found => s!"unsupported entry version {found}"
  | .foreign owner => s!"entry belongs to {owner.text}"
  | .fingerprint error => s!"undecodable fingerprint: {error.message}"
  | .artifact error => error.message
  | .vanished => "artifact vanished"

/-- An error of a cache. -/
inductive CacheError where
  | io (path : OsPath) (cause : OsError)
  | artifact (id : BuilderId) (cause : FsError)
  | missing (id : BuilderId)
  | corrupt (id : BuilderId) (fault : EntryFault)
  | protocol (id : BuilderId) (cause : ProtocolError)
  | noRoot
  | lock (error : LockError)
  deriving DecidableEq

def CacheError.message : CacheError → String
  | .io path cause => s!"cache i/o error at {path.display}: {cause.message}"
  | .artifact id cause => s!"cannot copy artifact for {id.text}: {cause.message}"
  | .missing id => s!"no cache entry for {id.text}"
  | .corrupt id fault => s!"corrupt cache entry for {id.text}: {fault.message}"
  | .protocol id cause => s!"cannot encode fingerprint of {id.text}: {cause.message}"
  | .noRoot => "no cache directory could be determined; set KILN_CACHE_DIR"
  | .lock error => error.message

end Rebuild
