import Rebuild.Build.Report
import Rebuild.Cache.Error
import Rebuild.Digest.ContentHash
import Rebuild.Path.Os

/-!
# Events

What a build tells its log. Each event has a level, a message and fields, and one line of text.
-/
namespace Rebuild

/-- Something worth a line in the log. -/
inductive Event where
  | lockAcquired (lock : OsPath) (holder : String)
  | cacheOpened (root : OsPath)
  | cacheCleared (root : OsPath)
  | storedOnDisk (id : BuilderId) (files : Nat) (entry : OsPath)
  | storedInMemory (id : BuilderId) (files : Nat)
  | restoredFromDisk (id : BuilderId) (files : Nat)
  | unusableEntry (id : BuilderId) (error : CacheError)
  | unwritableFingerprint (id : BuilderId) (error : ProtocolError)
  | cacheMiss (id : BuilderId)
  | upToDate (id : BuilderId) (files : Nat)
  | restoreFailed (id : BuilderId) (error : CacheError)
  | storeFailed (id : BuilderId) (error : CacheError)
  | hashedFile (path : RelativePath) (digest : ContentHash)
  | builderKept (id : BuilderId)
  | prerequisiteRegistered (id dependent : BuilderId)
  | buildStarted (builders edges : Nat) (root : Option BuilderId)
  | buildCancelled (transformation : Nat)
  | graphPruned (kept pruned : Nat)
  | planned (waves builders : Nat)
  | builderSkipped (skipped : Skipped)
  | waveHeldBack (wave builders : Nat)
  | waveDispatched (wave builders : Nat)
  | builderSucceeded (id : BuilderId) (outputs : Nat)
  | builderFailed (id : BuilderId) (error : BuildError)
  | buildFinished (executed failed skipped notStarted : Nat)
  | invalidJobs (value : String)
  | invalidFailFast (value : String)

namespace Event

/-- The line of an event: its level, its message, and its fields by name. -/
def line : Event → String
  | lockAcquired lock holder => s!"DEBUG acquired cache lock lock={lock.display} holder={holder}"
  | cacheOpened root => s!"INFO opened build cache root={root.display}"
  | cacheCleared root => s!"INFO cleared build cache root={root.display}"
  | storedOnDisk id files entry =>
    s!"DEBUG stored build outputs builder={id.text} files={files} entry={entry.display}"
  | storedInMemory id files =>
    s!"DEBUG stored build outputs in memory cache builder={id.text} files={files}"
  | restoredFromDisk id files => s!"DEBUG restored build outputs builder={id.text} files={files}"
  | unusableEntry id error =>
    s!"WARN ignoring unusable cache entry builder={id.text} error={error.message}"
  | unwritableFingerprint id error =>
    "WARN cannot encode fingerprint, treating as cache miss" ++
      s!" builder={id.text} error={error.message}"
  | cacheMiss id => s!"DEBUG cache miss builder={id.text}"
  | upToDate id files => s!"INFO up to date, restored from cache builder={id.text} files={files}"
  | restoreFailed id error =>
    s!"WARN cache restore failed, rebuilding builder={id.text} error={error.message}"
  | storeFailed id error =>
    s!"WARN failed to store build outputs in cache builder={id.text} error={error.message}"
  | hashedFile path digest => s!"TRACE hashed source file file={path.text} digest={digest.text}"
  | builderKept id =>
    s!"DEBUG builder id already registered, keeping the first instance builder={id.text}"
  | prerequisiteRegistered id dependent =>
    s!"DEBUG registering prerequisite builder={id.text} dependent={dependent.text}"
  | buildStarted builders edges root =>
    let label := root.elim "<all>" BuilderId.text
    s!"INFO starting build builders={builders} edges={edges} root={label}"
  | buildCancelled transformation =>
    s!"WARN build cancelled by transformation transformation={transformation}"
  | graphPruned kept pruned => s!"DEBUG pruned graph to root kept={kept} pruned={pruned}"
  | planned waves builders => s!"INFO computed execution waves waves={waves} builders={builders}"
  | builderSkipped s =>
    "WARN skipping builder due to failed prerequisite" ++
      s!" builder={s.builder.text} failed_prerequisite={s.prerequisite.text}"
  | waveHeldBack wave builders =>
    s!"DEBUG fail-fast, not dispatching wave wave={wave} builders={builders}"
  | waveDispatched wave builders => s!"DEBUG dispatching wave wave={wave} builders={builders}"
  | builderSucceeded id outputs => s!"INFO builder succeeded builder={id.text} outputs={outputs}"
  | builderFailed id error => s!"ERROR builder failed builder={id.text} error={error.message}"
  | buildFinished executed failed skipped notStarted =>
    s!"INFO build finished executed={executed} failed={failed} skipped={skipped}" ++
      s!" not_started={notStarted}"
  | invalidJobs value => s!"WARN ignoring invalid job count var=KILN_JOBS value={value}"
  | invalidFailFast value => s!"WARN ignoring invalid boolean var=KILN_FAIL_FAST value={value}"

end Event

end Rebuild
