import Rebuild.Sorted.Set
import Rebuild.Path.Os
import Rebuild.Digest.ContentHash
import Rebuild.Builder.Id
import Rebuild.Parameters.Value
import Rebuild.Fingerprint.Encode
import Rebuild.Fingerprint.Registry
import Rebuild.Graph.Plan
import Rebuild.Graph.Dot
import Rebuild.Environment
import Rebuild.Disk.Action
import Rebuild.Directory.Memory
import Rebuild.Directory.Local
import Rebuild.Inputs.Basic
import Rebuild.Lock.Basic
import Rebuild.Cache.IdentityLocks
import Rebuild.Cache.Memory
import Rebuild.Cache.OnDisk
import Rebuild.Builder.Cached
import Rebuild.Build.Run
import Rebuild.Session.Builds
import Rebuild.Proofs.Except
import Rebuild.Proofs.Fingerprint.Payload
import Rebuild.Proofs.Fingerprint.RoundTrip
import Rebuild.Proofs.Fingerprint.Grammar
import Rebuild.Proofs.Fingerprint.Normalising
import Rebuild.Proofs.Fingerprint.Registration
import Rebuild.Proofs.Inputs.Change
import Rebuild.Proofs.Graph.Selection
import Rebuild.Proofs.Graph.Waves
import Rebuild.Proofs.Graph.Search
import Rebuild.Proofs.Graph.Cycle
import Rebuild.Proofs.Graph.Levels
import Rebuild.Proofs.Graph.Countdown
import Rebuild.Proofs.Build.Course
import Rebuild.Proofs.Build.Outcomes
import Rebuild.Proofs.Build.Once
import Rebuild.Proofs.Build.Determinism
import Rebuild.Proofs.Build.Tasks
import Rebuild.Proofs.Build.Endings
import Rebuild.Proofs.Build.Pool
import Rebuild.Proofs.Build.Overlap
import Rebuild.Proofs.Incremental.Workshop
import Rebuild.Proofs.Incremental.Cached
import Rebuild.Proofs.Incremental.InMemory
import Rebuild.Proofs.Json.RoundTrip
import Rebuild.Proofs.Json.Forms
import Rebuild.Proofs.Cache.Entry
import Rebuild.Proofs.Path.Names
import Rebuild.Proofs.Path.Reading
import Rebuild.Proofs.Path.Normal
import Rebuild.Proofs.Path.Components
import Rebuild.Proofs.Path.Rooted
import Rebuild.Proofs.Disk.Footing
import Rebuild.Proofs.Disk.Changes
import Rebuild.Proofs.Disk.Meets
import Rebuild.Proofs.Disk.Writing
import Rebuild.Proofs.Disk.Removing
import Rebuild.Proofs.Disk.Succeeding
import Rebuild.Proofs.Disk.Member
import Rebuild.Proofs.Disk.Unmade
import Rebuild.Proofs.Cache.OnDisk
import Rebuild.Proofs.Cache.Succeeding
import Rebuild.Proofs.Incremental.OnDisk
import Rebuild.Proofs.Incremental.Recall
import Rebuild.Proofs.Incremental.Storage
import Rebuild.Proofs.Incremental.History
import Rebuild.Proofs.Incremental.Recompute
import Rebuild.Proofs.Concurrent.Calls
import Rebuild.Proofs.Concurrent.Exclusion
import Rebuild.Proofs.Concurrent.SingleFlight
import Rebuild.Proofs.Concurrent.Unwritable
import Rebuild.Proofs.Cache.Answers
import Rebuild.Proofs.Cache.Damage
import Rebuild.Proofs.Disk.Confined
import Rebuild.Proofs.Disk.Emptying
import Rebuild.Proofs.Cache.Interrupted
import Rebuild.Proofs.Cache.Reached
import Rebuild.Proofs.Cache.Opening
import Rebuild.Proofs.Cache.Keeping
import Rebuild.Proofs.Cache.Archive
import Rebuild.Proofs.Cache.Apart
import Rebuild.Proofs.Cache.Crash
import Rebuild.Proofs.Cache.Matching
import Rebuild.Proofs.Cache.Undone
import Rebuild.Proofs.Cache.Faults
import Rebuild.Proofs.Directory.Mirror
import Rebuild.Proofs.Directory.Alike
import Rebuild.Proofs.Lock.Exclusive
import Rebuild.Proofs.Lock.Taking
import Rebuild.Proofs.Path.Segments
import Rebuild.Proofs.Graph.Tables
import Rebuild.Proofs.Graph.Drawing
import Rebuild.Proofs.Build.Assembly
import Rebuild.Proofs.Directory.Touching
import Rebuild.Proofs.Digest.Streaming
import Rebuild.Proofs.Inputs.Unreadable
import Rebuild.Proofs.Inputs.Ignoring
import Rebuild.Proofs.Parameters.Canonical
