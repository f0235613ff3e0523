import Rebuild.Digest.ContentHash
import Rebuild.Fingerprint.Error
import Rebuild.Parameters.Value
import Rebuild.Sorted.Set

/-!
# Fingerprints

A fingerprint is a snapshot of the inputs that a builder observes. Fingerprints agree
(`Fingerprint.agrees`) when the inputs they were taken of are the same.
-/
namespace Rebuild

/-- The texts of a list, ascending and without repetition. -/
def sortedTexts (l : List String) : List String := (SortedSet.ofList l).toList

/-- A snapshot of a builder's inputs. -/
inductive Fingerprint where
  /-- No inputs. -/
  | empty
  /-- A named block of parameters, by the digest of its canonical text. -/
  | parameters (name : String) (digest : ContentHash)
  /-- Files, each by the digest of its contents; with the ignore rules if they count as input. -/
  | sourceSet (files : SortedMap RelativePath ContentHash) (exclusions : Option (List String))
  /-- Several snapshots, in order. -/
  | combined (parts : List Fingerprint)
  /-- A kind from outside the library: its tag and its payload, or why it cannot be written. -/
  | custom (tag : String) (payload : Except ProtocolError Bytes)

namespace Fingerprint

/-- The tag of the kind. -/
def tag : Fingerprint → String
  | empty => "empty"
  | parameters .. => "parameters"
  | sourceSet .. => "source-set"
  | combined _ => "combined"
  | custom tag _ => tag

/-- The fingerprint of files, with the ignore rules brought into order. -/
def ofFiles (files : SortedMap RelativePath ContentHash) (rules : Option (List String)) :
    Fingerprint :=
  sourceSet files (rules.map sortedTexts)

/-- The fingerprint of a named block of parameters. -/
def ofParameters (name : String) (value : Parameter) : Except ParameterError Fingerprint := do
  let text ← value.canonicalText
  return parameters name (ContentHash.ofBytes (Bytes.ofText text))

mutual

/-- Whether two fingerprints stand for the same inputs. A kind from outside agrees with what has the
same tag and the same payload, and with nothing if it cannot be written. -/
def agrees : Fingerprint → Fingerprint → Bool
  | empty, empty => true
  | parameters n d, parameters m e => n == m && d == e
  | sourceSet f r, sourceSet g s => decide (f = g) && r == s
  | combined p, combined q => agreeParts p q
  | custom t (.ok p), custom u (.ok q) => t == u && p == q
  | _, _ => false

/-- Whether two lists have the same length and agree pairwise. -/
def agreeParts : List Fingerprint → List Fingerprint → Bool
  | [], [] => true
  | a :: p, b :: q => agrees a b && agreeParts p q
  | _, _ => false

end

end Fingerprint

end Rebuild
