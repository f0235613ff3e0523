import Rebuild.Directory.Basic
import Rebuild.Fingerprint.Basic
import Rebuild.Inputs.Error
import Rebuild.Inputs.SourceSet
import Rebuild.Log.Event

/-!
# Inputs

What a builder depends on, and the fingerprint of it as it is now. Sources are hashed one by one, in
order; ignored files do not count, and neither do the rules that ignore them unless they are asked
for. An input that cannot be read is an error, never a change.

* `Inputs.survey`: the fingerprint of the inputs, and what was done to take it.
-/
namespace Rebuild

/-- The inputs of a builder. -/
inductive Inputs (σ : Type) where
  | nothing
  /-- The files of a set that are not ignored. If `full` is set, the rules are input as well. -/
  | sources (dir : Directory σ) (set : σ → SourceSet) (ignored : IgnoreList) (full : Bool)
  | parameters (name : String) (value : σ → Parameter)
  | several (parts : List (Inputs σ))

namespace Inputs

variable {σ : Type}

/-- The hashes of files in a directory, until one cannot be read; also what the log is told. -/
def hashFiles (dir : Directory σ) (s : σ) :
    List RelativePath → List Event × Except InputError (List (RelativePath × ContentHash))
  | [] => ([], .ok [])
  | p :: rest =>
    match dir.read p s with
    | .error cause => ([], .error (.unreadable dir.label p cause))
    | .ok content =>
      let digest := ContentHash.ofBytes content
      let (events, others) := hashFiles dir s rest
      (.hashedFile p digest :: events, ((p, digest) :: ·) <$> others)

mutual

/-- Takes the fingerprint of inputs; also what the log is told. -/
def survey (s : σ) : Inputs σ → List Event × Except InputError Fingerprint
  | nothing => ([], .ok .empty)
  | sources dir set ignored full =>
    let files := (set s).files.toList.filter fun p => !ignored.ignores p
    let (events, hashes) := hashFiles dir s files
    (events, hashes.map fun hashes =>
      .ofFiles (.ofList hashes) (if full then some ignored.rules else none))
  | parameters name value =>
    ([], (Fingerprint.ofParameters name (value s)).mapError (.parameters name))
  | several parts =>
    let (events, fingerprints) := surveyAll s parts
    (events, fingerprints.map .combined)

/-- Takes the fingerprints of several inputs, until one cannot be taken. -/
def surveyAll (s : σ) : List (Inputs σ) → List Event × Except InputError (List Fingerprint)
  | [] => ([], .ok [])
  | part :: rest =>
    match survey s part with
    | (events, .error e) => (events, .error e)
    | (events, .ok fp) =>
      let (more, others) := surveyAll s rest
      (events ++ more, (fp :: ·) <$> others)

end

/-- The fingerprint of the inputs in a world. -/
def fingerprint (inputs : Inputs σ) (s : σ) : Except InputError Fingerprint := (survey s inputs).2

end Inputs

end Rebuild
