import Rebuild.Session.Files

/-!
# Inputs in a session

Source sets, parameters, and the inputs made of them. A parameter keeps its identity when it is
given another value; a source set does not when its name goes to another.
-/
namespace Rebuild.Session
open SessionM

def setParameter (name : String) (value : Parameter) : SessionM Unit :=
  SessionM.change fun w => ((), { w with parameters := w.parameters.insert name value })

def makeSet (name label : String) (files : List RelativePath) : SessionM Unit := do
  let n ← SessionM.change fun w =>
    (w.sets.length, { w with sets := w.sets ++ [⟨label, .ofList files⟩] })
  modify fun s => { s with sets := s.sets.insert name n }

/-- Makes a set of the files of a directory; the files. -/
def scan (name label dir : String) (below : Option RelativePath) :
    SessionM (List RelativePath) := do
  let files ← list dir below
  makeSet name label files
  return (SortedSet.ofList files).toList

/-- Adds a file to a set; whether it was not there before. -/
def addToSet (name : String) (p : RelativePath) : SessionM Bool := do
  let n ← find sets name
  SessionM.change ((World.setPart n).change (·.add p))

/-- Removes a file from a set; whether it was there. -/
def removeFromSet (name : String) (p : RelativePath) : SessionM Bool := do
  let n ← find sets name
  SessionM.change ((World.setPart n).change (·.remove p))

/-- The set with a name, as it is now. -/
def sourceSet (name : String) : SessionM SourceSet := do
  let n ← find sets name
  ask (World.setPart n).get

def nameInputs (name : String) (inputs : Inputs World) : SessionM Unit :=
  modify fun s => { s with inputs := s.inputs.insert name inputs }

def makeParameterInputs (name label parameter : String) : SessionM Unit := do
  discard <| find (·.traced.world.parameters) parameter
  nameInputs name (.parameters label fun w => (w.parameters.get? parameter).getD .unit)

/-- Makes inputs of the files of a set; the number of files in the set. -/
def makeSourceInputs (name dir set : String) (rules : List String) (full : Bool) :
    SessionM Nat := do
  let dir ← directory dir
  let n ← find sets set
  match IgnoreList.ofRules rules with
  | .error e => throw (.input (.invalidRule e))
  | .ok ignored =>
    nameInputs name (.sources dir (World.setPart n).get ignored full)
    return (← sourceSet set).files.size

/-- Makes inputs of several others; how many they are. -/
def makeSeveralInputs (name : String) (parts : List String) : SessionM Nat := do
  let parts ← parts.mapM (find inputs)
  nameInputs name (.several parts)
  return parts.length

/-- Takes a fingerprint of inputs. -/
def survey (inputs : Inputs World) : SessionM Fingerprint := do
  let (events, fp) := inputs.survey (← ask id)
  act (Action.tellAll events)
  match fp with
  | .ok fp => return fp
  | .error e => throw (.input e)

/-- Takes the fingerprint of the inputs with a name. -/
def fingerprintOf (name : String) : SessionM Fingerprint := do survey (← find inputs name)

def keepFingerprint (name : String) (fp : Fingerprint) : SessionM Unit :=
  modify fun s => { s with fingerprints := s.fingerprints.insert name fp }

/-- Whether two kept fingerprints agree. -/
def fingerprintsAgree (a b : String) : SessionM Bool :=
  return (← find fingerprints a).agrees (← find fingerprints b)

end Rebuild.Session
