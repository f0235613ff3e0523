import Rebuild.Session.Caches

/-!
# Builders and builds in a session

Every builder here is a scripted one or a cache in front of another; each gets a serial number of
its own, so that two builders of one identity are told apart. Builds go through contexts, which keep
what they were told when a step fails.
-/
namespace Rebuild.Session
open SessionM

/-- Makes a builder that does what a script says. Without inputs by name it has none. -/
def makeBuilder (name : String) (id : BuilderId) (dir : String) (inputs : Option String)
    (script : Script) : SessionM Unit := do
  let dir ← directory dir
  let inputs ← match inputs with
    | some inputs => find Session.inputs inputs
    | none => pure .nothing
  let n ← SessionM.change fun w => (w.scripts.length, { w with scripts := w.scripts ++ [script] })
  let builder := Script.builder n id (← newSerial) inputs dir
  modify fun s => { s with
    scripts := s.scripts.insert name (id, n)
    builders := s.builders.insert name builder }

/-- The identity of the builder that has a script. -/
def scriptOwner (name : String) : SessionM BuilderId := return (← find scripts name).1

/-- Gives a builder another script. -/
def replaceScript (name : String) (script : Script) : SessionM Unit := do
  let (_, n) ← find scripts name
  SessionM.change ((World.scriptPart n).change fun old => ((), { script with runs := old.runs }))

/-- How often a script has run. -/
def runCount (name : String) : SessionM Nat := do
  let (_, n) ← find scripts name
  ask fun w => ((World.scriptPart n).get w).runs

/-- Puts a cache in front of a builder; its identity and that of the builder inside. -/
def makeCached (name builder cache dir : String) : SessionM (BuilderId × BuilderId) := do
  let inner ← find builders builder
  let cache ← find caches cache
  let cached := inner.cached (← newSerial) cache.cache (← directory dir) cache.locks
  modify fun s => { s with builders := s.builders.insert name cached }
  return (cached.id, inner.id)

/-- Runs a builder on its own. -/
def runBuilder (name : String) : SessionM Outputs := do
  let b ← find builders name
  attempt (.builder b.id) b.run

/-- Takes the fingerprint of a builder's inputs. -/
def builderFingerprint (name : String) : SessionM Fingerprint := do
  survey (← find builders name).inputs

/-- The builders that finished since this was last asked. -/
def takeFinished : SessionM (List BuilderId) :=
  SessionM.change fun w => (w.finished, { w with finished := [] })

/-- The calls of transformations since this was last asked. -/
def takeCalls : SessionM (List TransformationCall) :=
  SessionM.change fun w => (w.calls, { w with calls := [] })

/-- What the log was told since this was last asked. -/
def takeLog : SessionM (List Event) :=
  modifyGet fun s => (s.traced.log.reverse, { s with traced := { s.traced with log := [] } })

def makeContext (name : String) (config : Config) : SessionM Unit :=
  modify fun s => { s with contexts := s.contexts.insert name { config } }

/-- Works on the context with a name. -/
def onContext {α : Type} (name : String)
    (f : Context World → Action World (Except BuildError α × Context World)) : SessionM α := do
  let c ← find contexts name
  let (result, c) ← act (f c)
  modify fun s => { s with contexts := s.contexts.insert name c }
  match result with
  | .ok a => return a
  | .error e => throw (.build e)

/-- Adds a builder to a context, after its prerequisites. -/
def addBuilder (context builder : String) (prerequisites : List String) : SessionM Unit := do
  let b ← find builders builder
  let prerequisites ← prerequisites.mapM (find builders)
  onContext context fun c => c.add b prerequisites

/-- Adds a scripted transformation to a context. -/
def addTransformation (context : String) (edits : List Edit) (verdict : Option Bool) :
    SessionM Unit :=
  onContext context fun c => return c.transform (Edit.transformation edits verdict)

/-- The order in which the builders of a wave run in a session: that of mention. -/
def schedule : Schedule := id

def execute (context : String) (root : Option BuilderId) : SessionM Report :=
  onContext context fun c => c.execute schedule root

def run (context : String) (root : Option BuilderId) : SessionM Outputs :=
  onContext context fun c => c.run schedule root

/-- Asks a context something. -/
def askContext {α : Type} (name : String) (question : Context World → Except BuildError α) :
    SessionM α := do
  match question (← find contexts name) with
  | .ok a => return a
  | .error e => throw (.build e)

end Rebuild.Session
