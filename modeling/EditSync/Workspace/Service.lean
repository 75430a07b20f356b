import EditSync.Network.Handlers
import EditSync.Workspace.ClaimSet
import EditSync.Workspace.Engine
import EditSync.Workspace.Registry

/-! The workspace server. It applies what editors report and analyses each changed file some time
later: an analysis is first queued, then begun on the content of that moment, and completed when the
engine is done. Its result is sent only if the copy still is at the revision that was analysed. -/

namespace EditSync

/-- What a server works with. -/
structure Setting where
  source : Source
  engine : Engine := .silent
  /-- Whether analyses can be run at all. -/
  analyses : Bool := true

/-- An analysis that is queued for a key. -/
structure AnalysisRequest where
  key : String
  /-- Gets the result if nobody has changed the file. -/
  endpoint : String
  deriving DecidableEq, Repr, Inhabited

/-- An analysis that has begun, with the copy as it was then. -/
structure RunningAnalysis where
  key : String
  copy : WorkingCopy
  endpoint : String
  deriving DecidableEq, Repr, Inhabited

structure Service where
  registry : Registry := {}
  /-- The keys for which an analysis waits. -/
  queued : ClaimSet := {}
  waiting : List AnalysisRequest := []
  running : List RunningAnalysis := []
  deriving Inhabited

namespace Service

/-- What handling a message comes to. -/
structure Reaction where
  service : Service
  sent : List Message := []
  result : Except SyncError Unit := .ok ()

/-- Queues an analysis of a file, unless one waits already. -/
def schedule (env : Setting) (s : Service) (path endpoint : String) : Service :=
  let key := Path.clean path
  if env.analyses then
    match s.queued.claim key with
    | (_, false) => s
    | (queued, true) => { s with queued, waiting := s.waiting ++ [⟨key, endpoint⟩] }
  else s

def resyncRequest (change : TextChange) (reason : SyncError) : ResyncRequest :=
  ⟨change.location, change.project, reason.message⟩

/-- Applies a change. If the copy is no longer the editor's text, its sender is asked for all of it. -/
def onChange (env : Setting) (s : Service) (endpoint : String) (change : TextChange) : Reaction :=
  match s.registry.apply env.source change endpoint with
  | (registry, .ok _) => { service := schedule env { s with registry } change.location endpoint }
  | (registry, .error e) =>
    { service := { s with registry }
      sent := if e.requiresResync then [⟨endpoint, .resync (resyncRequest change e)⟩] else []
      result := .error e }

/-- The server after a file operation, or why it is refused. -/
def operate (env : Setting) (s : Service) (endpoint : String) (o : FileOperation) :
    Except SyncError Service :=
  match o.action with
  | .start => do
    let (registry, _) ← s.registry.start env.source o.path o.project
    return schedule env { s with registry } o.path endpoint
  | .stop => return { s with registry := (s.registry.stop o.path).1 }
  | .suspend => return { s with registry := ← s.registry.setState o.path .suspended }
  | .resume => return { s with registry := ← s.registry.setState o.path .started }
  | .move =>
    match o.oldPath with
    | none => throw (.protocol Method.fileOperation "MOVE without oldPath")
    | some oldPath => do
      let registry ← s.registry.move oldPath o.path o.project
      return schedule env { s with registry } o.path endpoint

def onFileOperation (env : Setting) (s : Service) (endpoint : String) (o : FileOperation) : Reaction :=
  match operate env s endpoint o with
  | .ok service => { service := service }
  | .error e => { service := s, result := .error e }

/-- Begins an analysis: its key may be queued anew, and it works on the copy as it is now. A file that
is not tracked or not synchronized is not analysed. -/
def begin (s : Service) (q : AnalysisRequest) : Service :=
  let s := { s with queued := s.queued.release q.key, waiting := s.waiting.erase q }
  match s.registry.find q.key with
  | none => s
  | some copy =>
    if copy.synchronized then
      { s with running := s.running ++ [⟨q.key, copy, copy.endpoint.getD q.endpoint⟩] }
    else s

/-- Begins everything that is queued, in its order. -/
def beginAll (s : Service) : Service := s.waiting.foldl begin s

/-- The message that a finished analysis leads to. None if the engine failed or the copy has another
revision by now. -/
def outcome (env : Setting) (s : Service) (a : RunningAnalysis) : List Message :=
  match env.engine a.key a.copy.content with
  | .error _ => []
  | .ok analysis =>
    if (s.registry.find a.key).map (·.revision) = some a.copy.revision then
      [⟨a.endpoint, .result ⟨analysis, a.copy.location⟩⟩]
    else []

/-- Completes an analysis that is running. -/
def complete (env : Setting) (s : Service) (a : RunningAnalysis) : Service × List Message :=
  ({ s with running := s.running.erase a }, outcome env s a)

/-- Begins and completes everything there is. -/
def settle (env : Setting) (s : Service) : Service × List Message :=
  let s := s.beginAll
  ({ s with running := [] }, s.running.flatMap (outcome env s))

/-- The server together with what it has sent. -/
abbrev Sending := Service × List Message

def Reaction.after (r : Reaction) (sent : List Message) : Sending × Except SyncError Unit :=
  ((r.service, sent ++ r.sent), r.result)

def handlers (env : Setting) : Handlers Sending :=
  let changes := Handlers.onPayload .empty Method.editorChanges TextChange.ofJson? fun sender c s =>
    (onChange env s.1 sender c).after s.2
  Handlers.onPayload changes Method.fileOperation FileOperation.ofJson? fun sender o s =>
    (onFileOperation env s.1 sender o).after s.2

end Service
end EditSync
