import EditSync.Error
import EditSync.Message.Diagnostics
import EditSync.Message.FileOperation
import EditSync.Message.TextChange

/-! Messages between editors and the workspace server. A message is addressed to an endpoint, goes
one way and gets no answer; its method says what its parameters are. -/

namespace EditSync

open Json

/-- The server lost track of a text and asks its editor for the whole content. -/
structure ResyncRequest where
  location : String
  project : String
  reason : String
  deriving DecidableEq, Repr, Inhabited

namespace ResyncRequest

def fieldNames : List String := ["fileLocation", "projectPath", "reason"]

def toJson (r : ResyncRequest) : Json :=
  .object [("fileLocation", .str r.location), ("projectPath", .str r.project), ("reason", .str r.reason)]

def ofJson? (v : Json) : Option ResyncRequest := do
  let fs ← fields? fieldNames v
  let location ← fs.need "fileLocation" string?
  let project ← fs.need "projectPath" string?
  let reason ← fs.need "reason" string?
  some ⟨location, project, reason⟩

end ResyncRequest

namespace Method

def editorChanges : String := "track:editor-changes"

def fileOperation : String := "track:file-operation"

def reconcileStateChanged : String := "event:reconcile-state-changed"

def resyncRequired : String := "event:working-copy-resync-required"

end Method

/-- The endpoint that the workspace server listens at unless settings say otherwise. -/
def defaultEndpoint : String := "ws-agent"

inductive Payload where
  | change (change : TextChange)
  | file (operation : FileOperation)
  | result (result : ReconcileResult)
  | resync (request : ResyncRequest)
  deriving DecidableEq, Repr, Inhabited

namespace Payload

def method : Payload → String
  | change _ => Method.editorChanges
  | file _ => Method.fileOperation
  | result _ => Method.reconcileStateChanged
  | resync _ => Method.resyncRequired

def params : Payload → Json
  | change c => c.toJson
  | file o => o.toJson
  | result r => r.toJson
  | resync r => r.toJson

end Payload

structure Message where
  receiver : String
  payload : Payload
  deriving DecidableEq, Repr, Inhabited

/-- A message as its receiver gets it. -/
structure Envelope where
  sender : String
  method : String
  params : Json := .null
  deriving Inhabited, Repr

namespace Envelope

/-- Reads the parameters as what the method asks for. -/
def decode {α : Type} (e : Envelope) (read : Json → Option α) : Except SyncError α :=
  match read e.params with
  | some a => .ok a
  | none => .error (.undecodable e.method)

end Envelope

def Message.envelope (m : Message) (sender : String) : Envelope :=
  ⟨sender, m.payload.method, m.payload.params⟩

end EditSync
