import EditSync.Editor.Session
import EditSync.Message.Order
import EditSync.Network.Hub
import EditSync.Workspace.Service

/-! A client and a server on one hub. Messages wait in the inboxes until they are delivered. -/

namespace EditSync

structure Exchange where
  session : Session
  service : Service := {}
  hub : Hub := {}
  clientId : String
  serverId : String
  clientInbox : Nat := 0
  serverInbox : Nat := 1
  /-- The client's network refuses everything. -/
  refusing : Bool := false
  /-- How many changes the client's network still loses. -/
  losing : Nat := 0

namespace Exchange

/-- Connects both, the client first. -/
def start (options : SessionOptions) (clientId serverId : String) : Exchange :=
  let (hub, clientInbox) := ({} : Hub).connect clientId
  let (hub, serverInbox) := hub.connect serverId
  { session := .start options, hub, clientId, serverId, clientInbox, serverInbox }

/-- Sends a message of the client. -/
def sendFromClient (x : Exchange) (m : Message) : Exchange :=
  match x.refusing, m.payload, x.losing with
  | true, _, _ => x
  | false, .change _, n + 1 => { x with losing := n }
  | false, _, _ => { x with hub := x.hub.transmit m.receiver (m.envelope x.clientId) }

/-- Goes on with a session that did something outside. -/
def withSession (x : Exchange) (session : Session) (effects : List Effect) : Exchange :=
  effects.foldl
    (fun x e => match e with
      | .sent m => x.sendFromClient m
      | _ => x)
    { x with session }

def sendFromServer (x : Exchange) (ms : List Message) : Exchange :=
  { x with hub := ms.foldl (fun hub m => hub.transmit m.receiver (m.envelope x.serverId)) x.hub }

/-- Delivers to the server what it was sent, and lets it complete its analyses. -/
def pumpServer (env : Setting) (x : Exchange) : Exchange × List Envelope :=
  let (hub, received) := x.hub.receive x.serverInbox
  let received := received.getD []
  let (service, sent) := (Service.handlers env).dispatchAll received (x.service, [])
  let x := sendFromServer { x with hub } sent
  let (service, results) := service.settle env
  (sendFromServer { x with service } results, received)

/-- Delivers to the client what it was sent, results last. -/
def pumpClient (x : Exchange) : Exchange × List Envelope :=
  let (hub, received) := x.hub.receive x.clientInbox
  let received := resultsLast Envelope.owner? (received.getD [])
  let session := received.foldl (fun s e => (s.handleInbound e).session) x.session
  ({ x with hub, session }, received)

end Exchange
end EditSync
