import EditSync.Message.Basic
import EditSync.Table

/-! A network inside one process. Each connection has an inbox, in which messages stand in the order
they were sent; an endpoint id leads to the inbox of its latest connection. -/

namespace EditSync

/-- The inbox of one connection. -/
structure Inbox where
  /-- The endpoint that connected. -/
  id : String
  envelopes : List Envelope := []
  /-- Nobody reads it any more. -/
  dropped : Bool := false
  deriving Inhabited, Repr

structure Hub where
  /-- The inbox of every connection ever made, numbered from zero. -/
  inboxes : List Inbox := []
  /-- The inbox that messages to an endpoint id go to. -/
  routes : Table Nat := .empty
  deriving Inhabited

namespace Hub

/-- Connects an endpoint and gives the number of its inbox. Earlier inboxes of the same id get nothing
from now on. -/
def connect (h : Hub) (id : String) : Hub × Nat :=
  (⟨h.inboxes ++ [{ id := id }], h.routes.set id h.inboxes.length⟩, h.inboxes.length)

def disconnect (h : Hub) (id : String) : Hub := { h with routes := h.routes.erase id }

def isConnected (h : Hub) (id : String) : Bool := h.routes.contains id

def modifyInbox (h : Hub) (n : Nat) (f : Inbox → Inbox) : Hub := { h with inboxes := h.inboxes.modify n f }

def send (h : Hub) (receiver : String) (e : Envelope) : Except SyncError Hub :=
  match h.routes.get? receiver with
  | none => .error (.transport receiver "endpoint not connected")
  | some n =>
    match h.inboxes[n]? with
    | some inbox =>
      if inbox.dropped then .error (.transport receiver "endpoint inbox closed")
      else .ok (h.modifyInbox n fun i => { i with envelopes := i.envelopes ++ [e] })
    | none => .error (.transport receiver "endpoint inbox closed")

/-- Sends and forgets: a message that cannot be sent is lost. -/
def transmit (h : Hub) (receiver : String) (e : Envelope) : Hub :=
  match h.send receiver e with
  | .ok h => h
  | .error _ => h

def dropInbox (h : Hub) (n : Nat) : Hub :=
  h.modifyInbox n fun i => { i with envelopes := [], dropped := true }

/-- Whether no message can reach the inbox any more. -/
def closed (h : Hub) (n : Nat) : Bool :=
  match h.inboxes[n]? with
  | some inbox => h.routes.get? inbox.id ≠ some n
  | none => true

/-- Takes everything out of an inbox that is still read. -/
def receive (h : Hub) (n : Nat) : Hub × Option (List Envelope) :=
  match h.inboxes[n]? with
  | some inbox =>
    if inbox.dropped then (h, none)
    else (h.modifyInbox n fun i => { i with envelopes := [] }, some inbox.envelopes)
  | none => (h, none)

end Hub
end EditSync
