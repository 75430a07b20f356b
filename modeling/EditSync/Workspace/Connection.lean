import EditSync.Frame.Reader
import EditSync.Frame.Writer
import EditSync.Workspace.Service

/-! A server that talks to one peer over a stream. Frames are handled in the order of the stream until
it ends or a frame is wrong; what was accepted for sending by then is still written. -/

namespace EditSync

structure Connection where
  service : Service := {}
  /-- Octets of a frame that is not complete. -/
  unread : List UInt8 := []
  out : Frame.Outbound
  ended : Bool := false
  deriving Inhabited

namespace Connection

def start (peer : String) : Connection := { out := { peer := peer } }

/-- Hands messages to the writer; the stream reaches one peer only. -/
def sendAll (out : Frame.Outbound) (ms : List Message) : Frame.Outbound :=
  ms.foldl (fun out m => (out.send m.receiver m.payload.method m.payload.params).toOption.getD out) out

/-- Handles what was received, one message after the other. -/
def handle (env : Setting) (c : Connection) (es : List Envelope) : Connection :=
  let (service, sent) := (Service.handlers env).dispatchAll es (c.service, [])
  { c with service, out := sendAll c.out sent }

/-- Completes the analyses that wait and writes all messages. -/
def settle (env : Setting) (c : Connection) : Connection :=
  let (service, sent) := c.service.settle env
  { c with service, out := (sendAll c.out sent).run }

/-- Ends the connection after writing what was accepted. Analyses that wait are lost. -/
def stop (c : Connection) : Connection := { c with unread := [], out := c.out.cancel, ended := true }

/-- Takes octets from the stream and handles the messages that are complete with them. The connection
ends with the stream, where `closed` says that these are its last octets, or at a wrong frame. -/
def absorb (env : Setting) (closed : Bool) (c : Connection) (octets : List UInt8) : Connection :=
  let reading := Frame.readAll closed (c.unread ++ octets)
  let c := c.handle env (reading.envelopes c.out.peer)
  match reading.ending with
  | .pending unread => { c with unread }
  | .ended | .failed _ => c.stop

/-- Receives octets and settles, unless they ended the connection. -/
def receive (env : Setting) (closed : Bool) (c : Connection) (octets : List UInt8) : Connection :=
  if c.ended then c
  else
    let c := c.absorb env closed octets
    if c.ended then c else c.settle env

/-- The keys of the files that handling a message may read. -/
def filesOf (e : Envelope) : List String :=
  if e.method = Method.editorChanges then
    ((TextChange.ofJson? e.params).map fun c => Path.clean c.location).toList
  else if e.method = Method.fileOperation then
    ((FileOperation.ofJson? e.params).map fun o => Path.clean o.path).toList
  else []

/-- The keys of the files that receiving octets may read. -/
def filesWanted (closed : Bool) (c : Connection) (octets : List UInt8) : List String :=
  ((Frame.readAll closed (c.unread ++ octets)).envelopes c.out.peer).flatMap filesOf

/-- Ends the connection from outside: what was not handled by then never is. -/
def cancel (c : Connection) : Connection := if c.ended then c else c.stop

end Connection
end EditSync
