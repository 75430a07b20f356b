import EditSync.Editor.Capture
import EditSync.Message.Basic

/-! What an editor tells the server. Flushed deltas are sent one by one; once the whole content is asked
for, they are held back and the content follows at the end of the flush. -/

namespace EditSync

structure Reporter where
  /-- The server. -/
  endpoint : String
  /-- Which editor this is. -/
  owner : String
  needsResync : Bool := false
  deriving DecidableEq, Repr, Inhabited

namespace Reporter

def requestResync (r : Reporter) : Reporter := { r with needsResync := true }

def message (r : Reporter) (p : Payload) : Message := ⟨r.endpoint, p⟩

def operation (r : Reporter) (o : FileOperation) : Message := r.message (.file o)

def started (r : Reporter) (doc : Document) : Message :=
  r.operation { action := .start, path := doc.location, project := some doc.project }

def stopped (r : Reporter) (location : String) : Message :=
  r.operation { action := .stop, path := location }

def suspended (r : Reporter) (location : String) : Message :=
  r.operation { action := .suspend, path := location }

def resumed (r : Reporter) (location : String) : Message :=
  r.operation { action := .resume, path := location }

def moved (r : Reporter) (oldLocation : String) (doc : Document) : Message :=
  r.operation { FileOperation.moved oldLocation doc.location with project := some doc.project }

def sendResync (r : Reporter) (doc : Document) : Reporter × List Message :=
  ({ r with needsResync := false },
    [r.message (.change (.ofContent doc.contents doc.location doc.project r.owner))])

/-- Takes part in a flush: sends its deltas, or the whole content when it is over. -/
def onFlush (doc : Document) (r : Reporter) : FlushEvent → Reporter × List Message
  | .region d =>
    if r.needsResync then (r, [])
    else (r, [r.message (.change (.ofDelta d doc.location doc.project r.owner))])
  | .complete _ => if r.needsResync then r.sendResync doc else (r, [])
  | .call _ => (r, [])

end Reporter
end EditSync
