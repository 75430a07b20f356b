import EditSync.Editor.Session

/-! A session that runs by itself. It is fed through two channels, for the host's events and the
server's messages; when several things are ready, cancelling goes first, then ticks, events and
messages. It stops when it is cancelled or when both channels are closed and empty. -/

namespace EditSync

structure Loop where
  session : Session
  events : List EditorEvent := []
  inbound : List Envelope := []
  eventsOpen : Bool := true
  inboundOpen : Bool := true
  cancelled : Bool := false
  stopped : Bool := false

namespace Loop

abbrev Progress := Session × List Effect

def onEvent (host : Host) (p : Progress) (e : EditorEvent) : Progress :=
  let (session, effects) := p.1.handleEvent host e
  (session, p.2 ++ effects)

def onInbound (p : Progress) (e : Envelope) : Progress :=
  let r := p.1.handleInbound e
  (r.session, p.2 ++ r.effects)

def stop (l : Loop) : Loop :=
  { l with
    session := { l.session with scheduler := l.session.scheduler.cancelAll }
    events := [], inbound := [], stopped := true }

/-- Handles everything that is ready. None of it makes a tick ready. -/
def settle (host : Host) (l : Loop) : Loop × List Effect :=
  if l.stopped then (l, [])
  else if l.cancelled then (l.stop, [])
  else
    let (session, ticks) := l.session.takeTicks
    let flushed := session.handleTicks ticks
    let p : Progress := l.events.foldl (onEvent host) (flushed.session, flushed.effects)
    let p := l.inbound.foldl onInbound p
    let l := { l with session := p.1, events := [], inbound := [] }
    (if l.eventsOpen || l.inboundOpen then l else l.stop, p.2)

/-- Runs until nothing more happens without time going on. -/
def run (host : Host) (l : Loop) : Loop × List Effect :=
  let (l, before) := l.settle host
  let (l, after) := settle host { l with session := l.session.expire }
  (l, before ++ after)

/-- Runs, lets time go on and runs again. -/
def advance (host : Host) (ms : Nat) (l : Loop) : Loop × List Effect :=
  let (l, before) := l.run host
  let (l, after) := run host { l with session := l.session.advance ms }
  (l, before ++ after)

/-- Events after the channel is closed are lost. -/
def sendEvent (l : Loop) (e : EditorEvent) : Loop :=
  if l.eventsOpen && !l.stopped then { l with events := l.events ++ [e] } else l

def sendInbound (l : Loop) (e : Envelope) : Loop :=
  if l.inboundOpen && !l.stopped then { l with inbound := l.inbound ++ [e] } else l

end Loop
end EditSync
