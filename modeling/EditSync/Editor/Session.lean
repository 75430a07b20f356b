import EditSync.Debounce
import EditSync.Editor.AutoSave
import EditSync.Editor.Display
import EditSync.Editor.Reporter

/-! All open editors of one client. Changes are queued and a timer of the document started anew; its
tick flushes the queue to the server. Every operation gives the new session together with what it did
outside: messages sent, strategies called and documents saved, in this order of events. -/

namespace EditSync

open Text

structure SessionOptions where
  /-- Milliseconds without a change before changes are flushed. -/
  quiet : UInt64 := 1000
  /-- The endpoint of the server. -/
  endpoint : String := defaultEndpoint
  /-- Send the whole content soon after a document is opened. -/
  resyncOnInstall : Bool := false
  /-- The user's preference for saving by itself. -/
  autoSave : Option Bool := none
  deriving DecidableEq, Repr, Inhabited

/-- What the program around a session provides for each document. -/
structure Host where
  dispatcher : Document → Dispatcher := fun _ => { partitioner := .single Partitioner.plainType }
  saver : Document → Option Saver := fun _ => none
  /-- The owner id of the n-th editor ever opened. -/
  owner : Nat → String

structure OpenEditor where
  document : Document
  capture : Capture
  reporter : Reporter
  display : Display := {}
  autoSave : AutoSave

/-- What a session does outside. -/
inductive Effect where
  | sent (m : Message)
  | called (c : Call)
  | saved (document : Document) (succeeded : Bool)
  deriving DecidableEq, Repr, Inhabited

structure Session where
  options : SessionOptions := {}
  editors : Table OpenEditor := .empty
  scheduler : Debounce := { quiet := options.quiet.toNat }
  /-- How many editors were ever opened. -/
  opened : Nat := 0

inductive EditorEvent where
  | opened (document : Document)
  | changed (location : String) (edit : Edit)
  | closed (location : String)
  | moved (oldLocation newLocation : String)
  | resolving (state : Resolving)
  deriving DecidableEq, Repr, Inhabited

namespace Session

def start (options : SessionOptions) : Session := { options := options }

def isOpen (s : Session) (location : String) : Bool := s.editors.contains location

def hasPendingFlush (s : Session) (location : String) : Bool := s.scheduler.hasPending location

/-- Starts the timer of a document anew. -/
def schedule (s : Session) (location : String) : Session :=
  { s with scheduler := (s.scheduler.schedule location).1 }

/-- Asks an editor for its whole content soon. -/
def demandResync (s : Session) (location : String) : Session :=
  { s with editors := s.editors.modify location fun e => { e with reporter := e.reporter.requestResync } }
    |>.schedule location

/-- What an operation comes to. -/
structure Step (α : Type) where
  session : Session
  effects : List Effect := []
  result : α

/-- Opens a document, unless it is open. -/
def openDocument (host : Host) (s : Session) (doc : Document) : Step Bool :=
  if s.isOpen doc.location then { session := s, result := false }
  else
    let reporter := { endpoint := s.options.endpoint, owner := host.owner (s.opened + 1) }
    let (capture, calls) := Capture.install { dispatcher := host.dispatcher doc }
    let autoSave := AutoSave.ofPreference s.options.autoSave (host.saver doc)
    let editor := { document := doc, capture, reporter, autoSave }
    let session := { s with editors := s.editors.set doc.location editor, opened := s.opened + 1 }
    { session := if s.options.resyncOnInstall then session.demandResync doc.location else session
      effects := calls.map .called ++ [.sent (reporter.started doc)]
      result := true }

/-- Applies an edit and says how many deltas wait for the next flush because of it. -/
def change (s : Session) (location : String) (e : Edit) : Step (Except SyncError Nat) :=
  match s.editors.get? location with
  | none => { session := s, result := .error (.untracked location) }
  | some editor =>
    match editor.document.change e with
    | .error f => { session := s, result := .error f }
    | .ok document =>
      let (capture, queued) := editor.capture.onChange e
      let editors := s.editors.set location { editor with document, capture }
      { session := { s with editors }.schedule location, result := .ok queued }

/-- Closes a document; what was not flushed is lost. -/
def close (s : Session) (location : String) : Step Bool :=
  match s.editors.get? location with
  | none => { session := s, result := false }
  | some editor =>
    let (_, calls) := editor.capture.uninstall
    { session :=
        { s with editors := s.editors.erase location, scheduler := (s.scheduler.cancel location).1 }
      effects := calls.map .called ++ [.sent (editor.reporter.stopped location)]
      result := true }

/-- Gives an open document another location. A timer of the old one goes on as a new one. -/
def move (s : Session) (oldLocation newLocation : String) : Step (Except SyncError Unit) :=
  if s.isOpen newLocation then
    { session := s, result := .error (.protocol "move" s!"{newLocation} is already open") }
  else
    match s.editors.get? oldLocation with
    | none => { session := s, result := .error (.untracked oldLocation) }
    | some editor =>
      let document := { editor.document with location := newLocation }
      let editors := (s.editors.erase oldLocation).set newLocation { editor with document }
      let (scheduler, wasPending) := s.scheduler.cancel oldLocation
      let session := { s with editors, scheduler }
      { session := if wasPending then session.schedule newLocation else session
        effects := [.sent (editor.reporter.moved oldLocation document)]
        result := .ok () }

/-- What one event of a flush leads to. -/
def onFlushEvent (doc : Document) (r : Reporter × List Effect) (e : FlushEvent) :
    Reporter × List Effect :=
  let (reporter, sent) := r.1.onFlush doc e
  let called := match e with
    | .call c => [.called c]
    | _ => []
  (reporter, r.2 ++ called ++ sent.map .sent)

/-- Sends what is queued, shows it to the strategies, and saves the document if that is wanted. -/
def flushEditor (editor : OpenEditor) : OpenEditor × List Effect × FlushReport :=
  let (capture, events, report) := editor.capture.flush editor.document
  let (reporter, effects) := events.foldl (onFlushEvent editor.document) (editor.reporter, [])
  let saving := editor.autoSave.onFlush editor.document
  ({ editor with document := saving.document, capture, reporter, autoSave := saving.mode },
    effects ++ (saving.tried.map fun t => Effect.saved t.1 t.2).toList, report)

def flush (s : Session) (location : String) : Step (Option FlushReport) :=
  match s.editors.get? location with
  | none => { session := s, result := none }
  | some editor =>
    let (editor, effects, report) := flushEditor editor
    { session := { s with editors := s.editors.set location editor }, effects, result := some report }

/-- Flushes the document of a tick, unless its timer was replaced or cancelled. -/
def handleTick (s : Session) (t : Tick) : Step (Option FlushReport) :=
  match s.scheduler.claim t.key t.generation with
  | (_, false) => { session := s, result := none }
  | (scheduler, true) => { s with scheduler }.flush t.key

/-- Handles ticks in their order. -/
def handleTicks (s : Session) : List Tick → Step (List (Option FlushReport))
  | [] => { session := s, result := [] }
  | t :: ts =>
    let first := s.handleTick t
    let rest := handleTicks first.session ts
    ⟨rest.session, first.effects ++ rest.effects, first.result :: rest.result⟩

/-- Lets the timers that are due post their ticks. -/
def expire (s : Session) : Session := { s with scheduler := s.scheduler.expire }

def advance (ms : Nat) (s : Session) : Session := { s with scheduler := s.scheduler.advance ms }

/-- Takes all ticks that were posted. -/
def takeTicks (s : Session) : Session × List Tick :=
  let (scheduler, ticks) := s.scheduler.takePosted
  ({ s with scheduler }, ticks)

/-- Takes a message from the server. -/
def handleInbound (s : Session) (e : Envelope) : Step (Except SyncError Unit) :=
  if e.method = Method.reconcileStateChanged then
    match e.decode ReconcileResult.ofJson? with
    | .error f => { session := s, result := .error f }
    | .ok r =>
      let editors := s.editors.mapValues fun location editor =>
        { editor with display := (editor.display.route location r).1 }
      { session := { s with editors }, result := .ok () }
  else if e.method = Method.resyncRequired then
    match e.decode ResyncRequest.ofJson? with
    | .error f => { session := s, result := .error f }
    | .ok r => { session := if s.isOpen r.location then s.demandResync r.location else s, result := .ok () }
  else { session := s, result := .ok () }

/-- Tells one editor about the project. -/
def resolveEditor (state : Resolving) (s : Session) (location : String) : Session :=
  match s.editors.get? location with
  | none => s
  | some editor =>
    let (display, resync) := editor.display.onResolving state
    let s := { s with editors := s.editors.set location { editor with display } }
    if resync then s.demandResync location else s

/-- Tells all editors about the project. -/
def onResolving (s : Session) (state : Resolving) : Session :=
  s.editors.keys.foldl (resolveEditor state) s

/-- Takes an event of the host. Failures lead to nothing. -/
def handleEvent (host : Host) (s : Session) : EditorEvent → Session × List Effect
  | .opened doc => let r := s.openDocument host doc; (r.session, r.effects)
  | .changed location e => let r := s.change location e; (r.session, r.effects)
  | .closed location => let r := s.close location; (r.session, r.effects)
  | .moved oldLocation newLocation => let r := s.move oldLocation newLocation; (r.session, r.effects)
  | .resolving state => (s.onResolving state, [])

end Session
end EditSync
