import EditSync.Editor.Strategy

/-! Captured changes of a document. Deltas are queued as they happen and worked off together by a flush;
each is an edit of the text that those before it left, so none is ever merged or left out. -/

namespace EditSync

open Text

/-- Deltas in the order they were captured. -/
structure DirtyQueue where
  deltas : List Delta := []
  deriving DecidableEq, Repr, Inhabited

namespace DirtyQueue

def push (q : DirtyQueue) (d : Delta) : DirtyQueue := ⟨q.deltas ++ [d]⟩

/-- Takes the oldest delta. -/
def pop (q : DirtyQueue) : Except SyncError (Delta × DirtyQueue) :=
  match q.deltas with
  | d :: ds => .ok (d, ⟨ds⟩)
  | [] => .error .emptyQueue

/-- Takes everything. -/
def drain (q : DirtyQueue) : List Delta × DirtyQueue := (q.deltas, {})

def size (q : DirtyQueue) : Nat := q.deltas.length

def isEmpty (q : DirtyQueue) : Bool := q.deltas.isEmpty

end DirtyQueue

/-- What a flush does, in order. -/
inductive FlushEvent where
  | region (d : Delta)
  | call (c : Call)
  /-- The flush is over; `whole` if nothing was queued and the whole document was reconciled. -/
  | complete (whole : Bool)
  deriving DecidableEq, Repr, Inhabited

structure FlushReport where
  regions : Nat := 0
  whole : Bool := false
  dispatch : DispatchReport := {}
  deriving DecidableEq, Repr, Inhabited

structure Capture where
  dispatcher : Dispatcher
  queue : DirtyQueue := {}
  /-- Changes are captured. -/
  installed : Bool := false

namespace Capture

/-- Binds the strategies to a document and begins to capture its changes. -/
def install (c : Capture) : Capture × List Call :=
  let (dispatcher, calls) := c.dispatcher.setDocument
  ({ c with dispatcher, installed := true }, calls)

/-- Ends capturing; what is queued is thrown away. -/
def uninstall (c : Capture) : Capture × List Call :=
  let (dispatcher, calls) := c.dispatcher.closeAll
  ({ dispatcher, queue := {}, installed := false }, calls)

/-- Queues the deltas of an edit and says how many they are. -/
def onChange (c : Capture) (e : Edit) : Capture × Nat :=
  if c.installed then ({ c with queue := e.deltas.foldl .push c.queue }, e.deltas.length)
  else (c, 0)

def pending (c : Capture) : Nat := c.queue.size

/-- A flush under way. -/
structure Flush where
  dispatcher : Dispatcher
  events : List FlushEvent := []
  dispatch : DispatchReport := {}

/-- Works off one delta, or the whole document. -/
def Flush.process (doc : Document) (f : Flush) (dirty : Option Delta) : Flush :=
  let pass := f.dispatcher.process doc dirty
  { dispatcher := pass.dispatcher
    events := f.events ++ (dirty.map FlushEvent.region).toList ++ pass.calls.map .call
    dispatch := f.dispatch.add pass.report }

/-- Works off everything that is queued, or the whole document if nothing is. -/
def flush (c : Capture) (doc : Document) : Capture × List FlushEvent × FlushReport :=
  let whole := c.queue.isEmpty
  let work := if whole then [none] else c.queue.deltas.map some
  let f := work.foldl (Flush.process doc) { dispatcher := c.dispatcher }
  ({ c with dispatcher := f.dispatcher, queue := {} }, f.events ++ [.complete whole],
    ⟨c.queue.size, whole, f.dispatch⟩)

end Capture
end EditSync
