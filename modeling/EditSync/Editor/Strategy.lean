import EditSync.Editor.Document
import EditSync.Table

/-! Reconciling strategies. A document is cut into regions of content types; a dirty region is shown to
the strategy of each type it touches. Which work was asked for is recorded as a list of calls. -/

namespace EditSync

open Text

structure TypedRegion where
  offset : Nat
  length : Nat
  contentType : String
  deriving DecidableEq, Repr, Inhabited

def TypedRegion.stop (r : TypedRegion) : Nat := r.offset + r.length

/-- Cuts a range of a document, given by offset and length, into regions. -/
abbrev Partitioner := Document → Nat → Nat → List TypedRegion

namespace Partitioner

/-- The content type of a document that nobody looks into. -/
def plainType : String := "__dftl_partition_content_type"

/-- Everything is one region. -/
def single (contentType : String) : Partitioner := fun _ offset length => [⟨offset, length, contentType⟩]

/-- Three regions of equal length; the last takes what is left over. -/
def thirds (a b c : String) : Partitioner := fun _ offset length =>
  let third := length / 3
  [⟨offset, third, a⟩, ⟨offset + third, third, b⟩, ⟨offset + 2 * third, length - 2 * third, c⟩]

/-- The same regions for every range. -/
def fixed (regions : List TypedRegion) : Partitioner := fun _ _ _ => regions

end Partitioner

/-- What a strategy is asked to do. -/
inductive Task where
  | setDocument
  | reconcileDirty (dirty : Delta) (region : TypedRegion)
  | reconcile (region : TypedRegion)
  | close
  deriving DecidableEq, Repr, Inhabited

structure Strategy where
  name : String
  /-- Whether the latest task succeeds, given all tasks so far with the latest first. -/
  answer : Document → List Task → Except SyncError Unit := fun _ _ => .ok ()
  tasks : List Task := []

inductive Call where
  | partition (offset length : Nat)
  | strategy (name : String) (task : Task)
  deriving DecidableEq, Repr, Inhabited

/-- How many regions were handled, have no strategy, or failed. -/
structure DispatchReport where
  dispatched : Nat := 0
  skipped : Nat := 0
  failed : Nat := 0
  deriving DecidableEq, Repr, Inhabited

def DispatchReport.add (a b : DispatchReport) : DispatchReport :=
  ⟨a.dispatched + b.dispatched, a.skipped + b.skipped, a.failed + b.failed⟩

structure Dispatcher where
  partitioner : Partitioner
  strategies : Table Strategy := .empty

namespace Dispatcher

/-- Registers a strategy for a content type in place of an earlier one. -/
def register (d : Dispatcher) (contentType : String) (s : Strategy) : Dispatcher :=
  { d with strategies := d.strategies.set contentType s }

def handles (d : Dispatcher) (contentType : String) : Bool := d.strategies.contains contentType

/-- Gives every strategy a task whose outcome does not count. -/
def tell (d : Dispatcher) (task : Task) : Dispatcher × List Call :=
  ({ d with strategies := d.strategies.mapValues fun _ s => { s with tasks := task :: s.tasks } },
    d.strategies.entries.map fun e => .strategy e.2.name task)

def setDocument (d : Dispatcher) : Dispatcher × List Call := d.tell .setDocument

def closeAll (d : Dispatcher) : Dispatcher × List Call := d.tell .close

/-- The range of the document, as offset and length, that a dirty region lies in. -/
def range (doc : Document) : Option Delta → Nat × Nat
  | none => (0, doc.length)
  | some dirty =>
    let start := min dirty.offset.toNat doc.length
    let stop := min (dirty.offset.toNat + dirty.length) doc.length
    (start, stop - start)

def taskOf (dirty : Option Delta) (region : TypedRegion) : Task :=
  match dirty with
  | some d => .reconcileDirty d region
  | none => .reconcile region

/-- A dispatcher at work, with what it did so far. -/
structure Pass where
  dispatcher : Dispatcher
  calls : List Call := []
  report : DispatchReport := {}

/-- Shows a region to the strategy of its type, if there is one. -/
def visit (doc : Document) (dirty : Option Delta) (p : Pass) (region : TypedRegion) : Pass :=
  match p.dispatcher.strategies.get? region.contentType with
  | none => { p with report := p.report.add { skipped := 1 } }
  | some s =>
    let task := taskOf dirty region
    let tasks := task :: s.tasks
    { dispatcher := p.dispatcher.register region.contentType { s with tasks }
      calls := p.calls ++ [.strategy s.name task]
      report := p.report.add
        (match s.answer doc tasks with
        | .ok _ => { dispatched := 1 }
        | .error _ => { failed := 1 }) }

/-- Shows a dirty region to the strategies, or the whole document. A failure stops nothing. -/
def process (d : Dispatcher) (doc : Document) (dirty : Option Delta) : Pass :=
  let (offset, length) := range doc dirty
  (d.partitioner doc offset length).foldl (visit doc dirty)
    { dispatcher := d, calls := [.partition offset length] }

end Dispatcher
end EditSync
