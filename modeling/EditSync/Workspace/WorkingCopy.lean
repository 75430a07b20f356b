import EditSync.Error
import EditSync.Text.Splice

/-! The server's copy of a text that some editor is changing. -/

namespace EditSync

open Text

inductive TrackingState where
  /-- There is no working copy. -/
  | stopped
  | started
  /-- Recorded only; changes are applied as ever. -/
  | suspended
  deriving DecidableEq, Repr, Inhabited

structure WorkingCopy where
  /-- The path as the editor last spelled it, which results carry back. -/
  location : String
  project : String
  content : String := ""
  /-- Cleared when a delta did not fit: from then on only the whole content helps. -/
  synchronized : Bool := true
  /-- How many deltas and whole contents were applied. -/
  revision : Nat := 0
  state : TrackingState := .started
  owner : Option String := none
  /-- Who sent the last change. -/
  endpoint : Option String := none
  deriving DecidableEq, Repr, Inhabited

namespace WorkingCopy

/-- A copy of a text that is not known yet. -/
def desynchronized (location project : String) : WorkingCopy :=
  { location, project, synchronized := false }

/-- Remembers who changes the copy. An empty owner says nothing. -/
def noteSender (c : WorkingCopy) (endpoint owner : String) : WorkingCopy :=
  { c with endpoint := some endpoint, owner := if owner = "" then c.owner else some owner }

/-- Applies a delta. One that does not fit changes no content but ends the synchronization. -/
def apply (c : WorkingCopy) (d : Delta) : WorkingCopy × Except SyncError Unit :=
  if c.synchronized then
    match d.apply c.content with
    | .ok content => ({ c with content, revision := c.revision + 1 }, .ok ())
    | .error e =>
      ({ c with synchronized := false }, .error (.outOfRange c.location e.offset e.length e.contentLength))
  else (c, .error (.desynchronized c.location))

/-- Applies deltas in order up to the first that fails. -/
def applyAll (c : WorkingCopy) : List Delta → WorkingCopy × Except SyncError Unit
  | [] => (c, .ok ())
  | d :: ds =>
    match c.apply d with
    | (c, .ok ()) => applyAll c ds
    | (c, .error e) => (c, .error e)

/-- Replaces the whole content. -/
def resync (c : WorkingCopy) (content : String) : WorkingCopy :=
  { c with content, synchronized := true, revision := c.revision + 1 }

end WorkingCopy
end EditSync
