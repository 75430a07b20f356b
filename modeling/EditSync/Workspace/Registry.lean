import EditSync.Message.TextChange
import EditSync.Path
import EditSync.Workspace.Source
import EditSync.Workspace.WorkingCopy

/-! All working copies of a server. A copy is found under the clean form of its path, so that two
spellings of one path mean one copy. -/

namespace EditSync

structure Registry where
  copies : Table WorkingCopy := .empty
  deriving Inhabited

namespace Registry

def find (r : Registry) (path : String) : Option WorkingCopy := r.copies.get? (Path.clean path)

def contains (r : Registry) (path : String) : Bool := (r.find path).isSome

/-- Begins to track a file with its saved content, and says whether that is new. -/
def start (source : Source) (r : Registry) (path : String) (project : Option String) :
    Except SyncError (Registry × Bool) :=
  let key := Path.clean path
  match r.copies.get? key with
  | some _ => .ok (r, false)
  | none =>
    match source key with
    | .error e => .error e
    | .ok content =>
      let copy := { location := path, project := project.getD (Path.project key), content }
      .ok (⟨r.copies.set key copy⟩, true)

/-- Forgets a file, and says whether it was tracked. -/
def stop (r : Registry) (path : String) : Registry × Bool :=
  let key := Path.clean path
  (⟨r.copies.erase key⟩, r.copies.contains key)

/-- Tracks a file under another path. A copy that was there before is lost. -/
def move (r : Registry) (oldPath newPath : String) (project : Option String) :
    Except SyncError Registry :=
  let oldKey := Path.clean oldPath
  let newKey := Path.clean newPath
  if oldKey = newKey then .ok r
  else
    match r.copies.get? oldKey with
    | none => .error (.untracked oldPath)
    | some copy =>
      let copy := { copy with location := newPath, project := project.getD copy.project }
      .ok ⟨(r.copies.erase oldKey).set newKey copy⟩

def setState (r : Registry) (path : String) (state : TrackingState) : Except SyncError Registry :=
  let key := Path.clean path
  match r.copies.get? key with
  | none => .error (.untracked path)
  | some copy => .ok ⟨r.copies.set key { copy with state }⟩

def state (r : Registry) (path : String) : TrackingState :=
  ((r.find path).map (·.state)).getD .stopped

/-- The copy that a change without a working copy begins with: the saved content, or none known. -/
def fresh (source : Source) (key location project : String) : WorkingCopy :=
  let project := if project = "" then Path.project key else project
  match source key with
  | .ok content => { location, project, content }
  | .error _ => .desynchronized location project

/-- The change as the copy takes it: the whole content, or delta by delta. -/
def changeCopy (c : WorkingCopy) (change : TextChange) : WorkingCopy × Except SyncError Unit :=
  if change.resync then (c.resync (change.text.getD ""), .ok ())
  else c.applyAll change.deltas

/-- Applies a change to the copy of its location, which it may create. A copy stays that was created
for a change that fails. -/
def apply (source : Source) (r : Registry) (change : TextChange) (endpoint : String) :
    Registry × Except SyncError Nat :=
  let key := Path.clean change.location
  let copy := (r.copies.get? key).getD (fresh source key change.location change.project)
  let (copy, result) := changeCopy (copy.noteSender endpoint change.owner) change
  (⟨r.copies.set key copy⟩, result.map fun _ => copy.revision)

/-- The keys of all copies of a project, in increasing order. -/
def pathsIn (r : Registry) (project : String) : List String :=
  ((r.copies.filter fun _ c => c.project = project).keys).mergeSort fun a b => decide (a ≤ b)

end Registry
end EditSync
