import EditSync.Error
import EditSync.Text.Splice

/-! A document that is open in an editor. -/

namespace EditSync

open Text

structure Document where
  location : String
  project : String
  contents : String
  /-- There are changes that were not saved. -/
  dirty : Bool := false
  deriving DecidableEq, Repr, Inhabited

namespace Document

def length (d : Document) : Nat := d.contents.length

def saved (d : Document) : Document := { d with dirty := false }

/-- Applies all deltas of an edit, or none if one does not fit. -/
def change (d : Document) (e : Edit) : Except SyncError Document :=
  match Delta.applyAll d.contents e.deltas with
  | .ok contents => .ok { d with contents, dirty := true }
  | .error f => .error (.outOfRange d.location f.offset f.length f.contentLength)

end Document
end EditSync
