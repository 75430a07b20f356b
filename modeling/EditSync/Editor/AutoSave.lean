import EditSync.Editor.Document

/-! Saving a document when its changes are flushed. A preference of the user decides over the mode: no
forbids it, yes switches it on, and none leaves it as it is. -/

namespace EditSync

/-- Whether the latest save succeeds, given everything saved so far with the latest first. -/
abbrev Saver := List Document → Except SyncError Unit

structure AutoSave where
  preference : Option Bool := none
  activated : Bool := false
  saver : Option Saver := none
  /-- What the saver was given, latest first. -/
  attempts : List Document := []

namespace AutoSave

/-- Switches the mode on, unless that is forbidden, and says whether it was. -/
def activate (a : AutoSave) : AutoSave × Bool :=
  if a.preference = some false then (a, false) else ({ a with activated := true }, true)

def deactivate (a : AutoSave) : AutoSave := { a with activated := false }

def prefer (a : AutoSave) (preference : Option Bool) : AutoSave :=
  { a with preference, activated := preference.getD a.activated }

def ofPreference (preference : Option Bool) (saver : Option Saver) : AutoSave :=
  { ({} : AutoSave).prefer preference with saver }

/-- What a flush comes to. -/
structure Saving where
  mode : AutoSave
  document : Document
  /-- The save that was tried, and whether it succeeded. -/
  tried : Option (Document × Bool) := none
  result : Except SyncError Bool

/-- Saves a document with changes if the mode is on, and says whether it did. -/
def onFlush (a : AutoSave) (doc : Document) : Saving :=
  match a.saver with
  | none => { mode := a, document := doc, result := .ok false }
  | some saver =>
    if a.activated && doc.dirty then
      let attempts := doc :: a.attempts
      match saver attempts with
      | .ok _ => ⟨{ a with attempts }, doc.saved, some (doc, true), .ok true⟩
      | .error e => ⟨{ a with attempts }, doc, some (doc, false), .error e⟩
    else { mode := a, document := doc, result := .ok false }

end AutoSave
end EditSync
