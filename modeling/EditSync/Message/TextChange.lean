import EditSync.Json.Record
import EditSync.Text.Delta

/-! What an editor sends about its text: one delta, or the whole content. -/

namespace EditSync

open Text Json

structure TextChange where
  offset : UInt64
  /-- How many characters are inserted. -/
  length : UInt64 := 0
  removed : UInt64 := 0
  text : Option String := none
  location : String
  project : String
  /-- Which editor sends this; empty when it does not say. -/
  owner : String := ""
  /-- `text` is the whole content. -/
  resync : Bool := false
  deriving DecidableEq, Repr, Inhabited

namespace TextChange

def ofDelta (d : Delta) (location project owner : String) : TextChange where
  offset := d.offset
  length := UInt64.ofNat d.inserted.length
  removed := UInt64.ofNat d.removed
  text := d.text
  location := location
  project := project
  owner := owner

def ofContent (content location project owner : String) : TextChange where
  offset := 0
  length := UInt64.ofNat content.length
  text := some content
  location := location
  project := project
  owner := owner
  resync := true

def edit (c : TextChange) : Edit := ⟨c.offset, c.removed, c.text⟩

/-- The deltas to apply; none when the whole content is sent. -/
def deltas (c : TextChange) : List Delta := if c.resync then [] else c.edit.deltas

def fieldNames : List String :=
  ["offset", "length", "removedCharCount", "text", "fileLocation", "projectPath",
    "workingCopyOwnerID", "resync"]

def toJson (c : TextChange) : Json :=
  .object ([("offset", word c.offset), ("length", word c.length), ("removedCharCount", word c.removed),
    ("text", ofOption .str c.text), ("fileLocation", .str c.location), ("projectPath", .str c.project),
    ("workingCopyOwnerID", .str c.owner)] ++ if c.resync then [("resync", .bool true)] else [])

def ofJson? (v : Json) : Option TextChange := do
  let fs ← fields? fieldNames v
  let offset ← fs.need "offset" word?
  let length ← fs.orElse "length" 0 word?
  let removed ← fs.orElse "removedCharCount" 0 word?
  let text ← fs.maybe "text" string?
  let location ← fs.need "fileLocation" string?
  let project ← fs.need "projectPath" string?
  let owner ← fs.orElse "workingCopyOwnerID" "" string?
  let resync ← fs.orElse "resync" false bool?
  some ⟨offset, length, removed, text, location, project, owner, resync⟩

end TextChange
end EditSync
