import EditSync.Json.Record

/-! What an analysis reports about a file: problems, and passages to highlight. -/

namespace EditSync

open Json

structure Problem where
  message : String
  id : Int32 := 0
  error : Bool := false
  warning : Bool := false
  start : UInt64 := 0
  stop : UInt64 := 0
  line : UInt64 := 0
  arguments : List String := []
  fileName : String := ""
  deriving DecidableEq, Repr, Inhabited

namespace Problem

def ofError (message : String) (start stop : UInt64) : Problem := { message, start, stop, error := true }

def ofWarning (message : String) (start stop : UInt64) : Problem :=
  { message, start, stop, warning := true }

def fieldNames : List String :=
  ["message", "id", "error", "warning", "sourceStart", "sourceEnd", "sourceLineNumber", "arguments",
    "originatingFileName"]

def toJson (p : Problem) : Json :=
  .object [("message", .str p.message), ("id", .int p.id.toInt), ("error", .bool p.error),
    ("warning", .bool p.warning), ("sourceStart", word p.start), ("sourceEnd", word p.stop),
    ("sourceLineNumber", word p.line), ("arguments", .arr (p.arguments.map .str)),
    ("originatingFileName", .str p.fileName)]

def ofJson? (v : Json) : Option Problem := do
  let fs ← fields? fieldNames v
  let message ← fs.need "message" string?
  let id ← fs.orElse "id" 0 int32?
  let error ← fs.orElse "error" false bool?
  let warning ← fs.orElse "warning" false bool?
  let start ← fs.orElse "sourceStart" 0 word?
  let stop ← fs.orElse "sourceEnd" 0 word?
  let line ← fs.orElse "sourceLineNumber" 0 word?
  let arguments ← fs.orElse "arguments" [] (list? string?)
  let fileName ← fs.orElse "originatingFileName" "" string?
  some ⟨message, id, error, warning, start, stop, line, arguments, fileName⟩

end Problem

structure Highlight where
  offset : UInt64
  length : UInt64
  kind : String
  deriving DecidableEq, Repr, Inhabited

namespace Highlight

def fieldNames : List String := ["offset", "length", "kind"]

def toJson (h : Highlight) : Json :=
  .object [("offset", word h.offset), ("length", word h.length), ("kind", .str h.kind)]

def ofJson? (v : Json) : Option Highlight := do
  let fs ← fields? fieldNames v
  let offset ← fs.need "offset" word?
  let length ← fs.need "length" word?
  let kind ← fs.need "kind" string?
  some ⟨offset, length, kind⟩

end Highlight

/-- What an analysis found. -/
structure Analysis where
  problems : List Problem := []
  highlights : List Highlight := []
  deriving DecidableEq, Repr, Inhabited

/-- An analysis on its way to the editor that shows the file. -/
structure ReconcileResult extends Analysis where
  /-- The location of the file as its editor spells it. -/
  owner : String
  deriving DecidableEq, Repr, Inhabited

namespace ReconcileResult

def fieldNames : List String := ["problems", "highlightedPositions", "workingCopyOwnerID"]

def toJson (r : ReconcileResult) : Json :=
  .object [("problems", .arr (r.problems.map Problem.toJson)),
    ("highlightedPositions", .arr (r.highlights.map Highlight.toJson)),
    ("workingCopyOwnerID", .str r.owner)]

def ofJson? (v : Json) : Option ReconcileResult := do
  let fs ← fields? fieldNames v
  let problems ← fs.orElse "problems" [] (list? Problem.ofJson?)
  let highlights ← fs.orElse "highlightedPositions" [] (list? Highlight.ofJson?)
  let owner ← fs.need "workingCopyOwnerID" string?
  some ⟨⟨problems, highlights⟩, owner⟩

end ReconcileResult

/-- The worst that an analysis found. -/
inductive Severity where
  | clean
  | warning
  | error
  deriving DecidableEq, Repr, Inhabited

def Severity.worst (ps : List Problem) : Severity :=
  if ps.any (·.error) then .error else if ps.any (·.warning) then .warning else .clean

end EditSync
