import EditSync.Json.Record

/-! What an editor sends about a file: that it is tracked from now on, no longer, or under another
path. -/

namespace EditSync

open Json

inductive FileAction where
  | start
  | stop
  | suspend
  | resume
  | move
  deriving DecidableEq, Repr, Inhabited

namespace FileAction

def name : FileAction → String
  | start => "START"
  | stop => "STOP"
  | suspend => "SUSPEND"
  | resume => "RESUME"
  | move => "MOVE"

def ofName? (s : String) : Option FileAction :=
  [start, stop, suspend, resume, move].find? fun a => a.name = s

/-- An action is its name, or an object whose only member has that name and is null. -/
def ofJson? : Json → Option FileAction
  | .str s => ofName? s
  | .obj [(s, .null)] => ofName? s
  | _ => none

end FileAction

structure FileOperation where
  action : FileAction
  path : String
  oldPath : Option String := none
  project : Option String := none
  deriving DecidableEq, Repr, Inhabited

namespace FileOperation

def moved (oldPath path : String) : FileOperation := { action := .move, path, oldPath := some oldPath }

def fieldNames : List String := ["type", "path", "oldPath", "projectPath"]

def toJson (o : FileOperation) : Json :=
  .object ([("type", .str o.action.name), ("path", .str o.path)] ++
    optionalMember "oldPath" .str o.oldPath ++ optionalMember "projectPath" .str o.project)

def ofJson? (v : Json) : Option FileOperation := do
  let fs ← fields? fieldNames v
  let action ← fs.need "type" FileAction.ofJson?
  let path ← fs.need "path" string?
  let oldPath ← fs.maybe "oldPath" string?
  let project ← fs.maybe "projectPath" string?
  some ⟨action, path, oldPath, project⟩

end FileOperation
end EditSync
