import EditSync.Path
import EditSync.Table
import EditSync.Text.Utf8

/-! Where the saved contents of workspace files come from. -/

namespace EditSync

/-- Reads the file of a path. -/
abbrev Source := String → Except SyncError String

namespace Source

/-- Files kept in memory under the exact spelling of their path. -/
def memory (files : Table String) : Source := fun path =>
  match files.get? path with
  | some content => .ok content
  | none => .error (.untracked path)

end Source

/-- What a folder holds under a name. -/
inductive FileNode where
  | file (octets : List UInt8)
  | folder
  deriving DecidableEq, Repr, Inhabited

/-- A tree of files. Every file and folder but the top one is listed under its path from there. -/
structure Disk where
  nodes : List (List (List Char) × FileNode) := []
  deriving Repr, Inhabited

namespace Disk

def node? (d : Disk) (path : List (List Char)) : Option FileNode :=
  if path = [] then some .folder else d.nodes.lookup path

def set (d : Disk) (path : List (List Char)) (n : FileNode) : Disk :=
  ⟨(path, n) :: d.nodes.filter fun e => e.1 ≠ path⟩

/-- Makes a folder of everything above a path that is nothing yet. -/
def makeFolders (d : Disk) (path : List (List Char)) : Disk :=
  (List.range path.length).foldl
    (fun d n => if (d.node? (path.take n)).isSome then d else d.set (path.take n) .folder) d

def put (d : Disk) (path : String) (n : FileNode) : Disk :=
  let path := Path.segments path.toList
  (d.makeFolders path).set path n

/-- Removes a file; a folder stays. -/
def remove (d : Disk) (path : String) : Disk :=
  let path := Path.segments path.toList
  match d.node? path with
  | some (.file _) => ⟨d.nodes.filter fun e => e.1 ≠ path⟩
  | _ => d

/-- Goes on from `here` through the pieces of a path; only folders can be gone through, also by a
piece that stays where it is. -/
def walk (d : Disk) (here : List (List Char)) : List (List Char) → Except IoFault FileNode
  | [] => (d.node? here).elim (.error .notFound) .ok
  | piece :: rest =>
    match d.node? here with
    | none => .error .notFound
    | some (.file _) => .error .notDirectory
    | some .folder => walk d (if piece = [] ∨ piece = ['.'] then here else here ++ [piece]) rest

/-- The text of the file at a path below the top. -/
def readText (d : Disk) (relative : List Char) : Except IoFault String :=
  match d.walk [] (Path.pieces relative) with
  | .error e => .error e
  | .ok .folder => .error .isDirectory
  | .ok (.file octets) => (Text.Utf8.decode? octets).elim (.error .notText) fun cs => .ok (.ofList cs)

/-- The files of a tree as a workspace. A path that climbs above the top names nothing. -/
def source (d : Disk) : Source := fun path =>
  let relative := Path.dropSlashes path.toList
  if Path.climbs relative then .error (.untracked path)
  else match d.readText relative with
    | .ok text => .ok text
    | .error e => .error (.io e)

end Disk

/-- Files that may change while they serve as a workspace. -/
inductive FileStore where
  | memory (files : Table String)
  | disk (d : Disk)
  deriving Inhabited

namespace FileStore

def source : FileStore → Source
  | memory files => .memory files
  | disk d => d.source

/-- Puts a file in place. Memory holds texts only. -/
def put : FileStore → String → FileNode → FileStore
  | memory files, path, .file octets =>
    match Text.Utf8.decode? octets with
    | some cs => .memory (files.set path (.ofList cs))
    | none => .memory files
  | memory files, _, .folder => .memory files
  | disk d, path, n => .disk (d.put path n)

/-- Removes a file and gives the text that memory held. -/
def remove : FileStore → String → FileStore × Option String
  | memory files, path => (.memory (files.erase path), files.get? path)
  | disk d, path => (.disk (d.remove path), none)

end FileStore
end EditSync
