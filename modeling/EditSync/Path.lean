import EditSync.Error

/-! Paths as text. A working copy is found under the lexically cleaned spelling of its path, and a
workspace file is looked up below a root folder that no client path can leave. -/

namespace EditSync.Path

/-- Cuts at every slash; the pieces may be empty. -/
def pieces : List Char → List (List Char)
  | [] => [[]]
  | c :: cs =>
    match pieces cs with
    | [] => [[c]]
    | p :: ps => if c = '/' then [] :: p :: ps else (c :: p) :: ps

/-- The pieces that name something: neither empty nor a single dot. -/
def segments (cs : List Char) : List (List Char) :=
  (pieces cs).filter fun p => p ≠ [] && p ≠ ['.']

/-- Climbing leaves the last named folder; above a relative start it is kept, above the top it is
nothing. -/
def climb (absolute : Bool) (kept : List (List Char)) (segment : List Char) : List (List Char) :=
  if segment = ['.', '.'] then
    match kept with
    | [] => if absolute then [] else [segment]
    | last :: rest => if last = ['.', '.'] then segment :: kept else rest
  else segment :: kept

def joinSegments (segments : List (List Char)) : List Char :=
  List.intercalate ['/'] segments

def isAbsolute (cs : List Char) : Bool := cs.head? = some '/'

def cleanChars (cs : List Char) : List Char :=
  let kept := ((segments cs).foldl (climb (isAbsolute cs)) []).reverse
  if isAbsolute cs then '/' :: joinSegments kept
  else if kept = [] then ['.'] else joinSegments kept

/-- The shortest spelling that names the same file: no empty or dot segment, no trailing slash, and
climbing only at the front of a relative path. -/
def clean (path : String) : String := String.ofList (cleanChars path.toList)

/-- The text after its leading slashes. -/
def dropSlashes (cs : List Char) : List Char := cs.dropWhile (· = '/')

/-- The project a file belongs to when nobody says: its first folder. -/
def project (path : String) : String :=
  String.ofList ('/' :: (dropSlashes path.toList).takeWhile (· ≠ '/'))

/-- Puts `path` below `base`, unless `path` starts at the top itself. -/
def join (base path : String) : String :=
  if isAbsolute path.toList then path
  else if base = "" || base.toList.getLast? = some '/' then base ++ path
  else base ++ "/" ++ path

def climbs (cs : List Char) : Bool := ['.', '.'] ∈ pieces cs

/-- The file below `root` that a workspace path names. A path that climbs names none. -/
def resolve (root path : String) : Except SyncError String :=
  let relative := dropSlashes path.toList
  if climbs relative then .error (.untracked path)
  else .ok (join root (String.ofList relative))

end EditSync.Path
