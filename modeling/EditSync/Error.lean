/-! What can go wrong between an editor and the workspace server. Each case is a cause; its wording
is `SyncError.message`. None of them ends a session: at worst there are no diagnostics for a while. -/

namespace EditSync

/-- Why reading failed outside the program. -/
inductive IoFault where
  | notFound
  | notText
  | isDirectory
  | notDirectory
  | unexpectedEnd
  deriving DecidableEq, Repr, Inhabited

def IoFault.message : IoFault → String
  | notFound => "No such file or directory (os error 2)"
  | notText => "stream did not contain valid UTF-8"
  | isDirectory => "Is a directory (os error 21)"
  | notDirectory => "Not a directory (os error 20)"
  | unexpectedEnd => "early eof"

inductive SyncError where
  /-- A delta addressed characters outside the content of `path`. -/
  | outOfRange (path : String) (offset length contentLength : Nat)
  /-- The working copy of `path` waits for its full content. -/
  | desynchronized (path : String)
  | untracked (path : String)
  | emptyQueue
  | strategy (contentType detail : String)
  | transport (endpoint detail : String)
  | engine (path detail : String)
  | protocol (method detail : String)
  /-- The payload of a message does not fit the type its method asks for. -/
  | undecodable (method : String)
  | config (detail : String)
  | io (fault : IoFault)
  deriving DecidableEq, Repr, Inhabited

namespace SyncError

def message : SyncError → String
  | outOfRange path offset length contentLength =>
    s!"Out of range edit on {path}: offset {offset} length {length} exceeds content length {contentLength}"
  | desynchronized path => s!"Working copy is desynchronized: {path}"
  | untracked path => s!"Working copy not found: {path}"
  | emptyQueue => "Dirty region queue is empty"
  | strategy contentType detail => s!"Strategy for {contentType} failed: {detail}"
  | transport endpoint detail => s!"Transport to {endpoint} failed: {detail}"
  | engine path detail => s!"Reconciliation of {path} failed: {detail}"
  | protocol method detail => s!"Malformed {method} payload: {detail}"
  | undecodable method => s!"Malformed {method} payload"
  | config detail => s!"Invalid configuration: {detail}"
  | io fault => s!"IO error: {fault.message}"

/-- The working copy no longer agrees with the editor, and only the full content can mend it. -/
def requiresResync : SyncError → Bool
  | outOfRange .. | desynchronized .. => true
  | _ => false

end SyncError
end EditSync
