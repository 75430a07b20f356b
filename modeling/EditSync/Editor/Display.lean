import EditSync.Message.Diagnostics

/-! What an editor shows of the analyses of its file. A result is meant for the editor whose location it
carries; while the project is being resolved, results mean nothing and are dropped. -/

namespace EditSync

/-- News about the model of the project. -/
inductive Resolving where
  | inProgress
  | resolved
  deriving DecidableEq, Repr, Inhabited

inductive DisplayState where
  /-- There was no result yet. -/
  | idle
  /-- The project is being resolved. -/
  | disabled
  | active (severity : Severity)
  deriving DecidableEq, Repr, Inhabited

inductive RouteOutcome where
  /-- The result is another editor's, or was computed before a move. -/
  | stale
  | suppressed
  | applied (severity : Severity)
  deriving DecidableEq, Repr, Inhabited

structure Display where
  resolving : Option Resolving := none
  state : DisplayState := .idle
  shown : Analysis := {}
  deriving DecidableEq, Repr, Inhabited

namespace Display

def disable (d : Display) : Display := { d with state := .disabled, shown := {} }

/-- Takes a result for the editor of `location`. -/
def route (d : Display) (location : String) (r : ReconcileResult) : Display × RouteOutcome :=
  if r.owner ≠ location then (d, .stale)
  else if d.resolving = some .inProgress then (d.disable, .suppressed)
  else
    let severity := Severity.worst r.problems
    ({ d with state := .active severity, shown := r.toAnalysis }, .applied severity)

/-- Takes news about the project, and says whether the server needs the whole document again. -/
def onResolving (d : Display) (r : Resolving) : Display × Bool :=
  match r with
  | .inProgress => ({ d with resolving := some r }.disable, false)
  | .resolved => ({ d with resolving := some r }, true)

end Display
end EditSync
