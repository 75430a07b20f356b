import EditSync.Frame.Header
import EditSync.Settings.Layer

/-! What a call from the command line asks for. -/

namespace EditSync

inductive Command where
  /-- Serve one peer over the standard streams. -/
  | serve (root : Option String) (peer : String)
  /-- Print the settings that are in effect. -/
  | config (root : Option String) (overrides : SettingsLayer)
  deriving DecidableEq, Repr, Inhabited

namespace Command

def usage : String :=
  "Usage: tandem serve [--root <ROOT>] [--peer <PEER>]\n       tandem config [--root <ROOT>] [--quiet-period-ms <N>]"

/-- The options of a call, each as its name and its value. -/
def options? (names : List String) : List String → Except String (List (String × String))
  | [] => .ok []
  | [arg] =>
    if arg ∈ names then .error s!"a value is required for '{arg}'"
    else .error s!"unexpected argument '{arg}'"
  | arg :: value :: rest =>
    if arg ∈ names then (options? names rest).map ((arg, value) :: ·)
    else .error s!"unexpected argument '{arg}'"

/-- The value of an option that may be given once. -/
def option? (given : List (String × String)) (name : String) : Except String (Option String) :=
  match given.filter (·.1 = name) with
  | [] => .ok none
  | [o] => .ok (some o.2)
  | _ => .error s!"the argument '{name}' cannot be used multiple times"

def quietPeriod? (value : String) : Except String UInt64 :=
  (Frame.parseLength value.toList).mapError fun e => s!"invalid value '{value}': {e.message}"

def ofArguments : List String → Except String Command
  | "serve" :: args => do
    let given ← options? ["--root", "--peer"] args
    let root ← option? given "--root"
    let peer ← option? given "--peer"
    return .serve root (peer.getD "client")
  | "config" :: args => do
    let given ← options? ["--root", "--quiet-period-ms"] args
    let root ← option? given "--root"
    let quietPeriod ← (← option? given "--quiet-period-ms").mapM quietPeriod?
    return .config root { quietPeriod := quietPeriod }
  | _ => throw usage

end Command
end EditSync
