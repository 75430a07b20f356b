import EditSync.Editor.Session
import EditSync.Settings.Layer
import EditSync.Text.Blank

/-! Settings that say something about everything. They are made from a layer, with defaults for what it
leaves open, and can be printed as a text that describes them. -/

namespace EditSync

open Json

structure Settings where
  quietPeriod : UInt64 := 1000
  autoSave : Option Bool := none
  resyncOnInstall : Bool := false
  serverEndpoint : String := defaultEndpoint
  workspaceRoot : Option String := none
  deriving DecidableEq, Repr, Inhabited

namespace Settings

/-- The layer that every other one lies on. -/
def defaults : SettingsLayer where
  quietPeriod := some 1000
  resyncOnInstall := some false
  serverEndpoint := some defaultEndpoint

/-- A quiet period of nothing and a blank endpoint are refused, in this order. -/
def ofLayer (l : SettingsLayer) : Except SyncError Settings :=
  let fallback : Settings := {}
  if l.quietPeriod = some 0 then .error (.config "quietPeriodMs must be greater than zero")
  else if l.serverEndpoint.any fun e => Text.trim e.toList = [] then
    .error (.config "serverEndpoint must not be empty")
  else .ok
    { quietPeriod := l.quietPeriod.getD fallback.quietPeriod
      autoSave := l.autoSave
      resyncOnInstall := l.resyncOnInstall.getD fallback.resyncOnInstall
      serverEndpoint := l.serverEndpoint.getD fallback.serverEndpoint
      workspaceRoot := l.workspaceRoot }

def toJson (s : Settings) : Json :=
  .object ([("quietPeriodMs", word s.quietPeriod)] ++ optionalMember "autoSave" .bool s.autoSave ++
    [("resyncOnInstall", .bool s.resyncOnInstall), ("serverEndpoint", .str s.serverEndpoint)] ++
    optionalMember "workspaceRoot" .str s.workspaceRoot)

def tomlLine (name value : String) : String := name ++ " = " ++ value ++ "\n"

def tomlTruth (b : Bool) : String := if b then "true" else "false"

/-- One line for each setting that has a value. -/
def toToml (s : Settings) : String :=
  let optional {α : Type} (name : String) (write : α → String) (a : Option α) : String :=
    (a.map fun a => tomlLine name (write a)).getD ""
  tomlLine "quietPeriodMs" (String.ofList (Nat.toDigits 10 s.quietPeriod.toNat)) ++
    optional "autoSave" tomlTruth s.autoSave ++
    tomlLine "resyncOnInstall" (tomlTruth s.resyncOnInstall) ++
    tomlLine "serverEndpoint" (Toml.quote s.serverEndpoint) ++
    optional "workspaceRoot" Toml.quote s.workspaceRoot

/-- What a client session takes from the settings. -/
def session (s : Settings) : SessionOptions :=
  ⟨s.quietPeriod, s.serverEndpoint, s.resyncOnInstall, s.autoSave⟩

end Settings
end EditSync
