import EditSync.Json.Record
import EditSync.Toml.Reader

/-! Settings in layers. A layer says something about each setting or nothing; of several layers the last
one that says something counts. -/

namespace EditSync

open Json

structure SettingsLayer where
  /-- Milliseconds without a change before changes are sent. -/
  quietPeriod : Option UInt64 := none
  /-- Whether documents are saved by themselves. -/
  autoSave : Option Bool := none
  /-- Whether the whole content is sent after a document is opened. -/
  resyncOnInstall : Option Bool := none
  serverEndpoint : Option String := none
  /-- The folder that workspace paths begin at. -/
  workspaceRoot : Option String := none
  deriving DecidableEq, Repr, Inhabited

namespace SettingsLayer

/-- The settings of `above`, and of `below` where that says nothing. -/
def orElse (above below : SettingsLayer) : SettingsLayer where
  quietPeriod := above.quietPeriod.or below.quietPeriod
  autoSave := above.autoSave.or below.autoSave
  resyncOnInstall := above.resyncOnInstall.or below.resyncOnInstall
  serverEndpoint := above.serverEndpoint.or below.serverEndpoint
  workspaceRoot := above.workspaceRoot.or below.workspaceRoot

/-- Puts one layer on another; a layer may be missing. -/
def merge (below above : Option SettingsLayer) : Option SettingsLayer :=
  match below, above with
  | some b, some a => some (a.orElse b)
  | some b, none => some b
  | none, a => a

def mergeAll (layers : List (Option SettingsLayer)) : Option SettingsLayer := layers.foldl merge none

def fieldNames : List String :=
  ["quietPeriodMs", "autoSave", "resyncOnInstall", "serverEndpoint", "workspaceRoot"]

def toJson (l : SettingsLayer) : Json :=
  .object (optionalMember "quietPeriodMs" word l.quietPeriod ++ optionalMember "autoSave" .bool l.autoSave ++
    optionalMember "resyncOnInstall" .bool l.resyncOnInstall ++
    optionalMember "serverEndpoint" .str l.serverEndpoint ++
    optionalMember "workspaceRoot" .str l.workspaceRoot)

def ofJson? (v : Json) : Option SettingsLayer := do
  let fs ← fields? fieldNames v
  let quietPeriod ← fs.maybe "quietPeriodMs" word?
  let autoSave ← fs.maybe "autoSave" bool?
  let resyncOnInstall ← fs.maybe "resyncOnInstall" bool?
  let serverEndpoint ← fs.maybe "serverEndpoint" string?
  let workspaceRoot ← fs.maybe "workspaceRoot" string?
  some ⟨quietPeriod, autoSave, resyncOnInstall, serverEndpoint, workspaceRoot⟩

/-- A setting of a text, which has to be of the right kind if it is there. -/
def setting {α : Type} (d : Toml.Document) (name : String) (read : Toml.Value → Option α) :
    Option (Option α) :=
  match d.value? name with
  | none => some none
  | some v => (read v).map some

def word? : Toml.Value → Option UInt64
  | .integer n => if 0 ≤ n ∧ n < UInt64.size then some (UInt64.ofNat n.toNat) else none
  | _ => none

def truth? : Toml.Value → Option Bool
  | .truth b => some b
  | _ => none

def text? : Toml.Value → Option String
  | .text s => some s
  | _ => none

/-- The layer that a text describes; what it says besides does not count. -/
def ofToml? (text : String) : Option SettingsLayer := do
  let d ← Toml.parse? text
  let quietPeriod ← setting d "quietPeriodMs" word?
  let autoSave ← setting d "autoSave" truth?
  let resyncOnInstall ← setting d "resyncOnInstall" truth?
  let serverEndpoint ← setting d "serverEndpoint" text?
  let workspaceRoot ← setting d "workspaceRoot" text?
  some ⟨quietPeriod, autoSave, resyncOnInstall, serverEndpoint, workspaceRoot⟩

end SettingsLayer
end EditSync
