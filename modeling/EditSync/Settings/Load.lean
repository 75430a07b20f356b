import EditSync.Path
import EditSync.Settings.Effective
import EditSync.Text.Utf8

/-! Loading settings from the files of the user and of the project. A file that cannot be read or
understood is left out and reported; settings that make no sense are given up for the defaults. -/

namespace EditSync

/-- What is found where a settings file may be. -/
inductive ConfigFile where
  | absent
  /-- Something that is no text. -/
  | unreadable
  | text (contents : String)
  deriving DecidableEq, Repr, Inhabited

def ConfigFile.ofOctets (bs : List UInt8) : ConfigFile :=
  (Text.Utf8.decode? bs).elim .unreadable fun cs => .text (.ofList cs)

inductive LoadEventKind where
  | info
  | warning
  deriving DecidableEq, Repr, Inhabited

/-- Something worth telling about how settings were loaded. -/
structure LoadEvent where
  kind : LoadEventKind
  message : String
  deriving DecidableEq, Repr, Inhabited

namespace Settings

def fileName : String := "tandem.toml"

/-- The file below a folder for settings. -/
def fileBelow (folder : String) : String := Path.join (Path.join folder "tandem") fileName

/-- The settings file of a user: in the folder for settings that the user named, or in the usual one at
home. -/
def userFile (home : String) (configHome : Option String) : Option String :=
  match configHome.filter (· ≠ "") with
  | some folder => some (fileBelow folder)
  | none => if home = "" then none else some (fileBelow (Path.join home ".config"))

/-- The layer of the user, and what there is to tell about it. -/
def loadUser (path : String) : ConfigFile → Option SettingsLayer × List LoadEvent
  | .absent => (none, [])
  | .unreadable => (none, [⟨.warning, s!"Failed to load user config: failed to read {path}"⟩])
  | .text contents =>
    match SettingsLayer.ofToml? contents with
    | some layer => (some layer, [⟨.info, "Loaded user config"⟩])
    | none => (none, [⟨.warning, s!"Failed to load user config: failed to parse {path}"⟩])

/-- The layer of the project in a folder, and what there is to tell about it. -/
def loadProject (root : String) (file : ConfigFile) : Option SettingsLayer × List LoadEvent :=
  let found : LoadEvent := ⟨.info, s!"Found config file: {Path.join root fileName}"⟩
  match file with
  | .absent => (none, [])
  | .unreadable => (none, [found, ⟨.warning, s!"Failed to read {fileName}"⟩])
  | .text contents =>
    match SettingsLayer.ofToml? contents with
    | some layer => (some layer, [found])
    | none => (none, [found, ⟨.warning, s!"Failed to parse {fileName}"⟩])

/-- Merges the layers over the defaults. -/
def load (userPath : String) (user : ConfigFile) (project : Option (String × ConfigFile))
    (overrides : Option SettingsLayer) : Settings × List LoadEvent :=
  let (userLayer, userEvents) := loadUser userPath user
  let (projectLayer, projectEvents) := (project.map fun p => loadProject p.1 p.2).getD (none, [])
  let merged := SettingsLayer.mergeAll [some defaults, userLayer, projectLayer, overrides]
  let events := userEvents ++ projectEvents
  match ofLayer (merged.getD {}) with
  | .ok settings => (settings, events)
  | .error e => ({}, events ++ [⟨.warning, s!"{e.message}; using defaults"⟩])

end Settings
end EditSync
