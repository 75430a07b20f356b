import EditSync.Proofs.Settings.Loading
import EditSync.Proofs.Toml.Lines

/-! Printed settings. The text that describes settings says all that they say, so settings that were loaded
can be printed, kept as the file of a project, and loaded again. -/

namespace EditSync.Settings

open Toml SettingsLayer

def optionalEntry {α : Type} (name : String) (write : α → String) (value : α → Value) (a : Option α) :
    List Entry :=
  (a.map fun a => ⟨name, write a, value a⟩).toList

def entries (s : Settings) : List Entry :=
  ⟨"quietPeriodMs", .ofList (Nat.toDigits 10 s.quietPeriod.toNat), .integer s.quietPeriod.toNat⟩ ::
    optionalEntry "autoSave" tomlTruth .truth s.autoSave ++
    ⟨"resyncOnInstall", tomlTruth s.resyncOnInstall, .truth s.resyncOnInstall⟩ ::
    ⟨"serverEndpoint", quote s.serverEndpoint, .text s.serverEndpoint⟩ ::
    optionalEntry "workspaceRoot" quote .text s.workspaceRoot

theorem line_eq (e : Entry) : e.line = (tomlLine e.name e.text).toList := by
  have hequals : " = ".toList = [' ', '=', ' '] := rfl
  have hend : "\n".toList = ['\n'] := rfl
  simp [tomlLine, Entry.line, hequals, hend]

theorem flatMap_line_optionalEntry {α : Type} (name : String) (write : α → String) (value : α → Value)
    (a : Option α) :
    (optionalEntry name write value a).flatMap Entry.line =
      ((a.map fun a => tomlLine name (write a)).getD "").toList := by
  cases a with
  | none => rfl
  | some a => simp [optionalEntry, line_eq]

theorem toList_toToml (s : Settings) : s.toToml.toList = s.entries.flatMap Entry.line := by
  simp only [toToml, String.toList_append, entries, List.flatMap_append, List.flatMap_cons, List.append_assoc,
    List.cons_append, flatMap_line_optionalEntry, line_eq]

theorem sound_optionalEntry {α : Type} {name : String} {write : α → String} {value : α → Value}
    (hname : IsBare name) (hwrite : ∀ a, Means (write a).toList (value a)) (a : Option α) :
    ∀ e ∈ optionalEntry name write value a, e.Sound := by
  intro e he
  obtain ⟨a, -, rfl⟩ := Option.map_eq_some_iff.1 (Option.mem_toList.1 he)
  exact ⟨hname, hwrite a⟩

/-- Every line has a bare name of its own and a value that is written as such. -/
theorem sound_entries (s : Settings) : (∀ e ∈ s.entries, e.Sound) ∧ (s.entries.map Entry.name).Nodup := by
  have hbare : ∀ name ∈ fieldNames, IsBare name := by decide
  simp only [fieldNames, List.forall_mem_cons] at hbare
  obtain ⟨hquiet, hsave, hresync, hendpoint, hroot, -⟩ := hbare
  constructor
  · simp only [entries, List.forall_mem_append, List.forall_mem_cons, List.cons_append]
    refine ⟨⟨hquiet, ?_⟩, sound_optionalEntry hsave means_truth _, ⟨hresync, means_truth _⟩,
      ⟨hendpoint, means_quote _⟩, sound_optionalEntry hroot means_quote _⟩
    rw [String.toList_ofList]
    exact means_toDigits s.quietPeriod
  · cases ha : s.autoSave <;> cases hw : s.workspaceRoot <;> simp [entries, optionalEntry, ha, hw]

theorem word?_toNat (n : UInt64) : word? (.integer n.toNat) = some n := by
  have hsize : (n.toNat : Int) < UInt64.size := Int.ofNat_lt.2 n.toNat_lt
  rw [word?, if_pos ⟨Int.natCast_nonneg _, hsize⟩, Int.toNat_natCast, UInt64.ofNat_toNat]

/-- The text says what the settings say. -/
theorem ofToml?_toToml (s : Settings) : ofToml? s.toToml = some s.layer := by
  obtain ⟨hsound, hnames⟩ := s.sound_entries
  obtain ⟨d, hparse, hvalue⟩ := parse?_of_lines s.toList_toToml hsound hnames
  rw [ofToml?, hparse]
  cases ha : s.autoSave <;> cases hw : s.workspaceRoot <;>
    simp [setting, hvalue, entries, said_cons, said_nil, optionalEntry, layer, ha, hw, word?_toNat, truth?, text?]

/-- Settings that make sense are loaded from the text that they are printed as. -/
theorem load_toToml {s : Settings} (hquiet : s.quietPeriod ≠ 0)
    (hendpoint : Text.trim s.serverEndpoint.toList ≠ []) (userPath root : String) :
    load userPath .absent (some (root, .ofOctets (Text.Utf8.encode s.toToml.toList))) none =
      (s, [⟨.info, s!"Found config file: {Path.join root fileName}"⟩]) := by
  have hfile : ConfigFile.ofOctets (Text.Utf8.encode s.toToml.toList) = .text s.toToml := by
    rw [ConfigFile.ofOctets, Text.Utf8.decode?_encode, Option.elim_some, String.ofList_toList]
  have hlayer : (ConfigFile.text s.toToml).layer? = some s.layer := ofToml?_toToml s
  have hmerged : (mergeAll (sources .absent (some (root, .text s.toToml)) none)).getD {} = s.layer := by
    rw [sources, Option.bind_some, hlayer]
    simp [mergeAll, merge, ConfigFile.layer?, layer, SettingsLayer.orElse, defaults]
  have hsettings : ofLayer s.layer = .ok s := by
    have hnonzero : s.layer.quietPeriod ≠ some 0 := fun h => hquiet (Option.some.inj h)
    have hblank : (s.layer.serverEndpoint.any fun e => decide (Text.trim e.toList = [])) = false :=
      decide_eq_false hendpoint
    rw [ofLayer, if_neg hnonzero, if_neg (by simp [hblank])]
    rfl
  rw [hfile, load_eq, hmerged, hsettings]
  simp only [loadUser, projectEvents, loadProject, Option.map_some, Option.getD_some, ofToml?_toToml,
    List.nil_append]

/-- Settings that were loaded, printed, and kept as the file of a project, load as the same settings again if
there is nothing else to load, and there is nothing to tell but that the file was found. -/
theorem printed_loads_back (userPath : String) (user : ConfigFile) (project : Option (String × ConfigFile))
    (overrides : Option SettingsLayer) (userPath' root : String) :
    let s := (load userPath user project overrides).1
    load userPath' .absent (some (root, .ofOctets (Text.Utf8.encode s.toToml.toList))) none =
      (s, [⟨.info, s!"Found config file: {Path.join root fileName}"⟩]) :=
  load_toToml (sensible_load userPath).1 (sensible_load userPath).2 userPath' root

end EditSync.Settings
