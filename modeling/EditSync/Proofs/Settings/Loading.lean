import EditSync.Proofs.Settings.Layers
import EditSync.Settings.Load

/-! Loaded settings. What the files and the overrides say last counts, over the defaults; a file that is
broken says as little as one that is not there, and that is told. Settings that make no sense are given up as
a whole, so that what is loaded always makes sense. -/

namespace EditSync

open SettingsLayer

/-- A quiet period takes time and an endpoint has a name, where anything is said about them. -/
def SettingName.Sensible (said : (s : SettingName) → Option s.Value) : Prop :=
  said .quietPeriod ≠ some 0 ∧ ∀ e, said .serverEndpoint = some e → Text.trim e.toList ≠ []

namespace ConfigFile

def layer? : ConfigFile → Option SettingsLayer
  | .absent | .unreadable => none
  | .text contents => ofToml? contents

def Broken (file : ConfigFile) : Prop := file ≠ .absent ∧ file.layer? = none

end ConfigFile

namespace Settings

def layer (s : Settings) : SettingsLayer where
  quietPeriod := some s.quietPeriod
  autoSave := s.autoSave
  resyncOnInstall := some s.resyncOnInstall
  serverEndpoint := some s.serverEndpoint
  workspaceRoot := s.workspaceRoot

/-- The layers that are loaded, the lowest first. -/
def sources (user : ConfigFile) (project : Option (String × ConfigFile))
    (overrides : Option SettingsLayer) : List (Option SettingsLayer) :=
  [some defaults, user.layer?, project.bind (·.2.layer?), overrides]

/-- Settings say what their layer says, and what the defaults say where that is nothing. -/
theorem ofLayer_of_sensible {l : SettingsLayer} (h : SettingName.Sensible l.get) :
    ∃ s, ofLayer l = .ok s ∧ s.layer = l.orElse defaults := by
  have hquiet : l.quietPeriod ≠ some 0 := h.1
  have hblank : (l.serverEndpoint.any fun e => decide (Text.trim e.toList = [])) = false := by
    cases he : l.serverEndpoint with
    | none => rfl
    | some e => exact decide_eq_false (h.2 e he)
  refine ⟨_, by rw [ofLayer, if_neg hquiet, if_neg (by simp [hblank])], ?_⟩
  cases hq : l.quietPeriod <;> cases hr : l.resyncOnInstall <;> cases he : l.serverEndpoint <;>
    simp [layer, SettingsLayer.orElse, defaults, hq, hr, he]

theorem ofLayer_of_not_sensible {l : SettingsLayer} (h : ¬ SettingName.Sensible l.get) :
    ∃ e, ofLayer l = .error e := by
  rw [ofLayer]
  split
  · exact ⟨_, rfl⟩
  · next hquiet =>
    split
    · exact ⟨_, rfl⟩
    · next hblank =>
      refine absurd ⟨hquiet, fun e he htrim => hblank ?_⟩ h
      have he : l.serverEndpoint = some e := he
      rw [he]
      exact decide_eq_true htrim

def projectEvents (project : Option (String × ConfigFile)) : List LoadEvent :=
  ((project.map fun p => loadProject p.1 p.2).getD (none, [])).2

theorem loadUser_fst (path : String) (file : ConfigFile) : (loadUser path file).1 = file.layer? := by
  cases file with
  | absent | unreadable => rfl
  | text contents =>
    rw [loadUser, ConfigFile.layer?]
    cases ofToml? contents <;> rfl

theorem loadProject_fst (root : String) (file : ConfigFile) : (loadProject root file).1 = file.layer? := by
  cases file with
  | absent | unreadable => rfl
  | text contents =>
    rw [loadProject, ConfigFile.layer?]
    cases ofToml? contents <;> rfl

/-- A file that is broken is told of as such, and no other is. -/
theorem loadUser_snd (path : String) (file : ConfigFile) :
    (file.Broken → ∃ task ∈ ["read", "parse"],
        ⟨.warning, s!"Failed to load user config: failed to {task} {path}"⟩ ∈ (loadUser path file).2) ∧
      (¬ file.Broken → ∀ e ∈ (loadUser path file).2, e.kind = .info) := by
  cases file with
  | absent => exact ⟨fun h => absurd rfl h.1, fun _ e he => absurd he List.not_mem_nil⟩
  | unreadable => exact ⟨fun _ => ⟨"read", by simp, List.mem_singleton.2 rfl⟩, fun h => absurd ⟨nofun, rfl⟩ h⟩
  | text contents =>
    rw [loadUser]
    cases hlayer : ofToml? contents with
    | none => exact ⟨fun _ => ⟨"parse", by simp, List.mem_singleton.2 rfl⟩, fun h => absurd ⟨nofun, hlayer⟩ h⟩
    | some layer =>
      refine ⟨fun h => absurd (hlayer.symm.trans h.2) (by simp), fun _ e he => ?_⟩
      rw [List.mem_singleton.1 he]

theorem loadProject_snd (root : String) (file : ConfigFile) :
    (file.Broken → ∃ task ∈ ["read", "parse"],
        ⟨.warning, s!"Failed to {task} {fileName}"⟩ ∈ (loadProject root file).2) ∧
      (¬ file.Broken → ∀ e ∈ (loadProject root file).2, e.kind = .info) := by
  cases file with
  | absent => exact ⟨fun h => absurd rfl h.1, fun _ e he => absurd he List.not_mem_nil⟩
  | unreadable =>
    exact ⟨fun _ => ⟨"read", by simp, List.mem_cons_of_mem _ (List.mem_singleton.2 rfl)⟩,
      fun h => absurd ⟨nofun, rfl⟩ h⟩
  | text contents =>
    rw [loadProject]
    cases hlayer : ofToml? contents with
    | none =>
      exact ⟨fun _ => ⟨"parse", by simp, List.mem_cons_of_mem _ (List.mem_singleton.2 rfl)⟩,
        fun h => absurd ⟨nofun, hlayer⟩ h⟩
    | some layer =>
      refine ⟨fun h => absurd (hlayer.symm.trans h.2) (by simp), fun _ e he => ?_⟩
      rw [List.mem_singleton.1 he]

section

variable (userPath : String) (user : ConfigFile) (project : Option (String × ConfigFile))
  (overrides : Option SettingsLayer)

theorem load_eq :
    load userPath user project overrides =
      match ofLayer ((mergeAll (sources user project overrides)).getD {}) with
      | .ok settings => (settings, (loadUser userPath user).2 ++ projectEvents project)
      | .error e =>
        ({}, (loadUser userPath user).2 ++ projectEvents project ++
          [⟨.warning, s!"{e.message}; using defaults"⟩]) := by
  have hproject : ((project.map fun p => loadProject p.1 p.2).getD (none, [])).1 =
      project.bind (·.2.layer?) := by
    cases project with
    | none => rfl
    | some p => exact loadProject_fst p.1 p.2
  rw [load, sources, ← loadUser_fst userPath, ← hproject]
  rfl

theorem get_merged (s : SettingName) :
    ((mergeAll (sources user project overrides)).getD {}).get s =
      lastSaid (sources user project overrides) s := by
  rw [get_getD, said_mergeAll]

variable {user project overrides}

/-- Sensible settings are those that were said last. -/
theorem load_of_sensible (h : SettingName.Sensible (lastSaid (sources user project overrides))) :
    (∀ s, (load userPath user project overrides).1.layer.get s =
        lastSaid (sources user project overrides) s) ∧
      (load userPath user project overrides).2 = (loadUser userPath user).2 ++ projectEvents project := by
  have hmerged := funext (get_merged user project overrides)
  obtain ⟨settings, hof, hlayer⟩ := ofLayer_of_sensible (hmerged ▸ h)
  rw [load_eq, hof]
  refine ⟨fun s => ?_, rfl⟩
  -- the defaults are the lowest layer already
  rw [hlayer, get_orElse, get_merged, sources, lastSaid_cons, Option.or_assoc]
  exact congrArg _ Option.or_self

theorem load_of_not_sensible (h : ¬ SettingName.Sensible (lastSaid (sources user project overrides))) :
    (load userPath user project overrides).1 = {} ∧
      ∃ e, (load userPath user project overrides).2 = (loadUser userPath user).2 ++ projectEvents project ++
        [⟨.warning, e⟩] := by
  have hmerged := funext (get_merged user project overrides)
  obtain ⟨e, hof⟩ := ofLayer_of_not_sensible (hmerged ▸ h)
  rw [load_eq, hof]
  exact ⟨rfl, _, rfl⟩

/-- Settings that were loaded make sense. -/
theorem sensible_load :
    (load userPath user project overrides).1.quietPeriod ≠ 0 ∧
      Text.trim (load userPath user project overrides).1.serverEndpoint.toList ≠ [] := by
  by_cases h : SettingName.Sensible (lastSaid (sources user project overrides))
  · have hsaid := (load_of_sensible userPath h).1
    refine ⟨fun hzero => h.1 ?_, h.2 _ (hsaid .serverEndpoint).symm⟩
    rw [← hsaid .quietPeriod, ← hzero]
    rfl
  · rw [(load_of_not_sensible userPath h).1]
    decide

/-- What is loaded depends on what the files say and on nothing else about them. -/
theorem load_fst_congr {user' : ConfigFile} {project' : Option (String × ConfigFile)}
    (h : sources user project overrides = sources user' project' overrides) :
    (load userPath user project overrides).1 = (load userPath user' project' overrides).1 := by
  rw [load_eq, load_eq, h]
  cases ofLayer ((mergeAll (sources user' project' overrides)).getD {}) <;> rfl

/-- Everything is well if no file is broken and the settings make sense, and only then nothing else is
told. -/
theorem forall_info_iff :
    (∀ e ∈ (load userPath user project overrides).2, e.kind = .info) ↔
      ¬ user.Broken ∧ (∀ root file, project = some (root, file) → ¬ file.Broken) ∧
        SettingName.Sensible (lastSaid (sources user project overrides)) := by
  have hproject : (∀ e ∈ projectEvents project, e.kind = .info) ↔
      ∀ root file, project = some (root, file) → ¬ file.Broken := by
    constructor
    · rintro hinfo root file rfl hbroken
      obtain ⟨task, -, hmem⟩ := (loadProject_snd root file).1 hbroken
      exact absurd (hinfo _ hmem) (by simp)
    · intro h
      cases project with
      | none => exact fun _ he => absurd he List.not_mem_nil
      | some p => exact (loadProject_snd p.1 p.2).2 (h p.1 p.2 rfl)
  have huser : (∀ e ∈ (loadUser userPath user).2, e.kind = .info) ↔ ¬ user.Broken := by
    refine ⟨fun hinfo hbroken => ?_, (loadUser_snd userPath user).2⟩
    obtain ⟨task, -, hmem⟩ := (loadUser_snd userPath user).1 hbroken
    exact absurd (hinfo _ hmem) (by simp)
  by_cases h : SettingName.Sensible (lastSaid (sources user project overrides))
  · rw [(load_of_sensible userPath h).2, List.forall_mem_append, huser, hproject]
    simp only [h, and_true]
  · obtain ⟨e, he⟩ := (load_of_not_sensible userPath h).2
    rw [he, List.forall_mem_append, List.forall_mem_singleton]
    exact iff_of_false (fun hinfo => absurd hinfo.2 (by simp)) fun hall => h hall.2.2

/-- The events of a load begin with those about the files. -/
theorem mem_load_of_mem {e : LoadEvent} (h : e ∈ (loadUser userPath user).2 ++ projectEvents project) :
    e ∈ (load userPath user project overrides).2 := by
  by_cases hsensible : SettingName.Sensible (lastSaid (sources user project overrides))
  · rwa [(load_of_sensible userPath hsensible).2]
  · obtain ⟨last, hlast⟩ := (load_of_not_sensible userPath hsensible).2
    rw [hlast]
    exact List.mem_append_left _ h

end

/-- Layers on each other come to what the last says that says anything, setting by setting; there is none if
all are missing, and it does not matter how they are put together. What is loaded is that over the defaults
if it makes sense, and else the defaults, so it always makes sense. A broken file changes no more than a
missing one and is told of; nothing but broken files and senseless settings is. -/
theorem loads_last_said :
    (∀ layers s, said (mergeAll layers) s = lastSaid layers s) ∧
      (∀ layers, mergeAll layers = none ↔ ∀ l ∈ layers, l = none) ∧
      (∀ a b c, merge (merge a b) c = merge a (merge b c)) ∧
      (∀ a, merge none a = a ∧ merge a none = a) ∧
      ∀ (userPath : String) (user : ConfigFile) (project : Option (String × ConfigFile))
        (overrides : Option SettingsLayer),
        let layers := sources user project overrides
        let loaded := load userPath user project overrides
        (SettingName.Sensible (lastSaid layers) → ∀ s, loaded.1.layer.get s = lastSaid layers s) ∧
          (¬ SettingName.Sensible (lastSaid layers) → loaded.1 = {}) ∧
          (loaded.1.quietPeriod ≠ 0 ∧ Text.trim loaded.1.serverEndpoint.toList ≠ []) ∧
          (user.Broken → loaded.1 = (load userPath .absent project overrides).1 ∧
            ∃ task ∈ ["read", "parse"],
              ⟨.warning, s!"Failed to load user config: failed to {task} {userPath}"⟩ ∈ loaded.2) ∧
          (∀ root file, project = some (root, file) → file.Broken →
            (∀ missing ∈ [none, some (root, .absent)],
              loaded.1 = (load userPath user missing overrides).1) ∧
            ∃ task ∈ ["read", "parse"], ⟨.warning, s!"Failed to {task} {fileName}"⟩ ∈ loaded.2) ∧
          ((∀ e ∈ loaded.2, e.kind = .info) ↔
            ¬ user.Broken ∧ (∀ root file, project = some (root, file) → ¬ file.Broken) ∧
              SettingName.Sensible (lastSaid layers)) := by
  refine ⟨said_mergeAll, mergeAll_eq_none_iff, merge_assoc, fun a => ⟨merge_none_left a, merge_none_right a⟩,
    fun userPath user project overrides => ⟨fun h => (load_of_sensible userPath h).1,
      fun h => (load_of_not_sensible userPath h).1, sensible_load userPath, fun hbroken => ?_, ?_,
      forall_info_iff userPath⟩⟩
  · obtain ⟨task, htask, hmem⟩ := (loadUser_snd userPath user).1 hbroken
    refine ⟨load_fst_congr userPath ?_, task, htask, mem_load_of_mem userPath (List.mem_append_left _ hmem)⟩
    rw [sources, hbroken.2]
    rfl
  · rintro root file rfl hbroken
    obtain ⟨task, htask, hmem⟩ := (loadProject_snd root file).1 hbroken
    refine ⟨fun missing hmissing => load_fst_congr userPath ?_, task, htask,
      mem_load_of_mem userPath (List.mem_append_right _ hmem)⟩
    have hsilent : missing.bind (·.2.layer?) = none := by
      simp only [List.mem_cons, List.not_mem_nil, or_false] at hmissing
      rcases hmissing with rfl | rfl <;> rfl
    rw [sources, sources, hsilent, Option.bind_some, hbroken.2]

def brokenOff : ConfigFile := .text "autoSave = false\nquietPeriodMs = ["

def shortPeriod : ConfigFile := .text "quietPeriodMs = 250\nautoSave = false\n"

/-- The file of the user is broken, that of the project says less than the overrides or more, and other
overrides make no sense. -/
theorem loads_last_said_overridden :
    let userPath := "/home/.config/tandem/tandem.toml"
    let load := load userPath brokenOff (some ("/p", shortPeriod))
    brokenOff.Broken ∧
      (load (some { autoSave := some true })).1.layer.get .quietPeriod = some 250 ∧
      (load (some { autoSave := some true })).1.layer.get .autoSave = some true ∧
      (∃ task ∈ ["read", "parse"],
        ⟨.warning, s!"Failed to load user config: failed to {task} {userPath}"⟩ ∈
          (load (some { autoSave := some true })).2) ∧
      (load (some { quietPeriod := some 0 })).1 = {} := by
  intro userPath load
  have hall := loads_last_said.2.2.2.2 userPath brokenOff (some ("/p", shortPeriod))
  have hbroken : brokenOff.Broken := ⟨nofun, by decide +kernel⟩
  have hshort : shortPeriod.layer? = some { quietPeriod := some 250, autoSave := some false } := by
    decide +kernel
  have hlayers (overrides : SettingsLayer) : sources brokenOff (some ("/p", shortPeriod)) (some overrides) =
      [some defaults, none, some { quietPeriod := some 250, autoSave := some false }, some overrides] := by
    rw [sources, hbroken.2, Option.bind_some, hshort]
  have hsensible : SettingName.Sensible (lastSaid
      (sources brokenOff (some ("/p", shortPeriod)) (some { autoSave := some true }))) := by
    rw [hlayers]
    refine ⟨by decide, fun e he => ?_⟩
    obtain rfl := Option.some.inj (he.symm.trans rfl : some e = some defaultEndpoint)
    decide
  have hsaid := (hall (some { autoSave := some true })).1 hsensible
  refine ⟨hbroken, (hsaid .quietPeriod).trans ?_, (hsaid .autoSave).trans ?_,
    ((hall (some { autoSave := some true })).2.2.2.1 hbroken).2,
    (hall (some { quietPeriod := some 0 })).2.1 fun h => h.1 ?_⟩
  · rw [hlayers]; rfl
  · rw [hlayers]; rfl
  · rw [hlayers]; rfl

end Settings
end EditSync
