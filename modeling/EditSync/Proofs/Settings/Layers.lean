import EditSync.Settings.Layer
import Mathlib.Data.List.Induction
import Mathlib.Data.Option.Basic

/-! Layers of settings on each other. What several layers come to is, setting by setting, what the last of
them says that says anything; so it does not matter how they are put together, and a layer that is missing
is no layer. -/

namespace EditSync

inductive SettingName where
  | quietPeriod
  | autoSave
  | resyncOnInstall
  | serverEndpoint
  | workspaceRoot
  deriving DecidableEq, Repr, Inhabited

namespace SettingName

abbrev Value : SettingName → Type
  | quietPeriod => UInt64
  | autoSave | resyncOnInstall => Bool
  | serverEndpoint | workspaceRoot => String

end SettingName

namespace SettingsLayer

def get (l : SettingsLayer) : (s : SettingName) → Option s.Value
  | .quietPeriod => l.quietPeriod
  | .autoSave => l.autoSave
  | .resyncOnInstall => l.resyncOnInstall
  | .serverEndpoint => l.serverEndpoint
  | .workspaceRoot => l.workspaceRoot

theorem eq_of_get {a b : SettingsLayer} (h : ∀ s, a.get s = b.get s) : a = b := by
  cases a
  cases b
  rw [SettingsLayer.mk.injEq]
  exact ⟨h .quietPeriod, h .autoSave, h .resyncOnInstall, h .serverEndpoint, h .workspaceRoot⟩

theorem get_orElse (above below : SettingsLayer) (s : SettingName) :
    (above.orElse below).get s = (above.get s).or (below.get s) := by
  cases s <;> rfl

def said (l : Option SettingsLayer) (s : SettingName) : Option s.Value := l.bind (·.get s)

theorem get_getD (l : Option SettingsLayer) (s : SettingName) : (l.getD {}).get s = said l s := by
  cases l with
  | none => cases s <;> rfl
  | some l => rfl

def lastSaid (layers : List (Option SettingsLayer)) (s : SettingName) : Option s.Value :=
  (layers.filterMap (said · s)).getLast?

section

variable (a b c : Option SettingsLayer)

theorem merge_none_left : merge none a = a := by cases a <;> rfl

theorem merge_none_right : merge a none = a := by cases a <;> rfl

theorem merge_eq_none_iff : merge a b = none ↔ a = none ∧ b = none := by
  cases a <;> cases b <;> simp [merge]

theorem said_merge (s : SettingName) : said (merge a b) s = (said b s).or (said a s) := by
  cases a with
  | none => rw [merge_none_left]; exact Option.or_none.symm
  | some below =>
    cases b with
    | none => rfl
    | some above => exact get_orElse above below s

theorem merge_assoc : merge (merge a b) c = merge a (merge b c) := by
  cases a with
  | none => rw [merge_none_left, merge_none_left]
  | some below =>
    cases b with
    | none => rw [merge_none_right, merge_none_left]
    | some middle =>
      cases c with
      | none => rfl
      | some above =>
        refine congrArg some (eq_of_get fun s => ?_)
        rw [get_orElse, get_orElse, get_orElse, get_orElse, Option.or_assoc]

end

variable (layers : List (Option SettingsLayer))

theorem mergeAll_concat (l : Option SettingsLayer) :
    mergeAll (layers ++ [l]) = merge (mergeAll layers) l := by
  rw [mergeAll, List.foldl_append]
  rfl

theorem lastSaid_concat (l : Option SettingsLayer) (s : SettingName) :
    lastSaid (layers ++ [l]) s = (said l s).or (lastSaid layers s) := by
  rw [lastSaid, List.filterMap_append, List.getLast?_append, lastSaid]
  cases h : said l s <;> simp [h]

/-- Whatever the lowest layer says counts where no other says anything. -/
theorem lastSaid_cons (l : Option SettingsLayer) (s : SettingName) :
    lastSaid (l :: layers) s = (lastSaid layers s).or (said l s) := by
  rw [lastSaid, List.filterMap_cons, lastSaid]
  cases said l s with
  | none => exact Option.or_none.symm
  | some v =>
    dsimp only
    rw [List.getLast?_cons]
    cases (layers.filterMap (said · s)).getLast? <;> rfl

theorem said_mergeAll (s : SettingName) : said (mergeAll layers) s = lastSaid layers s := by
  induction layers using List.reverseRecOn with
  | nil => rfl
  | append_singleton layers l ih => rw [mergeAll_concat, said_merge, lastSaid_concat, ih]

theorem mergeAll_eq_none_iff : mergeAll layers = none ↔ ∀ l ∈ layers, l = none := by
  induction layers using List.reverseRecOn with
  | nil => exact iff_of_true rfl fun l hl => absurd hl List.not_mem_nil
  | append_singleton layers l ih =>
    rw [mergeAll_concat, merge_eq_none_iff, ih, List.forall_mem_append, List.forall_mem_singleton]

end SettingsLayer
end EditSync
