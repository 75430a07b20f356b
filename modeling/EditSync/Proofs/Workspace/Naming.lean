import EditSync.Proofs.Workspace.Course

/-! Which messages name the file of a key. Nothing else makes a copy synchronized or gives it another
text: a synchronized copy is what the last message made of it that was accepted and named its key. -/

namespace EditSync

namespace Course

structure Naming where
  endpoint : String
  path : String
  deriving DecidableEq

def Naming.accepted? (n : Naming) (key : String) : Except SyncError Unit → Option Naming
  | .ok _ => if Path.clean n.path = key then some n else none
  | .error _ => none

/-- An accepted message that names a key: a change, the start of a file or its move to there. -/
def naming? (env : Setting) (key : String) (c : Course) : Input → Option Naming
  | .change endpoint change =>
    Naming.accepted? ⟨endpoint, change.location⟩ key (c.changed env endpoint change).result
  | .file endpoint o =>
    if o.action.asks then Naming.accepted? ⟨endpoint, o.path⟩ key (c.operated env endpoint o).result
    else none
  | _ => none

/-- What the last input tells that tells something, seen from the state before it. -/
def lastTold {α : Type} (env : Setting) (tells : Course → Input → Option α) (c : Course) :
    List Input → Option α
  | [] => none
  | i :: inputs => (lastTold env tells (c.step env i) inputs).or (tells c i)

variable {env : Setting} {c : Course} {key : String} {i : Input}

theorem lastTold_append {α : Type} (tells : Course → Input → Option α) (c : Course)
    (inputs later : List Input) :
    lastTold env tells c (inputs ++ later) =
      (lastTold env tells (runFrom env c inputs) later).or (lastTold env tells c inputs) := by
  induction inputs generalizing c with
  | nil => exact Option.or_none.symm
  | cons i inputs ih => rw [List.cons_append, lastTold, lastTold, ih, runFrom_cons, Option.or_assoc]

theorem lastTold_concat {α : Type} (tells : Course → Input → Option α) (c : Course)
    (inputs : List Input) (i : Input) :
    lastTold env tells c (inputs ++ [i]) =
      (tells (runFrom env c inputs) i).or (lastTold env tells c inputs) :=
  lastTold_append tells c inputs [i]

theorem Naming.accepted?_eq_some {n n' : Naming} {result : Except SyncError Unit} :
    n.accepted? key result = some n' ↔ result = .ok () ∧ Path.clean n.path = key ∧ n = n' := by
  cases result <;> simp [accepted?]

theorem eq_of_naming_change {endpoint : String} {change : TextChange} {n : Naming}
    (hn : naming? env key c (.change endpoint change) = some n) : n = ⟨endpoint, change.location⟩ :=
  (Naming.accepted?_eq_some.1 hn).2.2.symm

theorem eq_of_naming_file {endpoint : String} {o : FileOperation} {n : Naming}
    (hn : naming? env key c (.file endpoint o) = some n) : n = ⟨endpoint, o.path⟩ := by
  rw [naming?] at hn
  split at hn
  · exact (Naming.accepted?_eq_some.1 hn).2.2.symm
  · cases hn

/-- A message that is accepted asks for an analysis in the name of its sender. -/
theorem step_of_naming {n : Naming} (hn : naming? env key c i = some n) :
    Path.clean n.path = key ∧ (c.step env i).notes = c.notes ++ [.accepted key] ∧
      ∃ registry, (c.step env i).service =
        Service.schedule (c.setting env) { c.service with registry } n.path n.endpoint := by
  cases i with
  | change endpoint change =>
    obtain ⟨hok, rfl, rfl⟩ := Naming.accepted?_eq_some.1 hn
    refine ⟨rfl, ?_, ?_⟩
    · rw [step, hok]; rfl
    · rcases Service.onChange_cases (c.setting env) c.service endpoint change with
        ⟨m, -, hr⟩ | ⟨e, -, hr⟩
      · rw [step, changed, hr]; exact ⟨_, rfl⟩
      · rw [changed, hr] at hok; cases hok
  | file endpoint o =>
    rw [naming?] at hn
    split at hn
    · next hasks =>
      obtain ⟨hok, rfl, rfl⟩ := Naming.accepted?_eq_some.1 hn
      refine ⟨rfl, ?_, ?_⟩
      · rw [step, hok, if_pos hasks]; rfl
      · have h := Service.operated (c.setting env) c.service endpoint o
        rw [step, operated]
        rw [operated] at hok
        generalize Service.onFileOperation (c.setting env) c.service endpoint o = reaction at h hok
        cases h with
        | refused e => cases hok
        | tracked copy action found => exact ⟨_, rfl⟩
        | started content r action found read copies => exact ⟨_, rfl⟩
        | stopped action => rw [action] at hasks; exact absurd hasks (by decide)
        | stated state copy r action found copies =>
          rcases action with action | action <;> rw [action] at hasks <;> exact absurd hasks (by decide)
        | stayed oldPath action old same => exact ⟨_, rfl⟩
        | moved oldPath copy r action old other found copies => exact ⟨_, rfl⟩
    · cases hn
  | schedule path endpoint => cases hn
  | begin q => cases hn
  | complete a => cases hn
  | saved source => cases hn

/-- The key that it names waits from then on, for its sender or for who asked before. -/
theorem waiting_of_naming {n : Naming} (ha : env.analyses = true) (hs : c.service.Sound)
    (hn : naming? env key c i = some n) :
    ∃ q ∈ (c.step env i).service.waiting, q.key = key ∧
      (q ∈ c.service.waiting ∨ q.endpoint = n.endpoint) := by
  obtain ⟨rfl, -, registry, hservice⟩ := step_of_naming hn
  rw [hservice]
  obtain ⟨q, hq, hkey⟩ := (hs.of_registry registry).waits_schedule ha n.path n.endpoint
  refine ⟨q, hq, hkey, ?_⟩
  rcases Service.waiting_of_schedule hq with h | rfl
  · exact Or.inl h
  · exact Or.inr rfl

theorem Naming.accepted?_eq_none {n : Naming} {result : Except SyncError Unit} :
    n.accepted? key result = none ↔ result = .ok () → Path.clean n.path ≠ key := by
  cases result <;> simp [accepted?]

theorem notes_of_unnamed (hn : naming? env key c i = none) :
    ∃ news, (c.step env i).notes = c.notes ++ news ∧ .accepted key ∉ news := by
  have haccepting : ∀ (result : Except SyncError Unit) (n : Naming), n.accepted? key result = none →
      Note.accepted key ∉ accepting result n.path := by
    intro result n h
    cases result with
    | ok u => simpa [accepting, eq_comm] using Naming.accepted?_eq_none.1 h rfl
    | error e => exact List.not_mem_nil
  cases i with
  | change endpoint change =>
    have hnone := haccepting _ _ hn
    exact ⟨_, rfl, hnone⟩
  | file endpoint o =>
    refine ⟨_, rfl, ?_⟩
    rw [naming?] at hn
    split at hn
    · next hasks =>
      have hnone := haccepting _ _ hn
      rw [if_pos hasks]
      exact hnone
    · next hasks => rw [if_neg hasks]; exact List.not_mem_nil
  | schedule path endpoint => exact ⟨[], (List.append_nil _).symm, List.not_mem_nil⟩
  | begin q =>
    rw [step]
    split <;> exact ⟨[], (List.append_nil _).symm, List.not_mem_nil⟩
  | complete a =>
    rw [step]
    split
    · exact ⟨_, rfl, by simp⟩
    · exact ⟨[], (List.append_nil _).symm, List.not_mem_nil⟩
  | saved source => exact ⟨[], (List.append_nil _).symm, List.not_mem_nil⟩

variable {copy' : WorkingCopy}

theorem copy_of_unnamed_change {endpoint : String} {change : TextChange}
    (hn : naming? env key c (.change endpoint change) = none)
    (hget : (c.step env (.change endpoint change)).service.registry.copies.get? key = some copy')
    (hsync : copy'.synchronized = true) : c.service.registry.copies.get? key = some copy' := by
  rw [step, changed, Service.registry_onChange, Registry.get?_apply] at hget
  split at hget
  · next hkey =>
    -- it was not accepted, and so has ended the synchronization
    obtain rfl := Option.some.inj hget
    have hsnd := Registry.apply_snd c.source c.service.registry change endpoint
    rcases Registry.changeCopy_cases (c.service.registry.target c.source change endpoint) change with
      ⟨hok, -⟩ | ⟨-, -, hlost, -⟩
    · rcases Service.onChange_cases (c.setting env) c.service endpoint change with
        ⟨n, -, hr⟩ | ⟨e, he, -⟩
      · rw [naming?, changed, hr] at hn
        have hne := Naming.accepted?_eq_none.1 hn rfl
        exact absurd hkey.symm hne
      · have herr : (c.service.registry.apply c.source change endpoint).2 = .error e := he
        rw [hsnd, hok] at herr
        cases herr
    · exact absurd (hlost.symm.trans hsync) (by simp)
  · exact hget

theorem copy_of_unnamed_file {endpoint : String} {o : FileOperation}
    (hn : naming? env key c (.file endpoint o) = none)
    (hget : (c.step env (.file endpoint o)).service.registry.copies.get? key = some copy') :
    ∃ copy, c.service.registry.copies.get? key = some copy ∧
      copy' = { copy with state := copy'.state } := by
  have h := Service.operated (c.setting env) c.service endpoint o
  rw [step, operated] at hget
  have hother : o.action.asks = true → (c.operated env endpoint o).result = .ok () →
      key ≠ Path.clean o.path := by
    intro hasks hok hkey
    rw [naming?, if_pos hasks] at hn
    exact Naming.accepted?_eq_none.1 hn hok hkey.symm
  rw [operated] at hother
  generalize Service.onFileOperation (c.setting env) c.service endpoint o = reaction at h hget hother
  cases h with
  | refused e => exact ⟨copy', hget, rfl⟩
  | tracked copy action found =>
    rw [Service.registry_schedule] at hget
    exact ⟨copy', hget, rfl⟩
  | started content r action found read copies =>
    rw [Service.registry_schedule, copies, if_neg (hother (by rw [action]; rfl) rfl)] at hget
    exact ⟨copy', hget, rfl⟩
  | stopped action =>
    rw [Registry.get?_stop] at hget
    split at hget
    · cases hget
    · exact ⟨copy', hget, rfl⟩
  | stated state copy r action found copies =>
    rw [copies] at hget
    split at hget
    · next hkey =>
      obtain rfl := Option.some.inj hget
      exact ⟨copy, hkey ▸ found, rfl⟩
    · exact ⟨copy', hget, rfl⟩
  | stayed oldPath action old same =>
    rw [Service.registry_schedule] at hget
    exact ⟨copy', hget, rfl⟩
  | moved oldPath copy r action old other found copies =>
    rw [Service.registry_schedule, copies, if_neg (hother (by rw [action]; rfl) rfl)] at hget
    split at hget
    · cases hget
    · exact ⟨copy', hget, rfl⟩

/-- What is synchronized was so before, but for a message that names it. -/
theorem copy_of_unnamed (hn : naming? env key c i = none)
    (hget : (c.step env i).service.registry.copies.get? key = some copy')
    (hsync : copy'.synchronized = true) :
    ∃ copy, c.service.registry.copies.get? key = some copy ∧
      copy' = { copy with state := copy'.state } := by
  cases i with
  | change endpoint change => exact ⟨copy', copy_of_unnamed_change hn hget hsync, rfl⟩
  | file endpoint o => exact copy_of_unnamed_file hn hget
  | schedule path endpoint =>
    rw [step, Service.registry_schedule] at hget
    exact ⟨copy', hget, rfl⟩
  | begin q =>
    rw [step] at hget
    split at hget
    · rw [Service.begin_eq] at hget
      exact ⟨copy', hget, rfl⟩
    · exact ⟨copy', hget, rfl⟩
  | complete a =>
    rw [step] at hget
    split at hget <;> exact ⟨copy', hget, rfl⟩
  | saved source => exact ⟨copy', hget, rfl⟩

theorem copy_of_unnamed_runFrom (inputs : List Input)
    (hn : lastTold env (naming? env key) c inputs = none)
    (hget : (runFrom env c inputs).service.registry.copies.get? key = some copy')
    (hsync : copy'.synchronized = true) :
    ∃ copy, c.service.registry.copies.get? key = some copy ∧
      copy' = { copy with state := copy'.state } := by
  induction inputs generalizing c with
  | nil => exact ⟨copy', hget, rfl⟩
  | cons i inputs ih =>
    rw [lastTold, Option.or_eq_none_iff] at hn
    obtain ⟨next, hnext, heq⟩ := ih hn.1 hget
    have hsync' : next.synchronized = true := by rw [heq] at hsync; exact hsync
    obtain ⟨copy, hcopy, heq'⟩ := copy_of_unnamed hn.2 hnext hsync'
    exact ⟨copy, hcopy, by rw [heq, heq']⟩

end Course
end EditSync
