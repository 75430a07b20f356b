import EditSync.Proofs.Workspace.Course

/-! When a result that is sent belongs to the text that the server has under its key at that moment. The
revision alone tells whether a copy has changed since its analysis began. It does tell for a copy that
stayed under the key and whose changes all were applied. It does not see that a change failed, nor that
another copy took the place and has come to the same revision. -/

namespace EditSync

namespace Course

/-- The copy under the key of an analysis is synchronized and has the text that was analysed. -/
def Fresh (c : Course) (a : RunningAnalysis) : Prop :=
  c.service.registry.Shows a.key a.copy.content

/-- The copy under a key is given up, by a stop or by a move from or onto the key. -/
def Replaces (c : Course) (k : String) : Input → Prop
  | .file _ o =>
    (o.action = .stop ∧ Path.clean o.path = k) ∨
      (o.action = .move ∧ ∃ oldPath copy, o.oldPath = some oldPath ∧
        Path.clean oldPath ≠ Path.clean o.path ∧ c.service.registry.find oldPath = some copy ∧
        (Path.clean oldPath = k ∨ Path.clean o.path = k))
  | _ => False

def Fails (env : Setting) (c : Course) (k : String) : Input → Prop
  | .change endpoint change =>
    Path.clean change.location = k ∧ ∃ e, (c.changed env endpoint change).result = .error e
  | _ => False

/-- Some input of a course is of a kind, seen from the state before it. -/
def Sees (env : Setting) (P : Course → Input → Prop) : Course → List Input → Prop
  | _, [] => False
  | c, i :: inputs => P c i ∨ Sees env P (c.step env i) inputs

/-- What has become of a copy. While the revision is the same, the text is, too, and the copy is as
synchronized as before unless a change failed. -/
structure Follows (copy now : WorkingCopy) (failed : Prop) : Prop where
  revision : copy.revision ≤ now.revision
  content : now.revision = copy.revision → now.content = copy.content
  synchronized : now.revision = copy.revision →
    (now.synchronized = true ↔ copy.synchronized = true ∧ ¬ failed)

theorem Follows.refl (copy : WorkingCopy) {failed : Prop} (h : ¬ failed) : Follows copy copy failed :=
  ⟨Nat.le_refl _, fun _ => rfl, fun _ => ⟨fun hs => ⟨hs, h⟩, fun hs => hs.1⟩⟩

theorem Follows.of_eq {copy now : WorkingCopy} {failed : Prop} (h : ¬ failed)
    (hrev : now.revision = copy.revision) (hcon : now.content = copy.content)
    (hsync : now.synchronized = copy.synchronized) : Follows copy now failed :=
  ⟨Nat.le_of_eq hrev.symm, fun _ => hcon, fun _ => by rw [hsync]; exact ⟨fun hs => ⟨hs, h⟩, fun hs => hs.1⟩⟩

theorem Follows.trans {copy next now : WorkingCopy} {failed failed' : Prop} (h : Follows copy next failed)
    (h' : Follows next now failed') : Follows copy now (failed ∨ failed') := by
  have hmid : now.revision = copy.revision →
      next.revision = copy.revision ∧ now.revision = next.revision := by
    intro he
    have := h.revision
    have := h'.revision
    omega
  refine ⟨Nat.le_trans h.revision h'.revision, fun he => ?_, fun he => ?_⟩
  · obtain ⟨hn, hn'⟩ := hmid he
    exact (h'.content hn').trans (h.content hn)
  · obtain ⟨hn, hn'⟩ := hmid he
    rw [h'.synchronized hn', h.synchronized hn, not_or, and_assoc]

variable {env : Setting} {c : Course} {k : String} {copy : WorkingCopy}

/-- A change that fails is seen in the synchronization only, any other also in the revision. -/
theorem follows_changeCopy (copy : WorkingCopy) (endpoint : String) (change : TextChange) :
    Follows copy (Registry.changeCopy (copy.noteSender endpoint change.owner) change).1
      (∃ e, (Registry.changeCopy (copy.noteSender endpoint change.owner) change).2 = .error e) := by
  rcases Registry.changeCopy_cases (copy.noteSender endpoint change.owner) change with
    ⟨-, hlt⟩ | ⟨e, herr, hlost, hle, hsame⟩
  · have hlt : copy.revision < _ := hlt
    exact ⟨Nat.le_of_lt hlt, fun he => by omega, fun he => by omega⟩
  · refine ⟨hle, hsame, fun _ => ?_⟩
    rw [hlost]
    exact ⟨fun h => absurd h (by simp), fun h => absurd ⟨e, herr⟩ h.2⟩

theorem follows_change (hk : c.service.registry.copies.get? k = some copy) (endpoint : String)
    (change : TextChange) :
    ∃ now, (c.step env (.change endpoint change)).service.registry.copies.get? k = some now ∧
      Follows copy now (Fails env c k (.change endpoint change)) := by
  have hreg : (c.step env (.change endpoint change)).service.registry =
      (c.service.registry.apply c.source change endpoint).1 := Service.registry_onChange _ _ _ _
  rw [hreg, Registry.get?_apply]
  by_cases hkey : k = Path.clean change.location
  · rw [if_pos hkey]
    refine ⟨_, rfl, ?_⟩
    have htarget : c.service.registry.target c.source change endpoint =
        copy.noteSender endpoint change.owner := by
      rw [Registry.target, Registry.find_eq, ← hkey, hk]
      rfl
    have hfails : Fails env c k (.change endpoint change) ↔
        ∃ e, (Registry.changeCopy (copy.noteSender endpoint change.owner) change).2 = .error e := by
      rw [Fails, changed, Service.failed_onChange]
      simp only [setting, Registry.apply_snd, htarget, hkey, true_and]
      cases (Registry.changeCopy (copy.noteSender endpoint change.owner) change).2 <;>
        simp [Except.map]
    rw [htarget, propext hfails]
    exact follows_changeCopy copy endpoint change
  · rw [if_neg hkey]
    exact ⟨copy, hk, .refl copy fun hf => hkey hf.1.symm⟩

theorem follows_file (hk : c.service.registry.copies.get? k = some copy) (endpoint : String)
    (o : FileOperation) (hr : ¬ c.Replaces k (.file endpoint o)) :
    ∃ now, (c.step env (.file endpoint o)).service.registry.copies.get? k = some now ∧
      Follows copy now (Fails env c k (.file endpoint o)) := by
  have hno : ¬ Fails env c k (.file endpoint o) := fun h => h
  have h := Service.operated (c.setting env) c.service endpoint o
  rw [step, operated]
  generalize Service.onFileOperation (c.setting env) c.service endpoint o = reaction at h
  cases h with
  | refused e => exact ⟨copy, hk, .refl copy hno⟩
  | tracked there action found =>
    exact ⟨copy, by rw [Service.registry_schedule]; exact hk, .refl copy hno⟩
  | started content r action found read copies =>
    refine ⟨copy, ?_, .refl copy hno⟩
    rw [Service.registry_schedule]
    have hne : k ≠ Path.clean o.path := by
      rintro rfl
      exact absurd (found.symm.trans hk) (by simp)
    rw [copies, if_neg hne]
    exact hk
  | stopped action =>
    refine ⟨copy, ?_, .refl copy hno⟩
    rw [Registry.get?_stop, if_neg]
    · exact hk
    · rintro rfl
      exact hr (Or.inl ⟨action, rfl⟩)
  | stated state there r action found copies =>
    rw [copies]
    split
    · next hkey =>
      obtain rfl := Option.some.inj (found.symm.trans (hkey ▸ hk))
      exact ⟨_, rfl, .of_eq hno rfl rfl rfl⟩
    · exact ⟨copy, hk, .refl copy hno⟩
  | stayed oldPath action old same =>
    exact ⟨copy, by rw [Service.registry_schedule]; exact hk, .refl copy hno⟩
  | moved oldPath there r action old other found copies =>
    refine ⟨copy, ?_, .refl copy hno⟩
    have hmoved : ∀ {p : Prop}, (Path.clean oldPath = k ∨ Path.clean o.path = k) → p := fun h =>
      absurd (Or.inr ⟨action, oldPath, there, old, other, found, h⟩) hr
    rw [Service.registry_schedule, copies, if_neg fun h => hmoved (Or.inr h.symm),
      if_neg fun h => hmoved (Or.inl h.symm)]
    exact hk

variable (env) in
theorem follows_step (hk : c.service.registry.copies.get? k = some copy) (i : Input)
    (hr : ¬ c.Replaces k i) :
    ∃ now, (c.step env i).service.registry.copies.get? k = some now ∧
      Follows copy now (Fails env c k i) := by
  cases i with
  | change endpoint change => exact follows_change hk endpoint change
  | file endpoint o => exact follows_file hk endpoint o hr
  | schedule path endpoint =>
    refine ⟨copy, ?_, .refl copy fun h => h⟩
    rw [step, Service.registry_schedule]
    exact hk
  | begin q =>
    refine ⟨copy, ?_, .refl copy fun h => h⟩
    rw [step]
    split
    · rw [Service.begin_eq]; exact hk
    · exact hk
  | complete a =>
    refine ⟨copy, ?_, .refl copy fun h => h⟩
    rw [step]
    split <;> exact hk
  | saved source => exact ⟨copy, hk, .refl copy fun h => h⟩

/-- A copy that is never replaced is followed through a whole course. -/
theorem follows_runFrom (inputs : List Input) (hk : c.service.registry.copies.get? k = some copy)
    (hr : ¬ Sees env (fun c => c.Replaces k) c inputs) :
    ∃ now, (runFrom env c inputs).service.registry.copies.get? k = some now ∧
      Follows copy now (Sees env (fun c => Fails env c k) c inputs) := by
  induction inputs generalizing c copy with
  | nil => exact ⟨copy, hk, .refl copy fun h => h⟩
  | cons i inputs ih =>
    obtain ⟨hi, hrest⟩ := not_or.1 hr
    obtain ⟨next, hnext, hstep⟩ := follows_step env hk i hi
    obtain ⟨now, hnow, hfollow⟩ := ih hnext hrest
    exact ⟨now, hnow, hstep.trans hfollow⟩

theorem running_step {a : RunningAnalysis} {i : Input} (h : a ∈ (c.step env i).service.running) :
    a ∈ c.service.running ∨
      ∃ q, i = .begin q ∧ q ∈ c.service.waiting ∧ c.service.begun q = some a := by
  cases i with
  | change endpoint change =>
    rw [step, changed, Service.running_onChange] at h
    exact Or.inl h
  | file endpoint o =>
    rw [step, operated, Service.running_onFileOperation] at h
    exact Or.inl h
  | schedule path endpoint =>
    rw [step, Service.running_schedule] at h
    exact Or.inl h
  | begin q =>
    rw [step] at h
    split at h
    · next hq =>
      rw [Service.begin_eq] at h
      rcases List.mem_append.1 h with h | h
      · exact Or.inl h
      · exact Or.inr ⟨q, rfl, hq, Option.mem_toList.1 h⟩
    · exact Or.inl h
  | complete b =>
    rw [step] at h
    split at h
    · exact Or.inl (List.mem_of_mem_erase h)
    · exact Or.inl h
  | saved source => exact Or.inl h

/-- Every analysis that runs was begun on a request that waited. -/
theorem exists_begun (inputs : List Input) {a : RunningAnalysis}
    (h : a ∈ (run env inputs).service.running) :
    ∃ before q after, inputs = before ++ .begin q :: after ∧
      q ∈ (run env before).service.waiting ∧ (run env before).service.begun q = some a := by
  induction inputs using List.reverseRecOn with
  | nil => exact absurd h List.not_mem_nil
  | append_singleton inputs i ih =>
    rw [run_concat] at h
    rcases running_step h with h | ⟨q, rfl, hq, hb⟩
    · obtain ⟨before, q, after, heq, hq, hb⟩ := ih h
      exact ⟨before, q, after ++ [i], by rw [heq]; simp, hq, hb⟩
    · exact ⟨inputs, q, [], rfl, hq, hb⟩

theorem fresh_of_find {inputs : List Input} {a : RunningAnalysis} {now : WorkingCopy}
    (h : (run env inputs).service.registry.find a.key = some now) :
    (run env inputs).Fresh a ↔ now.synchronized = true ∧ now.content = a.copy.content := by
  rw [Fresh, Registry.Shows]
  simp only [h, Option.some.injEq, exists_eq_left']

/-- A copy that stays under its key while it is analysed still has the analysed text when the result is
sent, and is synchronized unless a change failed. So the result is fresh exactly if the copy stayed and
no change failed, or if another copy took its place that is synchronized and has the same text. -/
theorem fresh_iff (env : Setting) (inputs : List Input) (a : RunningAnalysis)
    (ha : a ∈ (run env inputs).service.running) (m : Message)
    (hm : m ∈ ((run env inputs).service.complete ((run env inputs).setting env) a).2) :
    ∃ before q after now, inputs = before ++ .begin q :: after ∧
      q ∈ (run env before).service.waiting ∧ (run env before).service.begun q = some a ∧
      (run env inputs).service.registry.find a.key = some now ∧
      let replaced := Sees env (fun c => c.Replaces a.key) (run env (before ++ [.begin q])) after
      let failed := Sees env (fun c => Fails env c a.key) (run env (before ++ [.begin q])) after
      (¬ replaced → now.content = a.copy.content ∧ (now.synchronized = true ↔ ¬ failed)) ∧
        ((run env inputs).Fresh a ↔
          (¬ replaced ∧ ¬ failed) ∨
            replaced ∧ now.synchronized = true ∧ now.content = a.copy.content) := by
  obtain ⟨before, q, after, heq, hq, hb⟩ := exists_begun inputs ha
  -- that the result is sent says that a copy is there and has the same revision
  obtain ⟨analysis, now, -, hnow, hrev, -⟩ := Service.mem_outcome.1 hm
  refine ⟨before, q, after, now, heq, hq, hb, hnow, ?_⟩
  dsimp only
  have hstayed : ¬ Sees env (fun c => c.Replaces a.key) (run env (before ++ [.begin q])) after →
      now.content = a.copy.content ∧ (now.synchronized = true ↔
        ¬ Sees env (fun c => Fails env c a.key) (run env (before ++ [.begin q])) after) := by
    intro hr
    obtain ⟨copy, hfind, hsync, rfl⟩ := Service.begun_eq_some.1 hb
    have hkey : Path.clean q.key = q.key := (sound_run env before).waiting q hq
    have hget : (run env (before ++ [.begin q])).service.registry.copies.get? q.key = some copy := by
      rw [run_concat, step, if_pos hq, Service.begin_eq]
      rw [Registry.find_eq, hkey] at hfind
      exact hfind
    obtain ⟨there, hthere, hfollow⟩ := follows_runFrom after hget hr
    have hrun : runFrom env (run env (before ++ [.begin q])) after = run env inputs := by
      rw [← run_append, heq, List.append_assoc]
      rfl
    rw [hrun] at hthere
    rw [Registry.find_eq, hkey, hthere] at hnow
    obtain rfl := Option.some.inj hnow
    refine ⟨hfollow.content hrev, ?_⟩
    rw [hfollow.synchronized hrev]
    exact ⟨fun h => h.2, fun h => ⟨hsync, h⟩⟩
  refine ⟨hstayed, ?_⟩
  rw [fresh_of_find hnow]
  by_cases hr : Sees env (fun c => c.Replaces a.key) (run env (before ++ [.begin q])) after
  · simp only [hr, not_true_eq_false, false_and, true_and, false_or]
  · obtain ⟨hcontent, hsync⟩ := hstayed hr
    simp only [hr, not_false_eq_true, false_and, true_and, or_false, hsync, hcontent, and_true]

def failedMeanwhile : List Input :=
  [.file "client-1" { action := .start, path := "/p/a", project := some "/p" },
    .begin ⟨"/p/a", "client-1"⟩,
    .change "client-1" { offset := 99, removed := 1, location := "/p/a", project := "/p" }]

theorem fresh_iff_failedMeanwhile :
    ∃ before q after now, failedMeanwhile = before ++ .begin q :: after ∧
      q ∈ (run { source := fun _ => .ok "ab" } before).service.waiting ∧
      (run { source := fun _ => .ok "ab" } before).service.begun q =
        some ⟨"/p/a", { location := "/p/a", project := "/p", content := "ab" }, "client-1"⟩ ∧
      (run { source := fun _ => .ok "ab" } failedMeanwhile).service.registry.find "/p/a" = some now ∧
      let start := run { source := fun _ => .ok "ab" } (before ++ [.begin q])
      let replaced := Sees { source := fun _ => .ok "ab" } (fun c => c.Replaces "/p/a") start after
      let failed := Sees { source := fun _ => .ok "ab" }
        (fun c => Fails { source := fun _ => .ok "ab" } c "/p/a") start after
      (¬ replaced → now.content = "ab" ∧ (now.synchronized = true ↔ ¬ failed)) ∧
        ((run { source := fun _ => .ok "ab" } failedMeanwhile).Fresh
            ⟨"/p/a", { location := "/p/a", project := "/p", content := "ab" }, "client-1"⟩ ↔
          (¬ replaced ∧ ¬ failed) ∨ replaced ∧ now.synchronized = true ∧ now.content = "ab") :=
  fresh_iff { source := fun _ => .ok "ab" } failedMeanwhile
    ⟨"/p/a", { location := "/p/a", project := "/p", content := "ab" }, "client-1"⟩ (by decide +kernel)
    ⟨"client-1", .result ⟨{}, "/p/a"⟩⟩ (by decide +kernel)

def restartedMeanwhile : List Input :=
  [.file "client-1" { action := .start, path := "/p/a", project := some "/p" },
    .begin ⟨"/p/a", "client-1"⟩,
    .file "client-1" { action := .stop, path := "/p/a" },
    .saved (.memory (.ofList [("/p/a", "fine")])),
    .file "client-1" { action := .start, path := "/p/a", project := some "/p" }]

theorem stale_after_restart :
    ¬ ∀ (env : Setting) (inputs : List Input) (a : RunningAnalysis) (m : Message),
      a ∈ (run env inputs).service.running →
      m ∈ ((run env inputs).service.complete ((run env inputs).setting env) a).2 →
      (run env inputs).Fresh a := by
  intro h
  let env : Setting := { source := .memory (.ofList [("/p/a", "ERROR")]), engine := Markers.engine }
  let a : RunningAnalysis :=
    ⟨"/p/a", { location := "/p/a", project := "/p", content := "ERROR" }, "client-1"⟩
  let m : Message := ⟨"client-1", .result ⟨{ problems := [.ofError "error in /p/a" 0 5] }, "/p/a"⟩⟩
  obtain ⟨copy, hfind, -, hcontent⟩ :=
    h env restartedMeanwhile a m (by decide +kernel) (by decide +kernel)
  have hfine : ((run env restartedMeanwhile).service.registry.find a.key).map (·.content) =
      some "fine" := by decide +kernel
  rw [hfind, Option.map_some, hcontent] at hfine
  exact absurd hfine (by decide)

end Course
end EditSync
