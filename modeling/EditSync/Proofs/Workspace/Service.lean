import EditSync.Proofs.Workspace.Registry
import EditSync.Workspace.Service

/-! What a message, a request for an analysis, its begin and its completion do to a service. Later proofs
use these facts and open no handler. -/

namespace EditSync

/-- The operation may change what is tracked under a key. -/
def FileOperation.touches (key : String) (o : FileOperation) : Bool :=
  Path.clean o.path = key || o.action = .move && o.oldPath.map Path.clean = some key

namespace Service

theorem registry_schedule (env : Setting) (s : Service) (path endpoint : String) :
    (schedule env s path endpoint).registry = s.registry := by
  unfold schedule
  split
  · dsimp only; split <;> rfl
  · rfl

theorem running_schedule (env : Setting) (s : Service) (path endpoint : String) :
    (schedule env s path endpoint).running = s.running := by
  unfold schedule
  split
  · dsimp only; split <;> rfl
  · rfl

theorem schedule_cases (env : Setting) (s : Service) (path endpoint : String) :
    (schedule env s path endpoint = s ∧
        (env.analyses = true → Path.clean path ∈ s.queued.items)) ∨
      schedule env s path endpoint =
        { s with
          queued := ⟨Path.clean path :: s.queued.items⟩
          waiting := s.waiting ++ [⟨Path.clean path, endpoint⟩] } := by
  unfold schedule ClaimSet.claim ClaimSet.contains
  cases ha : env.analyses with
  | false => exact Or.inl ⟨rfl, fun h => absurd h (by simp)⟩
  | true =>
    by_cases hq : Path.clean path ∈ s.queued.items
    · exact Or.inl ⟨by simp [hq], fun _ => hq⟩
    · exact Or.inr (by simp [hq])

/-- Keys that are queued are waiting, and all keys are clean. -/
structure Sound (s : Service) : Prop where
  queued : ∀ k ∈ s.queued.items, ∃ q ∈ s.waiting, q.key = k
  waiting : ∀ q ∈ s.waiting, Path.clean q.key = q.key
  running : ∀ a ∈ s.running, Path.clean a.key = a.key

theorem sound_start : Sound {} :=
  ⟨fun _ hk => absurd hk List.not_mem_nil, fun _ hq => absurd hq List.not_mem_nil,
    fun _ ha => absurd ha List.not_mem_nil⟩

theorem mem_waiting_schedule {env : Setting} {s : Service} {path endpoint : String}
    {q : AnalysisRequest} (h : q ∈ s.waiting) : q ∈ (schedule env s path endpoint).waiting := by
  rcases schedule_cases env s path endpoint with ⟨hs, -⟩ | hs
  · rw [hs]; exact h
  · rw [hs]; exact List.mem_append_left _ h

theorem waiting_of_schedule {env : Setting} {s : Service} {path endpoint : String} {q : AnalysisRequest}
    (h : q ∈ (schedule env s path endpoint).waiting) :
    q ∈ s.waiting ∨ q = ⟨Path.clean path, endpoint⟩ := by
  rcases schedule_cases env s path endpoint with ⟨hs, -⟩ | hs
  · rw [hs] at h; exact Or.inl h
  · rw [hs] at h
    exact (List.mem_append.1 h).imp_right List.mem_singleton.1

/-- Whether or not it was queued before, a key waits once it was asked for. -/
theorem Sound.waits_schedule {env : Setting} {s : Service} (hs : s.Sound) (ha : env.analyses = true)
    (path endpoint : String) :
    ∃ q ∈ (schedule env s path endpoint).waiting, q.key = Path.clean path := by
  rcases schedule_cases env s path endpoint with ⟨h, hq⟩ | h
  · rw [h]
    exact hs.queued _ (hq ha)
  · rw [h]
    exact ⟨_, List.mem_append_right _ (List.mem_singleton_self _), rfl⟩

theorem Sound.schedule {s : Service} (hs : s.Sound) (env : Setting) (path endpoint : String) :
    (schedule env s path endpoint).Sound := by
  rcases schedule_cases env s path endpoint with ⟨h, -⟩ | h
  · rw [h]; exact hs
  · rw [h]
    refine ⟨fun k hk => ?_, fun q hq => ?_, hs.running⟩
    · rcases List.mem_cons.1 hk with rfl | hk
      · exact ⟨_, List.mem_append_right _ (List.mem_singleton_self _), rfl⟩
      · obtain ⟨q, hq, hkey⟩ := hs.queued k hk
        exact ⟨q, List.mem_append_left _ hq, hkey⟩
    · rcases List.mem_append.1 hq with hq | hq
      · exact hs.waiting q hq
      · rw [List.mem_singleton.1 hq]
        exact Path.clean_clean path

theorem Sound.of_registry {s : Service} (hs : s.Sound) (r : Registry) : Sound { s with registry := r } :=
  ⟨hs.queued, hs.waiting, hs.running⟩

theorem onChange_cases (env : Setting) (s : Service) (endpoint : String) (change : TextChange) :
    (∃ n, (s.registry.apply env.source change endpoint).2 = .ok n ∧
        onChange env s endpoint change =
          { service := schedule env { s with registry := (s.registry.apply env.source change endpoint).1 }
              change.location endpoint }) ∨
      ∃ e, (s.registry.apply env.source change endpoint).2 = .error e ∧
        onChange env s endpoint change =
          { service := { s with registry := (s.registry.apply env.source change endpoint).1 }
            sent := if e.requiresResync then [⟨endpoint, .resync (resyncRequest change e)⟩] else []
            result := .error e } := by
  unfold onChange
  obtain ⟨r, result⟩ := s.registry.apply env.source change endpoint
  cases result with
  | ok n => exact Or.inl ⟨n, rfl, rfl⟩
  | error e => exact Or.inr ⟨e, rfl, rfl⟩

theorem registry_onChange (env : Setting) (s : Service) (endpoint : String) (change : TextChange) :
    (onChange env s endpoint change).service.registry =
      (s.registry.apply env.source change endpoint).1 := by
  rcases onChange_cases env s endpoint change with ⟨n, -, h⟩ | ⟨e, -, h⟩
  · rw [h]; exact registry_schedule _ _ _ _
  · rw [h]

theorem running_onChange (env : Setting) (s : Service) (endpoint : String) (change : TextChange) :
    (onChange env s endpoint change).service.running = s.running := by
  rcases onChange_cases env s endpoint change with ⟨n, -, h⟩ | ⟨e, -, h⟩
  · rw [h]; exact running_schedule _ _ _ _
  · rw [h]

theorem failed_onChange (env : Setting) (s : Service) (endpoint : String) (change : TextChange) :
    (∃ e, (onChange env s endpoint change).result = .error e) ↔
      ∃ e, (s.registry.apply env.source change endpoint).2 = .error e := by
  rcases onChange_cases env s endpoint change with ⟨n, hn, h⟩ | ⟨e, he, h⟩
  · rw [h, hn]
    simp
  · rw [h, he]
    exact ⟨fun _ => ⟨e, rfl⟩, fun _ => ⟨e, rfl⟩⟩

inductive Operated (env : Setting) (s : Service) (endpoint : String) (o : FileOperation) :
    Reaction → Prop
  | refused (e : SyncError) : Operated env s endpoint o { service := s, result := .error e }
  | tracked (copy : WorkingCopy) (action : o.action = .start)
      (found : s.registry.find o.path = some copy) :
      Operated env s endpoint o { service := schedule env s o.path endpoint }
  | started (content : String) (r : Registry) (action : o.action = .start)
      (found : s.registry.find o.path = none)
      (read : env.source (Path.clean o.path) = .ok content)
      (copies : ∀ k, r.copies.get? k =
        if k = Path.clean o.path then some (.started o.path o.project content)
        else s.registry.copies.get? k) :
      Operated env s endpoint o { service := schedule env { s with registry := r } o.path endpoint }
  | stopped (action : o.action = .stop) :
      Operated env s endpoint o { service := { s with registry := (s.registry.stop o.path).1 } }
  | stated (state : TrackingState) (copy : WorkingCopy) (r : Registry)
      (action : o.action = .suspend ∨ o.action = .resume)
      (found : s.registry.find o.path = some copy)
      (copies : ∀ k, r.copies.get? k =
        if k = Path.clean o.path then some { copy with state } else s.registry.copies.get? k) :
      Operated env s endpoint o { service := { s with registry := r } }
  | stayed (oldPath : String) (action : o.action = .move) (old : o.oldPath = some oldPath)
      (same : Path.clean oldPath = Path.clean o.path) :
      Operated env s endpoint o { service := schedule env s o.path endpoint }
  | moved (oldPath : String) (copy : WorkingCopy) (r : Registry) (action : o.action = .move)
      (old : o.oldPath = some oldPath) (other : Path.clean oldPath ≠ Path.clean o.path)
      (found : s.registry.find oldPath = some copy)
      (copies : ∀ k, r.copies.get? k =
        if k = Path.clean o.path then some (copy.relocated o.path o.project)
        else if k = Path.clean oldPath then none else s.registry.copies.get? k) :
      Operated env s endpoint o { service := schedule env { s with registry := r } o.path endpoint }

theorem operated_setState (env : Setting) (s : Service) (endpoint : String) (o : FileOperation)
    (state : TrackingState) (action : o.action = .suspend ∨ o.action = .resume)
    (h : operate env s endpoint o =
      (s.registry.setState o.path state).map fun registry => { s with registry }) :
    Operated env s endpoint o (onFileOperation env s endpoint o) := by
  rw [onFileOperation, h]
  rcases s.registry.setState_cases o.path state with ⟨copy, r, found, hr, copies⟩ | ⟨e, -, hr⟩
  · rw [hr]; exact .stated state copy r action found copies
  · rw [hr]; exact .refused e

theorem operated (env : Setting) (s : Service) (endpoint : String) (o : FileOperation) :
    Operated env s endpoint o (onFileOperation env s endpoint o) := by
  cases action : o.action with
  | start =>
    rw [onFileOperation, operate, action]
    rcases s.registry.start_cases env.source o.path o.project with
      ⟨copy, found, hr⟩ | ⟨content, r, found, read, hr, copies⟩ | ⟨e, -, -, hr⟩
    · simp only [hr]; exact .tracked copy action found
    · simp only [hr]; exact .started content r action found read copies
    · simp only [hr]; exact .refused e
  | stop =>
    rw [onFileOperation, operate, action]
    exact .stopped action
  | suspend =>
    refine operated_setState env s endpoint o .suspended (Or.inl action) ?_
    rw [operate, action]
    cases s.registry.setState o.path .suspended <;> rfl
  | resume =>
    refine operated_setState env s endpoint o .started (Or.inr action) ?_
    rw [operate, action]
    cases s.registry.setState o.path .started <;> rfl
  | move =>
    rw [onFileOperation, operate, action]
    cases old : o.oldPath with
    | none => exact .refused _
    | some oldPath =>
      rcases s.registry.move_cases oldPath o.path o.project with
        ⟨same, hr⟩ | ⟨copy, r, other, found, hr, copies⟩ | ⟨e, -, -, hr⟩
      · simp only [hr]; exact .stayed oldPath action old same
      · simp only [hr]; exact .moved oldPath copy r action old other found copies
      · simp only [hr]; exact .refused e

theorem sent_onFileOperation (env : Setting) (s : Service) (endpoint : String) (o : FileOperation) :
    (onFileOperation env s endpoint o).sent = [] := by
  rw [onFileOperation]
  split <;> rfl

theorem running_onFileOperation (env : Setting) (s : Service) (endpoint : String) (o : FileOperation) :
    (onFileOperation env s endpoint o).service.running = s.running := by
  have h := operated env s endpoint o
  generalize onFileOperation env s endpoint o = reaction at h ⊢
  cases h with
  | refused e => rfl
  | tracked copy action found => exact running_schedule _ _ _ _
  | started content r action found read copies => exact running_schedule _ _ _ _
  | stopped action => rfl
  | stated state copy r action found copies => rfl
  | stayed oldPath action old same => exact running_schedule _ _ _ _
  | moved oldPath copy r action old other found copies => exact running_schedule _ _ _ _

theorem get?_onFileOperation_of_not_touches (env : Setting) (s : Service) (endpoint : String)
    {o : FileOperation} {key : String} (h : o.touches key = false) :
    (onFileOperation env s endpoint o).service.registry.copies.get? key =
      s.registry.copies.get? key := by
  simp only [FileOperation.touches, Bool.or_eq_false_iff, Bool.and_eq_false_imp,
    decide_eq_false_iff_not, decide_eq_true_eq] at h
  obtain ⟨hpath, hold⟩ := h
  have hop := operated env s endpoint o
  generalize onFileOperation env s endpoint o = reaction at hop ⊢
  cases hop with
  | refused e => rfl
  | tracked copy action found => rw [registry_schedule]
  | started content r action found read copies =>
    rw [registry_schedule, copies, if_neg (Ne.symm hpath)]
  | stopped action => rw [Registry.get?_stop, if_neg (Ne.symm hpath)]
  | stated state copy r action found copies => rw [copies, if_neg (Ne.symm hpath)]
  | stayed oldPath action old same => rw [registry_schedule]
  | moved oldPath copy r action old other found copies =>
    have hne : key ≠ Path.clean oldPath := by
      rintro rfl
      exact hold action (by rw [old]; rfl)
    rw [registry_schedule, copies, if_neg (Ne.symm hpath), if_neg hne]

theorem onFileOperation_of_start (env : Setting) {s : Service} {o : FileOperation} {content : String}
    (endpoint : String) (action : o.action = .start) (found : s.registry.find o.path = none)
    (read : env.source (Path.clean o.path) = .ok content) :
    ∃ r, onFileOperation env s endpoint o =
        { service := schedule env { s with registry := r } o.path endpoint } ∧
      ∀ k, r.copies.get? k =
        if k = Path.clean o.path then some (.started o.path o.project content)
        else s.registry.copies.get? k := by
  rcases s.registry.start_cases env.source o.path o.project with
    ⟨copy, hf, -⟩ | ⟨content', r, -, hread, hr, copies⟩ | ⟨e, -, he, -⟩
  · exact absurd (found.symm.trans hf) (by simp)
  · obtain rfl := Except.ok.inj (read.symm.trans hread)
    refine ⟨r, ?_, copies⟩
    rw [onFileOperation, operate, action]
    simp only [hr]
    rfl
  · exact absurd (read.symm.trans he) (by simp)

theorem onFileOperation_of_move (env : Setting) {s : Service} {o : FileOperation} {oldPath : String}
    {copy : WorkingCopy} (endpoint : String) (action : o.action = .move)
    (old : o.oldPath = some oldPath) (other : Path.clean oldPath ≠ Path.clean o.path)
    (found : s.registry.find oldPath = some copy) :
    ∃ r, onFileOperation env s endpoint o =
        { service := schedule env { s with registry := r } o.path endpoint } ∧
      ∀ k, r.copies.get? k =
        if k = Path.clean o.path then some (copy.relocated o.path o.project)
        else if k = Path.clean oldPath then none else s.registry.copies.get? k := by
  rcases s.registry.move_cases oldPath o.path o.project with
    ⟨hsame, -⟩ | ⟨copy', r, -, hf, hr, copies⟩ | ⟨e, -, hnone, -⟩
  · exact absurd hsame other
  · obtain rfl := Option.some.inj (found.symm.trans hf)
    refine ⟨r, ?_, copies⟩
    rw [onFileOperation, operate, action, old]
    simp only [hr]
    rfl
  · exact absurd (hnone.symm.trans found) (by simp)

def begun (s : Service) (q : AnalysisRequest) : Option RunningAnalysis :=
  match s.registry.find q.key with
  | none => none
  | some copy =>
    if copy.synchronized then some ⟨q.key, copy, copy.endpoint.getD q.endpoint⟩ else none

theorem begin_eq (s : Service) (q : AnalysisRequest) :
    s.begin q =
      { s with
        queued := s.queued.release q.key
        waiting := s.waiting.erase q
        running := s.running ++ (s.begun q).toList } := by
  unfold begin begun
  dsimp only
  cases s.registry.find q.key with
  | none => simp
  | some copy =>
    dsimp only
    split <;> simp

theorem begun_eq_some {s : Service} {q : AnalysisRequest} {a : RunningAnalysis} :
    s.begun q = some a ↔
      ∃ copy, s.registry.find q.key = some copy ∧ copy.synchronized = true ∧
        a = ⟨q.key, copy, copy.endpoint.getD q.endpoint⟩ := by
  unfold begun
  cases s.registry.find q.key with
  | none => simp
  | some copy =>
    dsimp only
    split
    · next hs =>
      constructor
      · intro h
        exact ⟨copy, rfl, hs, (Option.some.inj h).symm⟩
      · rintro ⟨_, hc, -, rfl⟩
        obtain rfl := Option.some.inj hc
        rfl
    · next hs => simp [hs]

theorem Sound.begin {s : Service} (hs : s.Sound) {q : AnalysisRequest} (hq : q ∈ s.waiting) :
    (s.begin q).Sound := by
  rw [begin_eq]
  refine ⟨fun k hk => ?_, fun p hp => hs.waiting p (List.mem_of_mem_erase hp), fun a ha => ?_⟩
  · simp only [ClaimSet.release, List.mem_filter, decide_eq_true_eq] at hk
    obtain ⟨p, hp, hkey⟩ := hs.queued k hk.1
    have hne : p ≠ q := by
      rintro rfl
      exact hk.2 hkey.symm
    exact ⟨p, (List.mem_erase_of_ne hne).2 hp, hkey⟩
  · rcases List.mem_append.1 ha with ha | ha
    · exact hs.running a ha
    · obtain ⟨copy, -, -, rfl⟩ := begun_eq_some.1 (Option.mem_toList.1 ha)
      exact hs.waiting q hq

theorem Sound.complete {s : Service} (hs : s.Sound) (env : Setting) (a : RunningAnalysis) :
    (complete env s a).1.Sound :=
  ⟨hs.queued, hs.waiting, fun b hb => hs.running b (List.mem_of_mem_erase hb)⟩

theorem mem_outcome {env : Setting} {s : Service} {a : RunningAnalysis} {m : Message} :
    m ∈ outcome env s a ↔
      ∃ analysis copy, env.engine a.key a.copy.content = .ok analysis ∧
        s.registry.find a.key = some copy ∧ copy.revision = a.copy.revision ∧
        m = ⟨a.endpoint, .result ⟨analysis, a.copy.location⟩⟩ := by
  unfold outcome
  cases env.engine a.key a.copy.content with
  | error e => simp
  | ok analysis =>
    cases s.registry.find a.key with
    | none => simp
    | some copy => by_cases hr : copy.revision = a.copy.revision <;> simp [hr]

theorem outcome_eq {env : Setting} {s : Service} {a : RunningAnalysis} {analysis : Analysis}
    {copy : WorkingCopy} (hengine : env.engine a.key a.copy.content = .ok analysis)
    (hf : s.registry.find a.key = some copy) (hrevision : copy.revision = a.copy.revision) :
    outcome env s a = [⟨a.endpoint, .result ⟨analysis, a.copy.location⟩⟩] := by
  simp [outcome, hengine, hf, hrevision]

theorem Sound.onChange {s : Service} (hs : s.Sound) (env : Setting) (endpoint : String)
    (change : TextChange) : (onChange env s endpoint change).service.Sound := by
  rcases onChange_cases env s endpoint change with ⟨n, -, h⟩ | ⟨e, -, h⟩
  · rw [h]; exact (hs.of_registry _).schedule env _ _
  · rw [h]; exact hs.of_registry _

theorem Sound.onFileOperation {s : Service} (hs : s.Sound) (env : Setting) (endpoint : String)
    (o : FileOperation) : (onFileOperation env s endpoint o).service.Sound := by
  have h := operated env s endpoint o
  generalize Service.onFileOperation env s endpoint o = reaction at h ⊢
  cases h with
  | refused e => exact hs
  | tracked copy action found => exact hs.schedule env _ _
  | started content r action found read copies => exact (hs.of_registry r).schedule env _ _
  | stopped action => exact hs.of_registry _
  | stated state copy r action found copies => exact hs.of_registry r
  | stayed oldPath action old same => exact hs.schedule env _ _
  | moved oldPath copy r action old other found copies => exact (hs.of_registry r).schedule env _ _

end Service
end EditSync
