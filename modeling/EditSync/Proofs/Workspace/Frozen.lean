import EditSync.Proofs.Workspace.Course
import EditSync.Proofs.Workspace.Independence

/-! A copy that has lost its editor's text is frozen. Until the whole content comes, or until it is given
up, nothing changes its text: not what is asked of the server, not what is asked of the registry directly,
and not a move to another key. All that happens is that senders of deltas are asked for the whole content. -/

namespace EditSync

/-- A copy is without synchronization and still has the text and the revision of an earlier one. -/
structure WorkingCopy.Frozen (copy now : WorkingCopy) : Prop where
  lost : now.synchronized = false
  content : now.content = copy.content
  revision : now.revision = copy.revision

theorem WorkingCopy.Frozen.refl {copy : WorkingCopy} (h : copy.synchronized = false) : copy.Frozen copy :=
  ⟨h, rfl, rfl⟩

theorem WorkingCopy.Frozen.trans {copy next now : WorkingCopy} (h : copy.Frozen next)
    (h' : next.Frozen now) : copy.Frozen now :=
  ⟨h'.lost, h'.content.trans h.content, h'.revision.trans h.revision⟩

inductive RegistryOp where
  | ask (request : FileRequest)
  | move (oldPath newPath : String) (project : Option String)

/-- Gives up the copy of a file or its text. -/
def FileRequest.thaws : FileRequest → Bool
  | stop _ => true
  | change _ c => c.resync
  | start _ _ | setState _ _ => false

namespace Registry

variable {r : Registry} {k k' : String} {copy : WorkingCopy}

def perform (source : Source) (r : Registry) : RegistryOp → Registry
  | .ask q => (r.serve source q).1
  | .move oldPath newPath project =>
    match r.move oldPath newPath project with
    | .ok r => r
    | .error _ => r

/-- The key under which the copy of a key is found after an operation, unless that gives up the copy or
its text. -/
def stays (r : Registry) (k : String) : RegistryOp → Option String
  | .ask q => if q.key = k ∧ q.thaws = true then none else some k
  | .move oldPath newPath _ =>
    if Path.clean oldPath = Path.clean newPath then some k
    else if Path.clean oldPath = k then some (Path.clean newPath)
    else if Path.clean newPath = k ∧ r.contains oldPath = true then none
    else some k

theorem frozen_act (source : Source) {q : FileRequest} (hlost : copy.synchronized = false)
    (hq : q.thaws = false) : ∃ now, (q.act source (some copy)).1 = some now ∧ copy.Frozen now := by
  cases q with
  | start path project => exact ⟨copy, rfl, .refl hlost⟩
  | stop path => exact absurd hq (by simp [FileRequest.thaws])
  | setState path state => exact ⟨{ copy with state }, rfl, hlost, rfl, rfl⟩
  | change endpoint change =>
    refine ⟨copy.noteSender endpoint change.owner, ?_, hlost, rfl, rfl⟩
    simp only [FileRequest.act, Option.getD_some]
    rw [changeCopy_of_lost (c := copy.noteSender endpoint change.owner) hlost hq]

/-- One operation leaves a frozen copy frozen. -/
theorem frozen_perform (source : Source) {op : RegistryOp} (hk : r.copies.get? k = some copy)
    (hlost : copy.synchronized = false) (hstays : r.stays k op = some k') :
    ∃ now, (r.perform source op).copies.get? k' = some now ∧ copy.Frozen now := by
  cases op with
  | ask q =>
    rw [stays] at hstays
    split at hstays
    · exact absurd hstays (by simp)
    · next hq =>
      obtain rfl := Option.some.inj hstays
      rw [perform, (r.serve_spec source q).2]
      split
      · next hkey =>
        rw [← hkey, hk]
        exact frozen_act source hlost (by simpa [hkey] using hq)
      · exact ⟨copy, hk, .refl hlost⟩
  | move oldPath newPath project =>
    rw [stays] at hstays
    rw [perform]
    rcases r.move_cases oldPath newPath project with
      ⟨hsame, hr⟩ | ⟨there, r', hother, found, hr, copies⟩ | ⟨e, hother, found, hr⟩
    · rw [if_pos hsame] at hstays
      obtain rfl := Option.some.inj hstays
      rw [hr]
      exact ⟨copy, hk, .refl hlost⟩
    · rw [if_neg hother] at hstays
      rw [hr]
      split at hstays
      · next hold =>
        obtain rfl := Option.some.inj hstays
        obtain rfl := Option.some.inj (found.symm.trans (hold ▸ hk))
        refine ⟨there.relocated newPath project, ?_, hlost, rfl, rfl⟩
        rw [copies, if_pos rfl]
      · next hold =>
        have hcontains : r.contains oldPath = true := by rw [contains, found]; rfl
        rw [hcontains] at hstays
        split at hstays
        · exact absurd hstays (by simp)
        · next hnew =>
          obtain rfl := Option.some.inj hstays
          refine ⟨copy, ?_, .refl hlost⟩
          rw [copies, if_neg fun h => hnew ⟨h.symm, rfl⟩, if_neg (Ne.symm hold), hk]
    · have hcontains : r.contains oldPath = false := by rw [contains, found]; rfl
      have hold : Path.clean oldPath ≠ k := by
        rintro rfl
        exact absurd (found.symm.trans hk) (by simp)
      rw [if_neg hother, if_neg hold, hcontains, if_neg (by simp)] at hstays
      obtain rfl := Option.some.inj hstays
      rw [hr]
      exact ⟨copy, hk, .refl hlost⟩

end Registry

def FileOperation.registryOp (o : FileOperation) : Option RegistryOp :=
  match o.action with
  | .start => some (.ask (.start o.path o.project))
  | .stop => some (.ask (.stop o.path))
  | .suspend => some (.ask (.setState o.path .suspended))
  | .resume => some (.ask (.setState o.path .started))
  | .move => o.oldPath.map fun oldPath => .move oldPath o.path o.project

namespace Service

theorem registry_onFileOperation (env : Setting) (s : Service) (endpoint : String) (o : FileOperation) :
    (onFileOperation env s endpoint o).service.registry =
      o.registryOp.elim s.registry (s.registry.perform env.source) := by
  rw [onFileOperation, operate, FileOperation.registryOp]
  cases o.action with
  | start =>
    simp only [Option.elim_some, Registry.perform, Registry.serve]
    cases s.registry.start env.source o.path o.project with
    | ok started => exact registry_schedule _ _ _ _
    | error e => rfl
  | stop => rfl
  | suspend =>
    simp only [Option.elim_some, Registry.perform, Registry.serve]
    cases s.registry.setState o.path .suspended <;> rfl
  | resume =>
    simp only [Option.elim_some, Registry.perform, Registry.serve]
    cases s.registry.setState o.path .started <;> rfl
  | move =>
    cases o.oldPath with
    | none => rfl
    | some oldPath =>
      simp only [Option.map_some, Option.elim_some, Registry.perform]
      cases s.registry.move oldPath o.path o.project with
      | ok registry => exact registry_schedule _ _ _ _
      | error e => rfl

end Service

namespace Course

inductive Action where
  | serve (i : Input)
  | perform (op : RegistryOp)

def act (env : Setting) (c : Course) : Action → Course
  | .serve i => c.step env i
  | .perform op =>
    { c with service := { c.service with registry := c.service.registry.perform c.source op } }

def Action.registryOp : Action → Option RegistryOp
  | .serve (.change endpoint change) => some (.ask (.change endpoint change))
  | .serve (.file _ o) => o.registryOp
  | .serve (.schedule _ _) | .serve (.begin _) | .serve (.complete _) | .serve (.saved _) => none
  | .perform op => some op

theorem registry_act (env : Setting) (c : Course) (a : Action) :
    (c.act env a).service.registry =
      a.registryOp.elim c.service.registry (c.service.registry.perform c.source) := by
  cases a with
  | serve i =>
    cases i with
    | change endpoint change => exact Service.registry_onChange _ _ _ _
    | file endpoint o => exact Service.registry_onFileOperation _ _ _ _
    | schedule path endpoint => exact Service.registry_schedule _ _ _ _
    | begin q =>
      rw [act, step]
      split
      · rw [Service.begin_eq]
        rfl
      · rfl
    | complete a =>
      rw [act, step]
      split <;> rfl
    | saved source => rfl
  | perform op => rfl

def actAll (env : Setting) (c : Course) (actions : List Action) : Course := actions.foldl (act env) c

def stays (env : Setting) (c : Course) (k : String) : List Action → Option String
  | [] => some k
  | a :: actions => (a.registryOp.elim (some k) (c.service.registry.stays k)).bind fun k' =>
    stays env (c.act env a) k' actions

variable {env : Setting} {c : Course} {k k' : String} {copy : WorkingCopy}

theorem frozen_act {a : Action} (hk : c.service.registry.copies.get? k = some copy)
    (hlost : copy.synchronized = false)
    (hstays : a.registryOp.elim (some k) (c.service.registry.stays k) = some k') :
    ∃ now, (c.act env a).service.registry.copies.get? k' = some now ∧ copy.Frozen now := by
  rw [registry_act]
  cases hop : a.registryOp with
  | none =>
    rw [hop] at hstays
    obtain rfl := Option.some.inj hstays
    exact ⟨copy, hk, .refl hlost⟩
  | some op =>
    rw [hop] at hstays
    exact Registry.frozen_perform c.source hk hlost hstays

theorem frozen_actAll (actions : List Action) (hk : c.service.registry.copies.get? k = some copy)
    (hlost : copy.synchronized = false) (hstays : stays env c k actions = some k') :
    ∃ now, (c.actAll env actions).service.registry.copies.get? k' = some now ∧ copy.Frozen now := by
  induction actions generalizing c k copy with
  | nil =>
    obtain rfl := Option.some.inj hstays
    exact ⟨copy, hk, .refl hlost⟩
  | cons a actions ih =>
    obtain ⟨k₁, hfirst, hrest⟩ := Option.bind_eq_some_iff.1 hstays
    obtain ⟨next, hnext, hfrozen⟩ := frozen_act hk hlost hfirst
    obtain ⟨now, hnow, hfrozen'⟩ := ih hnext hfrozen.lost hrest
    exact ⟨now, hnow, hfrozen.trans hfrozen'⟩

variable {change : TextChange}

theorem apply_lost (hk : c.service.registry.copies.get? (Path.clean change.location) = some copy)
    (hlost : copy.synchronized = false) (hdelta : change.resync = false) (endpoint : String) :
    (c.service.registry.apply c.source change endpoint).2 = .error (.desynchronized copy.location) := by
  rw [Registry.apply_snd, Registry.target_of_find c.source change endpoint hk]
  rw [Registry.changeCopy_of_lost (c := copy.noteSender endpoint change.owner) hlost hdelta]
  rfl

/-- The sender of a delta is asked once for the whole content. -/
theorem changed_lost (env : Setting)
    (hk : c.service.registry.copies.get? (Path.clean change.location) = some copy)
    (hlost : copy.synchronized = false) (hdelta : change.resync = false) (endpoint : String) :
    (c.changed env endpoint change).result = .error (.desynchronized copy.location) ∧
      (c.changed env endpoint change).sent =
        [⟨endpoint, .resync (Service.resyncRequest change (.desynchronized copy.location))⟩] := by
  have happly := apply_lost hk hlost hdelta endpoint
  rw [changed]
  rcases Service.onChange_cases (c.setting env) c.service endpoint change with ⟨n, hn, -⟩ | ⟨e, he, h⟩
  · exact absurd (hn.symm.trans happly) (by simp)
  · obtain rfl := Except.error.inj (he.symm.trans happly)
    rw [h]
    exact ⟨rfl, rfl⟩

/-- The whole content mends a copy. -/
theorem changed_whole (env : Setting)
    (hk : c.service.registry.copies.get? (Path.clean change.location) = some copy)
    (hwhole : change.resync = true) (endpoint : String) :
    (c.changed env endpoint change).result = .ok () ∧
      ∃ next, (c.changed env endpoint change).service.registry.copies.get? (Path.clean change.location) =
          some next ∧
        next.synchronized = true ∧ next.content = change.text.getD "" ∧
        next.revision = copy.revision + 1 := by
  have hchanged : Registry.changeCopy (copy.noteSender endpoint change.owner) change =
      ((copy.noteSender endpoint change.owner).resync (change.text.getD ""), .ok ()) := if_pos hwhole
  have htarget := Registry.target_of_find c.source change endpoint hk
  constructor
  · rw [changed]
    rcases Service.onChange_cases (c.setting env) c.service endpoint change with ⟨n, -, h⟩ | ⟨e, he, -⟩
    · rw [h]
    · rw [Registry.apply_snd, setting, htarget, hchanged] at he
      exact absurd he (by simp [Except.map])
  · rw [changed, Service.registry_onChange, Registry.get?_apply, if_pos rfl, setting, htarget, hchanged]
    exact ⟨_, rfl, rfl, rfl, rfl⟩

/-- No analysis begins on a copy that is not synchronized. -/
theorem begin_lost (env : Setting) {q : AnalysisRequest}
    (hk : c.service.registry.copies.get? (Path.clean q.key) = some copy)
    (hlost : copy.synchronized = false) :
    (c.step env (.begin q)).service.running = c.service.running ∧
      (c.step env (.begin q)).notes = c.notes := by
  rw [step]
  split
  · have hnone : c.service.begun q = none := by
      rw [Service.begun, Registry.find_eq, hk]
      simp [hlost]
    rw [Service.begin_eq, hnone]
    exact ⟨List.append_nil _, rfl⟩
  · exact ⟨rfl, rfl⟩

/-- As long as a copy that is not synchronized is neither given up nor given the whole content, it keeps
its text and its revision, under whichever key it is. Every delta for it fails, and its sender is asked
once for the whole content; no analysis begins on it. The whole content, when it comes, is its text then,
at the next revision. -/
theorem frozen_until_whole (env : Setting) (c : Course) {k : String} {copy : WorkingCopy}
    (hk : c.service.registry.copies.get? k = some copy) (hlost : copy.synchronized = false)
    (actions : List Action) {k' : String} (hstays : stays env c k actions = some k') :
    ∃ now, (c.actAll env actions).service.registry.copies.get? k' = some now ∧
      now.synchronized = false ∧ now.content = copy.content ∧ now.revision = copy.revision ∧
      (∀ endpoint change, Path.clean change.location = k' → change.resync = false →
        ((c.actAll env actions).service.registry.apply (c.actAll env actions).source change endpoint).2 =
            .error (.desynchronized now.location) ∧
          ((c.actAll env actions).changed env endpoint change).result =
            .error (.desynchronized now.location) ∧
          ((c.actAll env actions).changed env endpoint change).sent =
            [⟨endpoint, .resync (Service.resyncRequest change (.desynchronized now.location))⟩]) ∧
      (∀ q : AnalysisRequest, Path.clean q.key = k' →
        ((c.actAll env actions).step env (.begin q)).service.running =
            (c.actAll env actions).service.running ∧
          ((c.actAll env actions).step env (.begin q)).notes = (c.actAll env actions).notes) ∧
      ∀ endpoint change, Path.clean change.location = k' → change.resync = true →
        ((c.actAll env actions).changed env endpoint change).result = .ok () ∧
          ∃ next, ((c.actAll env actions).changed env endpoint change).service.registry.copies.get? k' =
              some next ∧
            next.synchronized = true ∧ next.content = change.text.getD "" ∧
            next.revision = copy.revision + 1 := by
  obtain ⟨now, hnow, hfrozen⟩ := frozen_actAll actions hk hlost hstays
  refine ⟨now, hnow, hfrozen.lost, hfrozen.content, hfrozen.revision, ?_, ?_, ?_⟩
  · rintro endpoint change rfl hdelta
    exact ⟨apply_lost hnow hfrozen.lost hdelta endpoint, changed_lost env hnow hfrozen.lost hdelta endpoint⟩
  · rintro q rfl
    exact begin_lost env hnow hfrozen.lost
  · rintro endpoint change rfl hwhole
    rw [← hfrozen.revision]
    exact changed_whole env hnow hwhole endpoint

def outOfRange : List Input :=
  [.file "client-1" { action := .start, path := "/p/a", project := some "/p" },
    .change "client-1" { offset := 99, removed := 1, location := "/p/a", project := "/p" }]

def carriedOn : List Action :=
  [.serve (.file "client-2" { action := .start, path := "/p/a" }),
    .serve (.begin ⟨"/p/a", "client-1"⟩),
    .serve (.file "client-1" { action := .suspend, path := "/p/a" }),
    .serve (.file "client-1" { action := .move, path := "/p/b", oldPath := some "/p/a" }),
    .serve (.change "client-2" { offset := 0, text := some "x", location := "/p/b", project := "/p" }),
    .perform (.ask (.setState "/p/./b" .started))]

theorem frozen_until_whole_carriedOn :
    let env : Setting := { source := fun _ => .ok "ab" }
    ∃ now, ((run env outOfRange).actAll env carriedOn).service.registry.copies.get? "/p/b" = some now ∧
      now.synchronized = false ∧ now.content = "ab" ∧ now.revision = 0 := by
  intro env
  have hk : (run env outOfRange).service.registry.copies.get? "/p/a" =
      some { location := "/p/a", project := "/p", content := "ab", synchronized := false,
             endpoint := some "client-1" } := by decide +kernel
  obtain ⟨now, hnow, hlost, hcontent, hrevision, -⟩ :=
    frozen_until_whole env (run env outOfRange) hk rfl carriedOn (by decide +kernel : _ = some "/p/b")
  exact ⟨now, hnow, hlost, hcontent, hrevision⟩

end Course
end EditSync
