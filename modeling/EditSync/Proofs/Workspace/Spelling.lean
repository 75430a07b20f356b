import EditSync.Proofs.Path.Normal
import EditSync.Proofs.Workspace.Independence
import EditSync.Workspace.Service

/-! How a path is spelled does not matter. Two spellings of one path name the same copy, and what is asked
by the one comes to what it comes to by the other. Only what is told back differs: a copy that was created
keeps the spelling that it was created by, and an error repeats the one that it was asked by. -/

namespace EditSync

def SyncError.respelled (path : String) : SyncError → SyncError
  | .outOfRange _ offset length contentLength => .outOfRange path offset length contentLength
  | .desynchronized _ => .desynchronized path
  | .untracked _ => .untracked path
  | .engine _ detail => .engine path detail
  | e => e

theorem SyncError.respelled_respelled (path path' : String) (e : SyncError) :
    (e.respelled path').respelled path = e.respelled path := by
  cases e <;> rfl

def FileAnswer.respelled (path : String) : FileAnswer → FileAnswer
  | started result => started (result.mapError (.respelled path))
  | stopped tracked => stopped tracked
  | stated result => stated (result.mapError (.respelled path))
  | changed result => changed (result.mapError (.respelled path))

/-- Deltas look at the location only to name it in an error. -/
theorem WorkingCopy.relabels_location (location : String) :
    Relabels (fun c => { c with location }) (.respelled location) where
  apply c d := by
    unfold apply
    dsimp only
    split
    · cases d.apply c.content <;> rfl
    · rfl
  resync _ _ := rfl

namespace FileRequest

/-- The same request about a file by another spelling. -/
def respelled (path : String) : FileRequest → FileRequest
  | start _ project => start path project
  | stop _ => stop path
  | setState _ state => setState path state
  | change endpoint c => change endpoint { c with location := path }

theorem key_respelled (path : String) (request : FileRequest) :
    (request.respelled path).key = Path.clean path := by
  cases request <;> rfl

theorem respelled_respelled (path path' : String) (request : FileRequest) :
    (request.respelled path').respelled path = request.respelled path := by
  cases request <;> rfl

variable {source : Source} {request : FileRequest} {path : String}

/-- If there is a copy, nothing tells the one spelling from the other. -/
theorem act_respelled_some (source : Source) (request : FileRequest) (path : String) (copy : WorkingCopy) :
    (request.respelled path).act source (some copy) = request.act source (some copy) := by
  cases request <;> rfl

/-- A copy that is created has the location by which it was asked for, and so has the error. -/
theorem act_respelled_none (source : Source) (same : Path.clean path = request.key) :
    ((request.respelled path).act source none).1 =
        (request.act source none).1.map (fun c => { c with location := path }) ∧
      ∀ text, ((request.respelled path).act source none).2.respelled text =
        (request.act source none).2.respelled text := by
  cases request with
  | start path' project =>
    rw [key] at same
    simp only [respelled, act, same]
    cases source (Path.clean path') with
    | ok content => exact ⟨by simp [WorkingCopy.started, same], fun _ => rfl⟩
    | error e => exact ⟨rfl, fun _ => rfl⟩
  | stop path' => exact ⟨rfl, fun _ => rfl⟩
  | setState path' state => exact ⟨rfl, fun _ => rfl⟩
  | change endpoint c =>
    let fresh := Registry.fresh source (Path.clean c.location) c.location c.project
    let next := Registry.changeCopy (fresh.noteSender endpoint c.owner) c
    have hfresh : Registry.fresh source (Path.clean path) path c.project =
        { fresh with location := path } := by
      rw [show Path.clean path = Path.clean c.location from same]
      simp only [fresh, Registry.fresh]
      cases source (Path.clean c.location) <;> rfl
    have hnext : ((change endpoint c).respelled path).act source none =
        (some { next.1 with location := path },
          .changed ((next.2.mapError (.respelled path)).map fun _ => next.1.revision)) := by
      have hchange : Registry.changeCopy ((Registry.fresh source (Path.clean path) path
          c.project).noteSender endpoint c.owner) { c with location := path } =
            ({ next.1 with location := path }, next.2.mapError (.respelled path)) := by
        rw [hfresh]
        exact Registry.changeCopy_of_relabels (WorkingCopy.relabels_location path)
          (fresh.noteSender endpoint c.owner) c
      simp only [respelled, act, Option.getD_none, hchange]
    have hthere : (change endpoint c).act source none =
        (some next.1, .changed (next.2.map fun _ => next.1.revision)) := rfl
    rw [hnext, hthere]
    refine ⟨rfl, fun text => ?_⟩
    cases next.2 with
    | ok u => rfl
    | error e => exact congrArg (fun e => FileAnswer.changed (.error e)) (e.respelled_respelled text path)

end FileRequest

namespace Registry

variable {r : Registry} {request : FileRequest} {path : String}

/-- What is asked by another spelling of the same path gets the same answer, up to the path in an error,
and leaves the same copies, up to the location of one that is created. -/
theorem serve_respelled (source : Source) (r : Registry) (same : Path.clean path = request.key) :
    (∀ text, (r.serve source (request.respelled path)).2.respelled text =
        (r.serve source request).2.respelled text) ∧
      (r.contains path = true →
        (r.serve source (request.respelled path)).2 = (r.serve source request).2) ∧
      ∀ k, (r.serve source (request.respelled path)).1.copies.get? k =
        if k = request.key ∧ r.contains path = false then
          ((r.serve source request).1.copies.get? k).map fun c => { c with location := path }
        else (r.serve source request).1.copies.get? k := by
  obtain ⟨hanswer, hcopies⟩ := r.serve_spec source request
  obtain ⟨hanswer', hcopies'⟩ := r.serve_spec source (request.respelled path)
  rw [FileRequest.key_respelled, same] at hanswer' hcopies'
  have hcontains : r.contains path = (r.copies.get? request.key).isSome := by
    rw [contains, find_eq, same]
  rw [hcontains, hanswer, hanswer']
  cases hget : r.copies.get? request.key with
  | some copy =>
    rw [hget] at hcopies hcopies'
    have hact := request.act_respelled_some source path copy
    have htracked (k : String) : ¬ (k = request.key ∧ (some copy).isSome = false) := by simp
    refine ⟨fun text => by rw [hact], fun _ => by rw [hact], fun k => ?_⟩
    rw [if_neg (htracked k), hcopies, hcopies', hact]
  | none =>
    rw [hget] at hcopies hcopies'
    obtain ⟨hcopy, hanswers⟩ := FileRequest.act_respelled_none source same
    refine ⟨hanswers, fun h => absurd h (by simp), fun k => ?_⟩
    rw [hcopies, hcopies', hcopy]
    by_cases hk : k = request.key
    · rw [if_pos hk, if_pos ⟨hk, rfl⟩, if_pos hk]
    · rw [if_neg hk, if_neg fun h => hk h.1, if_neg hk]

/-- The clean form of a path is its own clean form, as exactly the normal forms are; and two paths have the
same one exactly if they lead to the same places. Then all that is asked of a registry by the one comes to
what it comes to by the other: queries and answers are the same, and so are the copies, apart from the path
in an error and the location of a copy that is created. -/
theorem spelling_immaterial (p q : String) :
    Path.clean (Path.clean p) = Path.clean p ∧ Path.Normal (Path.clean p).toList ∧
      (Path.clean p = p ↔ Path.Normal p.toList) ∧
      (Path.clean p = Path.clean q ↔
        Path.isAbsolute p.toList = Path.isAbsolute q.toList ∧
          ∀ folder, Path.leadsTo folder p.toList = Path.leadsTo folder q.toList) ∧
      (Path.clean p = Path.clean q → ∀ (source : Source) (r : Registry),
        r.find p = r.find q ∧ r.find (Path.clean p) = r.find q ∧ r.contains p = r.contains q ∧
        r.state p = r.state q ∧
        (∀ env s endpoint, Service.schedule env s p endpoint = Service.schedule env s q endpoint) ∧
        ∀ request : FileRequest,
          let byP := r.serve source (request.respelled p)
          let byQ := r.serve source (request.respelled q)
          (∀ text, byP.2.respelled text = byQ.2.respelled text) ∧
          (r.contains p = true → byP.2 = byQ.2) ∧
          ∀ k, byQ.1.copies.get? k =
            if k = Path.clean p ∧ r.contains p = false then
              (byP.1.copies.get? k).map fun c => { c with location := q }
            else byP.1.copies.get? k) := by
  refine ⟨Path.clean_clean p, ?_, Path.clean_eq_self_iff, Path.clean_eq_clean_iff, fun same source r => ?_⟩
  · rw [Path.clean, String.toList_ofList]
    exact Path.normal_cleanChars p.toList
  · have hfind : r.find p = r.find q := by rw [find_eq, find_eq, same]
    have hcontains : r.contains p = r.contains q := by rw [contains, contains, hfind]
    refine ⟨hfind, by rw [find_eq, Path.clean_clean, same, ← find_eq], hcontains, ?_, ?_, fun request => ?_⟩
    · rw [state, state, hfind]
    · intro env s endpoint
      rw [Service.schedule, Service.schedule, same]
    · have hkey := request.key_respelled p
      obtain ⟨hanswers, htracked, hcopies⟩ := r.serve_respelled source (same.symm.trans hkey.symm)
      rw [FileRequest.respelled_respelled, ← hcontains] at *
      rw [hkey] at hcopies
      exact ⟨fun text => (hanswers text).symm, fun h => (htracked h).symm, hcopies⟩

def pastEnd : FileRequest := .change "client-1" (.ofDelta (.insert 9 "d") "" "/p" "o")

theorem spelling_immaterial_pastEnd :
    let source : Source := fun _ => .ok "abc"
    let byP := ({} : Registry).serve source (pastEnd.respelled "/p/./a")
    let byQ := ({} : Registry).serve source (pastEnd.respelled "//p/b/../a/")
    Path.clean "/p/./a" = Path.clean "//p/b/../a/" ∧
      (∀ text, byP.2.respelled text = byQ.2.respelled text) ∧
      (∃ copy, byP.1.copies.get? "/p/a" = some copy ∧
        byQ.1.copies.get? "/p/a" = some { copy with location := "//p/b/../a/" }) ∧
      byP.1.contains "/p/./a" = true ∧
      (byP.1.serve source (pastEnd.respelled "/p/./a")).2 =
        (byP.1.serve source (pastEnd.respelled "//p/b/../a/")).2 := by
  intro source byP byQ
  have same : Path.clean "/p/./a" = Path.clean "//p/b/../a/" := by decide +kernel
  have htracked : byP.1.contains "/p/./a" = true := by decide +kernel
  have hcopy : byP.1.copies.get? "/p/a" =
      some { location := "/p/./a", project := "/p", content := "abc", synchronized := false
             owner := some "o", endpoint := some "client-1" } := by decide +kernel
  obtain ⟨-, -, -, -, hsame⟩ := spelling_immaterial "/p/./a" "//p/b/../a/"
  obtain ⟨-, -, -, -, -, hfirst⟩ := hsame same source {}
  obtain ⟨hanswers, -, hcopies⟩ := hfirst pastEnd
  obtain ⟨-, -, -, -, -, hagain⟩ := hsame same source byP.1
  have hplaced := hcopies "/p/a"
  rw [if_pos ⟨by decide +kernel, by decide +kernel⟩, hcopy] at hplaced
  exact ⟨same, hanswers, ⟨_, hcopy, hplaced⟩, htracked, (hagain pastEnd).2.1 htracked⟩

end Registry
end EditSync
