import EditSync.Proofs.Workspace.Frozen

/-! Moving a copy to another key. The copy keeps all that it has but its place; it takes the place of a
copy that was there before, and no other copy is touched. Where there is nothing to move, nothing
changes. -/

namespace EditSync

/-- A copy at another place. All else is as it was, but for the project if one is named. -/
structure WorkingCopy.MovedTo (path : String) (project : Option String) (copy moved : WorkingCopy) :
    Prop where
  location : moved.location = path
  project : moved.project = project.getD copy.project
  content : moved.content = copy.content
  revision : moved.revision = copy.revision
  synchronized : moved.synchronized = copy.synchronized
  state : moved.state = copy.state
  owner : moved.owner = copy.owner
  endpoint : moved.endpoint = copy.endpoint

theorem WorkingCopy.movedTo_relocated (copy : WorkingCopy) (path : String) (project : Option String) :
    copy.MovedTo path project (copy.relocated path project) :=
  ⟨rfl, rfl, rfl, rfl, rfl, rfl, rfl, rfl⟩

namespace Registry

variable {r r' : Registry} {oldPath newPath : String} {project : Option String} {copy : WorkingCopy}

theorem move_of_none (other : Path.clean oldPath ≠ Path.clean newPath) (free : r.find oldPath = none)
    (project : Option String) : r.move oldPath newPath project = .error (.untracked oldPath) := by
  rw [find_eq] at free
  simp only [move, if_neg other, free]

/-- A copy that gives way is the only one that is lost. -/
theorem size_move (other : Path.clean oldPath ≠ Path.clean newPath) (found : r.find oldPath = some copy)
    (moved : r.move oldPath newPath project = .ok r') :
    r'.copies.size + (if r.contains newPath then 1 else 0) = r.copies.size := by
  rw [find_eq] at found
  simp only [move, if_neg other, found, Except.ok.injEq] at moved
  have hsame : (r.copies.erase (Path.clean oldPath)).contains (Path.clean newPath) = r.contains newPath := by
    rw [Table.contains_eq, Table.get?_erase_ne _ (Ne.symm other)]
    rfl
  have hold : r.copies.contains (Path.clean oldPath) = true := by rw [Table.contains_eq, found]; rfl
  have hone := r.copies.size_erase (Path.clean oldPath)
  rw [hold, if_pos rfl] at hone
  rw [← moved, Table.size_set, hsame]
  split <;> omega

/-- A tracked file that is moved to another key is found there with all that its copy had, and no longer
where it was; a copy that was there is lost, and every other copy is as before. What is not tracked cannot
be moved, and the attempt changes nothing. -/
theorem move_rekeys (source : Source) (r : Registry) (oldPath newPath : String) (project : Option String)
    (other : Path.clean oldPath ≠ Path.clean newPath) :
    (∀ copy, r.find oldPath = some copy →
      ∃ r' moved, r.move oldPath newPath project = .ok r' ∧
        r.perform source (.move oldPath newPath project) = r' ∧
        r'.find oldPath = none ∧
        r'.find newPath = some moved ∧ copy.MovedTo newPath project moved ∧
        (∀ k, k ≠ Path.clean oldPath → k ≠ Path.clean newPath →
          r'.copies.get? k = r.copies.get? k) ∧
        r'.copies.size + (if r.contains newPath then 1 else 0) = r.copies.size) ∧
    (r.find oldPath = none →
      r.move oldPath newPath project = .error (.untracked oldPath) ∧
        r.perform source (.move oldPath newPath project) = r) := by
  constructor
  · intro copy found
    rcases r.move_cases oldPath newPath project with
      ⟨hsame, -⟩ | ⟨there, r', -, hfind, hr, copies⟩ | ⟨e, -, hnone, -⟩
    · exact absurd hsame other
    · obtain rfl := Option.some.inj (found.symm.trans hfind)
      refine ⟨r', copy.relocated newPath project, hr, by rw [perform, hr], ?_, ?_,
        copy.movedTo_relocated newPath project, fun k hold hnew => ?_, size_move other found hr⟩
      · rw [find_eq, copies, if_neg other, if_pos rfl]
      · rw [find_eq, copies, if_pos rfl]
      · rw [copies, if_neg hnew, if_neg hold]
    · exact absurd (hnone.symm.trans found) (by simp)
  · intro free
    have hr := move_of_none other free project
    exact ⟨hr, by rw [perform, hr]⟩

def crowded : Registry where
  copies := Table.ofList
    [("/p/a",
        { location := "/p/a", project := "/p", content := "abc", synchronized := false, revision := 7
          state := .suspended, owner := some "o", endpoint := some "client-1" }),
      ("/p/b", { location := "/p/b", project := "/p", content := "old" })]

theorem move_rekeys_crowded :
    let copy : WorkingCopy :=
      { location := "/p/a", project := "/p", content := "abc", synchronized := false, revision := 7
        state := .suspended, owner := some "o", endpoint := some "client-1" }
    Path.clean "/p/./a" ≠ Path.clean "/p//b/" ∧ crowded.find "/p/./a" = some copy ∧
      (∃ r' moved, crowded.move "/p/./a" "/p//b/" none = .ok r' ∧ r'.find "/p/a" = none ∧
        r'.find "/p/b" = some moved ∧ copy.MovedTo "/p//b/" none moved ∧ r'.copies.size + 1 = 2) ∧
      Path.clean "/q" ≠ Path.clean "/p/b" ∧ crowded.find "/q" = none ∧
      crowded.move "/q" "/p/b" none = .error (.untracked "/q") := by
  intro copy
  have other : Path.clean "/p/./a" ≠ Path.clean "/p//b/" := by decide +kernel
  have found : crowded.find "/p/./a" = some copy := by decide +kernel
  have other' : Path.clean "/q" ≠ Path.clean "/p/b" := by decide +kernel
  have free : crowded.find "/q" = none := by decide +kernel
  obtain ⟨r', moved, hr, -, hold, hnew, hmoved, -, hsize⟩ :=
    (move_rekeys (fun _ => .ok "") crowded "/p/./a" "/p//b/" none other).1 copy found
  refine ⟨other, found, ⟨r', moved, hr, hold, hnew, hmoved, hsize⟩, other', free, ?_⟩
  exact ((move_rekeys (fun _ => .ok "") crowded "/q" "/p/b" none other').2 free).1

end Registry
end EditSync
