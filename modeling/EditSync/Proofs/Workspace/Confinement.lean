import EditSync.Proofs.Path.Ascent
import EditSync.Proofs.Workspace.Independence

/-! The workspace confines what is read. A file is looked up below a root folder under the key of its
path; whatever the path, what is read is a file that is reached from the root by going down, and a path
that climbs out of its start reads nothing. -/

namespace EditSync

/-- The workspace below a root folder. Files outside of the program are read by their whole names. -/
def Source.rooted (root : String) (read : String → Except IoFault String) : Source := fun path =>
  match Path.resolve root path with
  | .ok file => (read file).mapError .io
  | .error e => .error e

/-- A tree of files as it is read when its top is at `root`. -/
def Disk.mounted (root : String) (d : Disk) (file : String) : Except IoFault String :=
  d.readText (file.toList.drop (Path.join root "").toList.length)

namespace Source

variable {root path file : String} {read read' : String → Except IoFault String}

theorem rooted_of_ok (h : Path.resolve root path = .ok file) :
    rooted root read path = (read file).mapError .io := by
  rw [rooted, h]

theorem rooted_of_error {e : SyncError} (h : Path.resolve root path = .error e) :
    rooted root read path = .error e := by
  rw [rooted, h]

/-- A path is answered from the one file that it resolves to. -/
theorem rooted_congr (same : ∀ file, Path.resolve root path = .ok file → read file = read' file) :
    rooted root read path = rooted root read' path := by
  cases h : Path.resolve root path with
  | ok file => rw [rooted_of_ok h, rooted_of_ok h, same file h]
  | error e => rw [rooted_of_error h, rooted_of_error h]

end Source

/-- A tree of files is a workspace below a root, wherever that is. -/
theorem Disk.source_eq_rooted (root : String) (d : Disk) : d.source = Source.rooted root (d.mounted root) := by
  funext path
  have hread : d.mounted root (Path.join root (Path.fromRoot path)) =
      d.readText (Path.dropSlashes path.toList) := by
    rw [mounted, Path.join_of_relative root (Path.isAbsolute_fromRoot path), String.toList_append,
      List.drop_left, Path.fromRoot, String.toList_ofList]
  by_cases h : ['.', '.'] ∈ Path.pieces path.toList
  · rw [Source.rooted_of_error (Path.resolve_of_climb h root)]
    exact if_pos ((Path.climbs_dropSlashes path.toList).2 h)
  · rw [Source.rooted_of_ok (Path.resolve_of_no_climb h root), hread, source,
      if_neg (h ∘ (Path.climbs_dropSlashes path.toList).1)]
    cases d.readText (Path.dropSlashes path.toList) <;> rfl

namespace Registry

/-- A request asks the workspace at most for the file of its key. -/
theorem serve_congr_source (r : Registry) {source source' : Source} {request : FileRequest}
    (same : source request.key = source' request.key) :
    r.serve source request = r.serve source' request := by
  cases request with
  | start path project =>
    have hstart : r.start source path project = r.start source' path project := by
      rw [start, start, show source (Path.clean path) = source' (Path.clean path) from same]
    rw [serve, serve, hstart]
  | stop path => rfl
  | setState path state => rfl
  | change endpoint change =>
    have hfresh : fresh source (Path.clean change.location) change.location change.project =
        fresh source' (Path.clean change.location) change.location change.project := by
      rw [fresh, fresh, show source (Path.clean change.location) = source' (Path.clean change.location) from same]
    rw [serve, serve, apply, apply, hfresh]

/-- A path is refused exactly if its key still climbs, and that is if the path is relative and climbs above
its start. Every other path, and so every absolute one, reads the file that is found below the root by a
relative path without climbs, the one that leads from the root where the path leads from the top. No
request reads another file. -/
theorem confined_below_root (root path : String) :
    (['.', '.'] ∈ Path.pieces (Path.clean path).toList ↔ Path.ClimbsOut path.toList) ∧
    (∀ e, Path.resolve root (Path.clean path) = .error e ↔
      ['.', '.'] ∈ Path.pieces (Path.clean path).toList ∧ e = .untracked (Path.clean path)) ∧
    (¬ Path.ClimbsOut path.toList → ∃ relative : String,
      Path.isAbsolute relative.toList = false ∧ ['.', '.'] ∉ Path.pieces relative.toList ∧
      Path.leadsTo [] relative.toList = Path.leadsTo [] path.toList ∧
      Path.join root relative = Path.join root "" ++ relative ∧
      Path.resolve root (Path.clean path) = .ok (Path.join root relative) ∧
      ∀ read, Source.rooted root read (Path.clean path) = (read (Path.join root relative)).mapError .io) ∧
    (Path.isAbsolute path.toList = true →
      ∃ file, Path.resolve root (Path.clean path) = .ok file ∧ Path.Below root file) ∧
    (∀ (read read' : String → Except IoFault String) (r : Registry) (request : FileRequest),
      request.key = Path.clean path →
      (∀ file, Path.resolve root (Path.clean path) = .ok file → read file = read' file) →
      r.serve (Source.rooted root read) request = r.serve (Source.rooted root read') request) ∧
    ∀ d : Disk, d.source = Source.rooted root (d.mounted root) := by
  have hclimb := Path.climb_mem_clean_iff path
  refine ⟨hclimb, fun e => ?_, fun hstays => ?_, fun habsolute => ?_, fun read read' r request hkey same => ?_,
    fun d => d.source_eq_rooted root⟩
  · by_cases h : ['.', '.'] ∈ Path.pieces (Path.clean path).toList
    · rw [Path.resolve_of_climb h, and_iff_right h, Except.error.injEq, eq_comm]
    · rw [Path.resolve_of_no_climb h]
      exact iff_of_false (by simp) fun he => h he.1
  · have h := hstays ∘ hclimb.1
    have hresolve := Path.resolve_of_no_climb h root
    refine ⟨Path.fromRoot (Path.clean path), Path.isAbsolute_fromRoot _, h ∘ (Path.climb_mem_fromRoot_iff _).1,
      ?_, Path.join_of_relative root (Path.isAbsolute_fromRoot _), hresolve,
      fun read => Source.rooted_of_ok hresolve⟩
    rw [Path.leadsTo_fromRoot, Path.clean, String.toList_ofList, Path.leadsTo_cleanChars]
  · have h := mt hclimb.1 fun hout => absurd (habsolute.symm.trans hout.1) (by simp)
    exact ⟨_, Path.resolve_of_no_climb h root, Path.below_fromRoot h root⟩
  · exact r.serve_congr_source (hkey ▸ Source.rooted_congr same)

/-- A path from the top that climbs more often than it can, and the like from elsewhere. -/
theorem confined_below_root_climbing :
    let read : String → Except IoFault String := fun _ => .ok "x"
    let read' : String → Except IoFault String := fun file =>
      if file = "/srv/ws/etc/passwd" then .ok "x" else .error .notFound
    Path.isAbsolute "/p/../../etc/./passwd".toList = true ∧
      ¬ Path.ClimbsOut "/p/../../etc/./passwd".toList ∧
      (∃ relative, ['.', '.'] ∉ Path.pieces relative.toList ∧
        Path.leadsTo [] relative.toList = Path.leadsTo [] "/p/../../etc/./passwd".toList ∧
        Path.join "/srv/ws" relative = "/srv/ws/etc/passwd") ∧
      Path.resolve "/srv/ws" (Path.clean "/p/../../etc/./passwd") = .ok "/srv/ws/etc/passwd" ∧
      Path.Below "/srv/ws" "/srv/ws/etc/passwd" ∧
      ({} : Registry).serve (Source.rooted "/srv/ws" read) (.start "/etc//passwd" none) =
        ({} : Registry).serve (Source.rooted "/srv/ws" read') (.start "/etc//passwd" none) ∧
      Path.ClimbsOut "p/../../etc/passwd".toList ∧
      Path.resolve "/srv/ws" (Path.clean "p/../../etc/passwd") = .error (.untracked "../etc/passwd") := by
  intro read read'
  obtain ⟨hclimb, -, hstays, habsolute, hread, -⟩ := confined_below_root "/srv/ws" "/p/../../etc/./passwd"
  have hresolve : Path.resolve "/srv/ws" (Path.clean "/p/../../etc/./passwd") = .ok "/srv/ws/etc/passwd" := by
    decide +kernel
  have hstay : ¬ Path.ClimbsOut "/p/../../etc/./passwd".toList := fun h => absurd (hclimb.2 h) (by decide +kernel)
  obtain ⟨relative, -, hdown, hplace, -, hjoin, -⟩ := hstays hstay
  obtain ⟨file, hfile, hbelow⟩ := habsolute rfl
  obtain rfl := Except.ok.inj (hfile.symm.trans hresolve)
  have hout : Path.ClimbsOut "p/../../etc/passwd".toList :=
    ⟨rfl, [['p'], ['.', '.'], ['.', '.']], by decide, by decide⟩
  obtain ⟨hclimb', hrefused, -⟩ := confined_below_root "/srv/ws" "p/../../etc/passwd"
  have herror := (hrefused _).2 ⟨hclimb'.2 hout, rfl⟩
  refine ⟨rfl, hstay, ⟨relative, hdown, hplace, ?_⟩, hresolve, hbelow, ?_, hout, herror⟩
  · exact Except.ok.inj (hjoin.symm.trans hresolve)
  · refine hread read read' {} (.start "/etc//passwd" none) (by decide +kernel) fun other hother => ?_
    obtain rfl := Except.ok.inj (hother.symm.trans hresolve)
    rfl

end Registry
end EditSync
