import EditSync.Proofs.Workspace.Registry

/-! Files do not get into each other's way. Whatever is asked about one file depends on the copy of that
file alone and changes no other; so in every interleaving of what is asked about several files, each file
gets the answers and ends with the copy that it would have had without the others. -/

namespace EditSync

inductive FileRequest where
  | start (path : String) (project : Option String)
  | stop (path : String)
  /-- Suspends or resumes. -/
  | setState (path : String) (state : TrackingState)
  /-- Some deltas or the whole content. -/
  | change (endpoint : String) (change : TextChange)

inductive FileAnswer where
  | started (result : Except SyncError Bool)
  | stopped (tracked : Bool)
  | stated (result : Except SyncError Unit)
  | changed (result : Except SyncError Nat)

namespace FileRequest

def key : FileRequest → String
  | start path _ | stop path | setState path _ => Path.clean path
  | change _ c => Path.clean c.location

def act (source : Source) : FileRequest → Option WorkingCopy → Option WorkingCopy × FileAnswer
  | start _ _, some copy => (some copy, .started (.ok false))
  | start path project, none =>
    match source (Path.clean path) with
    | .ok content => (some (.started path project content), .started (.ok true))
    | .error e => (none, .started (.error e))
  | stop _, copy => (none, .stopped copy.isSome)
  | setState _ state, some copy => (some { copy with state }, .stated (.ok ()))
  | setState path _, none => (none, .stated (.error (.untracked path)))
  | change endpoint c, copy =>
    let copy := copy.getD (Registry.fresh source (Path.clean c.location) c.location c.project)
    let (copy, result) := Registry.changeCopy (copy.noteSender endpoint c.owner) c
    (some copy, .changed (result.map fun _ => copy.revision))

end FileRequest

namespace Registry

/-- Does what is asked. A request that fails leaves the registry as it is, but for the copy that a
change may have created. -/
def serve (source : Source) (r : Registry) : FileRequest → Registry × FileAnswer
  | .start path project =>
    match r.start source path project with
    | .ok (r, new) => (r, .started (.ok new))
    | .error e => (r, .started (.error e))
  | .stop path => ((r.stop path).1, .stopped (r.stop path).2)
  | .setState path state =>
    match r.setState path state with
    | .ok r => (r, .stated (.ok ()))
    | .error e => (r, .stated (.error e))
  | .change endpoint change =>
    ((r.apply source change endpoint).1, .changed (r.apply source change endpoint).2)

def serveAll (source : Source) (r : Registry) :
    List FileRequest → Registry × List (FileRequest × FileAnswer)
  | [] => (r, [])
  | q :: qs =>
    let (r, answer) := r.serve source q
    let (r, answers) := serveAll source r qs
    (r, (q, answer) :: answers)

theorem setState_of_none {r : Registry} {path : String} (h : r.find path = none) (state : TrackingState) :
    r.setState path state = .error (.untracked path) := by
  rw [find_eq] at h
  simp only [setState, h]

/-- A request looks at the copy of its own file, and at no other. -/
theorem serve_spec (source : Source) (r : Registry) (q : FileRequest) :
    (r.serve source q).2 = (q.act source (r.copies.get? q.key)).2 ∧
      ∀ k, (r.serve source q).1.copies.get? k =
        if k = q.key then (q.act source (r.copies.get? q.key)).1 else r.copies.get? k := by
  have unchanged {path : String} {copy : Option WorkingCopy} (found : r.find path = copy) (k : String) :
      r.copies.get? k = if k = Path.clean path then copy else r.copies.get? k := by
    split
    · next hk => rw [hk]; exact found
    · rfl
  cases q with
  | start path project =>
    rw [FileRequest.key, serve]
    rcases r.start_cases source path project with
      ⟨copy, found, hr⟩ | ⟨content, r', found, read, hr, copies⟩ | ⟨e, found, read, hr⟩
    · rw [← find_eq, found, hr]
      exact ⟨rfl, unchanged found⟩
    · rw [← find_eq, found, hr]
      simp only [FileRequest.act, read]
      exact ⟨trivial, copies⟩
    · rw [← find_eq, found, hr]
      simp only [FileRequest.act, read]
      exact ⟨trivial, unchanged found⟩
  | stop path => exact ⟨rfl, r.get?_stop path⟩
  | setState path state =>
    rw [FileRequest.key, serve]
    rcases r.setState_cases path state with ⟨copy, r', found, hr, copies⟩ | ⟨e, found, hr⟩
    · rw [← find_eq, found, hr]
      exact ⟨rfl, copies⟩
    · rw [← find_eq, found, setState_of_none found]
      exact ⟨rfl, unchanged found⟩
  | change endpoint change => exact ⟨rfl, r.get?_apply source change endpoint⟩

theorem get?_serve_of_ne (source : Source) (r : Registry) {q : FileRequest} {k : String} (h : q.key ≠ k) :
    (r.serve source q).1.copies.get? k = r.copies.get? k := by
  rw [(r.serve_spec source q).2, if_neg (Ne.symm h)]

/-- Two registries that agree on the file of a request give the same answer and agree again. -/
theorem serve_congr (source : Source) {r r' : Registry} {q : FileRequest}
    (h : r.copies.get? q.key = r'.copies.get? q.key) :
    (r.serve source q).2 = (r'.serve source q).2 ∧
      (r.serve source q).1.copies.get? q.key = (r'.serve source q).1.copies.get? q.key := by
  obtain ⟨hanswer, hcopies⟩ := r.serve_spec source q
  obtain ⟨hanswer', hcopies'⟩ := r'.serve_spec source q
  rw [hanswer, hcopies, hanswer', hcopies', h]
  exact ⟨rfl, rfl⟩

/-- What is asked about other files can be left out. -/
theorem serveAll_filter (source : Source) (k : String) (qs : List FileRequest) {r r' : Registry}
    (h : r.copies.get? k = r'.copies.get? k) :
    (r.serveAll source qs).2.filter (fun e => e.1.key = k) =
        (r'.serveAll source (qs.filter fun q => q.key = k)).2 ∧
      (r.serveAll source qs).1.copies.get? k =
        (r'.serveAll source (qs.filter fun q => q.key = k)).1.copies.get? k := by
  induction qs generalizing r r' with
  | nil => exact ⟨rfl, h⟩
  | cons q qs ih =>
    by_cases hk : q.key = k
    · obtain ⟨hanswer, hcopy⟩ := serve_congr source (hk ▸ h : r.copies.get? q.key = r'.copies.get? q.key)
      obtain ⟨hanswers, hfinal⟩ := ih (hk ▸ hcopy)
      rw [List.filter_cons_of_pos (by simpa using hk)]
      simp only [serveAll, hanswer, hanswers, hfinal, hk, decide_true, List.filter_cons_of_pos]
      exact ⟨trivial, trivial⟩
    · obtain ⟨hanswers, hfinal⟩ := ih ((r.get?_serve_of_ne source hk).trans h)
      rw [List.filter_cons_of_neg (by simpa using hk)]
      simp only [serveAll, hanswers, hfinal, hk, decide_false, Bool.false_eq_true, not_false_eq_true,
        List.filter_cons_of_neg]
      exact ⟨trivial, trivial⟩

end Registry

/-- A list that takes its elements from the fronts of several lists, in any order, until all are used. -/
inductive Interleaves {α : Type} : List (List α) → List α → Prop
  | done {lists : List (List α)} (used : ∀ l ∈ lists, l = []) : Interleaves lists []
  | turn {lists : List (List α)} {i : Nat} {x : α} {rest xs : List α}
      (next : lists[i]? = some (x :: rest)) (later : Interleaves (lists.set i rest) xs) :
      Interleaves lists (x :: xs)

/-- What is told apart from everything in the other lists is found again in its order. -/
theorem Interleaves.filter_eq {α : Type} {p : α → Bool} {lists : List (List α)} {xs : List α}
    (h : Interleaves lists xs) {i : Nat} {own : List α} (found : lists[i]? = some own)
    (mine : ∀ x ∈ own, p x = true)
    (others : ∀ j l, j ≠ i → lists[j]? = some l → ∀ x ∈ l, p x = false) : xs.filter p = own := by
  induction h generalizing own with
  | done used => exact (used own (List.mem_of_getElem? found)).symm
  | @turn lists j x rest xs next later ih =>
    by_cases hji : j = i
    · subst hji
      obtain rfl := Option.some.inj (next.symm.trans found)
      rw [List.filter_cons_of_pos (mine x List.mem_cons_self)]
      have hlt : j < lists.length := (List.getElem?_eq_some_iff.1 next).1
      refine congrArg (x :: ·) (ih (List.getElem?_set_self hlt) (fun y hy => mine y (List.mem_cons_of_mem x hy)) ?_)
      intro k l hk hl
      rw [List.getElem?_set_ne (Ne.symm hk)] at hl
      exact others k l hk hl
    · have hx : p x = false := others j _ hji next x List.mem_cons_self
      rw [List.filter_cons_of_neg (by simp [hx])]
      refine ih ((List.getElem?_set_ne hji).trans found) mine ?_
      intro k l hk hl
      by_cases hkj : k = j
      · subst hkj
        have hlt : k < lists.length := (List.getElem?_eq_some_iff.1 next).1
        rw [List.getElem?_set_self hlt] at hl
        obtain rfl := Option.some.inj hl
        exact fun y hy => others k _ hk next y (List.mem_cons_of_mem x hy)
      · rw [List.getElem?_set_ne (Ne.symm hkj)] at hl
        exact others k l hk hl

/-- In every interleaving of what is asked about several files, each file gets the answers that it gets
alone and ends with the copy that it ends with alone. -/
theorem Registry.files_independent (source : Source) (plans : List (String × List FileRequest))
    (apart : (plans.map fun p => Path.clean p.1).Nodup)
    (own : ∀ p ∈ plans, ∀ q ∈ p.2, q.key = Path.clean p.1)
    (requests : List FileRequest) (merged : Interleaves (plans.map Prod.snd) requests) :
    ∀ p ∈ plans,
      (serveAll source {} requests).2.filter (fun e => e.1.key = Path.clean p.1) =
          (serveAll source {} p.2).2 ∧
        (serveAll source {} requests).1.find p.1 = (serveAll source {} p.2).1.find p.1 := by
  intro p hp
  obtain ⟨i, hi, rfl⟩ := List.getElem_of_mem hp
  have hown : requests.filter (fun q => q.key = Path.clean plans[i].1) = plans[i].2 := by
    refine merged.filter_eq (i := i) (by simp [hi]) (fun q hq => by simpa using own _ hp q hq) ?_
    intro j l hj hl q hq
    rw [List.getElem?_map, Option.map_eq_some_iff] at hl
    obtain ⟨other, hother, rfl⟩ := hl
    obtain ⟨hlt, rfl⟩ := List.getElem?_eq_some_iff.1 hother
    rw [own _ (List.getElem_mem hlt) q hq, decide_eq_false_iff_not]
    intro hsame
    have hkeys : (plans.map fun p => Path.clean p.1)[j]? = (plans.map fun p => Path.clean p.1)[i]? := by
      simp [hlt, hi, hsame]
    exact hj ((List.getElem?_inj (by simpa using hlt) apart).1 hkeys)
  have hfilter := serveAll_filter source (Path.clean plans[i].1) requests
    (rfl : ({} : Registry).copies.get? _ = ({} : Registry).copies.get? _)
  rw [hown] at hfilter
  exact hfilter

def twoFiles : List (String × List FileRequest) :=
  [("/p/a", [.start "/p/./a" none, .change "client-1"
      { offset := 9, removed := 1, location := "/p//a", project := "/p" }, .setState "/p/a" .suspended]),
    ("/p/b/", [.change "client-2" { offset := 0, text := some "xy", location := "/p/b", project := "" },
      .change "client-1" (.ofContent "text" "/p/c/../b" "/p" "owner"), .stop "/p/b"])]

def twoFilesMerged : List FileRequest :=
  [.change "client-2" { offset := 0, text := some "xy", location := "/p/b", project := "" },
    .start "/p/./a" none,
    .change "client-1" (.ofContent "text" "/p/c/../b" "/p" "owner"),
    .change "client-1" { offset := 9, removed := 1, location := "/p//a", project := "/p" },
    .setState "/p/a" .suspended,
    .stop "/p/b"]

theorem Registry.files_independent_inTurns :
    let source : Source := fun key => if key = "/p/a" then .ok "abc" else .error (.io .notFound)
    (twoFiles.map fun p => Path.clean p.1).Nodup ∧
      (∀ p ∈ twoFiles, ∀ q ∈ p.2, q.key = Path.clean p.1) ∧
      Interleaves (twoFiles.map Prod.snd) twoFilesMerged ∧
      ∀ p ∈ twoFiles,
        (serveAll source {} twoFilesMerged).2.filter (fun e => e.1.key = Path.clean p.1) =
            (serveAll source {} p.2).2 ∧
          (serveAll source {} twoFilesMerged).1.find p.1 = (serveAll source {} p.2).1.find p.1 := by
  intro source
  have apart : (twoFiles.map fun p => Path.clean p.1).Nodup := by decide +kernel
  have own : ∀ p ∈ twoFiles, ∀ q ∈ p.2, q.key = Path.clean p.1 := by decide +kernel
  have merged : Interleaves (twoFiles.map Prod.snd) twoFilesMerged :=
    .turn (i := 1) rfl (.turn (i := 0) rfl (.turn (i := 1) rfl (.turn (i := 0) rfl
      (.turn (i := 0) rfl (.turn (i := 1) rfl (.done (by decide)))))))
  exact ⟨apart, own, merged, files_independent source twoFiles apart own _ merged⟩

end EditSync
