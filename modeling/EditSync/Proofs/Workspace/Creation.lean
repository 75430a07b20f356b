import EditSync.Proofs.Workspace.Registry

/-! The first change to a file that nobody has started. The server then begins to track the file by
itself, and does with the change what it would have done had the file been started before. Only the
project may differ, as a change that names none means the first folder, and a start that names an empty
one means that. -/

namespace EditSync

open Text

namespace WorkingCopy

/-- Deltas do not look at the project. -/
theorem relabels_project (project : String) : Relabels (fun c => { c with project }) id where
  apply c d := by
    unfold apply
    dsimp only
    split
    · cases d.apply c.content <;> rfl
    · rfl
  resync _ _ := rfl

end WorkingCopy

def TextChange.namedProject (c : TextChange) : String :=
  if c.project = "" then Path.project (Path.clean c.location) else c.project

theorem TextChange.namedProject_eq_project {c : TextChange} : c.namedProject = c.project ↔ c.project ≠ "" := by
  unfold namedProject
  split
  · next h =>
    have hslash : Path.project (Path.clean c.location) ≠ "" := by
      intro hempty
      have hlist := congrArg String.toList hempty
      rw [Path.project, String.toList_ofList] at hlist
      exact List.cons_ne_nil _ _ hlist
    rw [h]
    exact iff_of_false hslash fun hne => hne rfl
  · next h => exact iff_of_true rfl h

namespace Registry

theorem changeCopy_project (c : WorkingCopy) (project : String) (change : TextChange) :
    changeCopy { c with project } change =
      ({ (changeCopy c change).1 with project }, (changeCopy c change).2) := by
  rw [changeCopy_of_relabels (WorkingCopy.relabels_project project) c change]
  cases (changeCopy c change).2 <;> rfl

variable {source : Source} {r r' : Registry} {change : TextChange} {content project : String}

theorem project_changeCopy (c : WorkingCopy) (change : TextChange) :
    (changeCopy c change).1.project = c.project := by
  obtain ⟨content, revision, synchronized, h⟩ := changeCopy_frame c change
  rw [h]

/-- A change to a file that can be read creates a copy of what was saved. -/
theorem target_of_unstarted (endpoint : String) (hfree : r.find change.location = none)
    (hread : source (Path.clean change.location) = .ok content) :
    r.target source change endpoint =
      (WorkingCopy.started change.location (some change.namedProject) content).noteSender endpoint
        change.owner := by
  rw [target, hfree, Option.getD_none, fresh, hread]
  rfl

theorem start_of_unstarted (project : String) (hfree : r.find change.location = none)
    (hread : source (Path.clean change.location) = .ok content) :
    ∃ r', r.start source change.location (some project) = .ok (r', true) ∧
      ∀ k, r'.copies.get? k =
        if k = Path.clean change.location then some (.started change.location (some project) content)
        else r.copies.get? k := by
  rcases r.start_cases source change.location (some project) with
    ⟨copy, hf, -⟩ | ⟨content', r', -, hread', hstart, hcopies⟩ | ⟨e, -, he, -⟩
  · exact absurd (hfree.symm.trans hf) (by simp)
  · obtain rfl := Except.ok.inj (hread.symm.trans hread')
    exact ⟨r', hstart, hcopies⟩
  · exact absurd (hread.symm.trans he) (by simp)

/-- The change finds the copy of a start, which is the one that it would have created but for the
project. -/
theorem target_of_start (endpoint : String) (hfree : r.find change.location = none)
    (hread : source (Path.clean change.location) = .ok content)
    (hcopies : ∀ k, r'.copies.get? k =
      if k = Path.clean change.location then some (.started change.location (some project) content)
      else r.copies.get? k) :
    r'.target source change endpoint = { r.target source change endpoint with project } := by
  have hfind : r'.find change.location = some (.started change.location (some project) content) := by
    rw [find_eq, hcopies, if_pos rfl]
  rw [target_of_find source change endpoint hfind, target_of_unstarted endpoint hfree hread]
  rfl

/-- Two registries with the same files and the same copy of each. -/
def Agrees (r r' : Registry) : Prop := ∀ k, r.copies.get? k = r'.copies.get? k

/-- Registries that differ at most at one key agree if they agree there. -/
theorem agrees_iff {key : String} {copy copy' : WorkingCopy} {others : String → Option WorkingCopy}
    (h : ∀ k, r.copies.get? k = if k = key then some copy else others k)
    (h' : ∀ k, r'.copies.get? k = if k = key then some copy' else others k) :
    r.Agrees r' ↔ copy = copy' := by
  constructor
  · intro heq
    have hkey := heq key
    rw [h, h', if_pos rfl, if_pos rfl] at hkey
    exact Option.some.inj hkey
  · rintro rfl k
    rw [h, h']

/-- Whether or not a file was started before its first change: the change comes to the same, and the file
has the same copy, except for the project. The project is the same if the start names the one that the
change names. If both name it by the same text, this is so unless the text is empty. -/
theorem start_dispensable_iff (source : Source) (r : Registry) (change : TextChange)
    (endpoint content project : String) (hfree : r.find change.location = none)
    (hread : source (Path.clean change.location) = .ok content) :
    ∃ r', r.start source change.location (some project) = .ok (r', true) ∧
      (r.apply source change endpoint).2 = (r'.apply source change endpoint).2 ∧
      (∃ copy, (r.apply source change endpoint).1.find change.location = some copy ∧
        (r'.apply source change endpoint).1.find change.location = some { copy with project }) ∧
      ((r.apply source change endpoint).1.Agrees (r'.apply source change endpoint).1 ↔
        project = change.namedProject) ∧
      (project = change.project →
        ((r.apply source change endpoint).1.Agrees (r'.apply source change endpoint).1 ↔ project ≠ "")) := by
  obtain ⟨r', hstart, hcopies⟩ := start_of_unstarted project hfree hread
  let copy := (changeCopy (r.target source change endpoint) change).1
  have hcopy' : changeCopy (r'.target source change endpoint) change =
      ({ copy with project }, (changeCopy (r.target source change endpoint) change).2) := by
    rw [target_of_start endpoint hfree hread hcopies]
    exact changeCopy_project _ _ _
  have hget : ∀ k, (r.apply source change endpoint).1.copies.get? k =
      if k = Path.clean change.location then some copy else r.copies.get? k :=
    r.get?_apply source change endpoint
  have hget' : ∀ k, (r'.apply source change endpoint).1.copies.get? k =
      if k = Path.clean change.location then some { copy with project } else r.copies.get? k := by
    intro k
    rw [get?_apply, hcopy']
    split
    · rfl
    · next hk => rw [hcopies, if_neg hk]
  have hproject : copy.project = change.namedProject := by
    rw [project_changeCopy, target_of_unstarted endpoint hfree hread]
    rfl
  have hsame : (r.apply source change endpoint).1.Agrees (r'.apply source change endpoint).1 ↔
      project = change.namedProject := by
    rw [agrees_iff hget hget', ← hproject]
    exact ⟨fun h => (congrArg WorkingCopy.project h).symm, fun h => by rw [h]⟩
  refine ⟨r', hstart, ?_, ⟨copy, ?_, ?_⟩, hsame, ?_⟩
  · rw [apply_snd, apply_snd, hcopy']
  · rw [find_eq, hget, if_pos rfl]
  · rw [find_eq, hget', if_pos rfl]
  · rintro rfl
    rw [hsame, eq_comm, TextChange.namedProject_eq_project]

def unnamedChange : TextChange := .ofDelta (.insert 9 "d") "/p/./a" "" "o"

theorem start_dispensable_iff_outOfRange :
    let source : Source := fun _ => .ok "abc"
    let alone := ({} : Registry).apply source unnamedChange "client-1"
    ({} : Registry).find "/p/./a" = none ∧ source (Path.clean "/p/./a") = .ok "abc" ∧
      ∃ r', ({} : Registry).start source "/p/./a" (some "") = .ok (r', true) ∧
        alone.2 = (r'.apply source unnamedChange "client-1").2 ∧
        (∃ copy, alone.1.find "/p/./a" = some copy ∧
          (r'.apply source unnamedChange "client-1").1.find "/p/./a" = some { copy with project := "" }) ∧
        (alone.1.Agrees (r'.apply source unnamedChange "client-1").1 ↔ "" = unnamedChange.namedProject) ∧
        ("" = unnamedChange.project →
          (alone.1.Agrees (r'.apply source unnamedChange "client-1").1 ↔ "" ≠ "")) :=
  ⟨by decide, rfl,
    start_dispensable_iff (fun _ => .ok "abc") {} unnamedChange "client-1" "abc" "" (by decide) rfl⟩

theorem start_tells_empty_project :
    ¬ ∀ (source : Source) (r r' : Registry) (change : TextChange) (endpoint content : String),
      r.find change.location = none → source (Path.clean change.location) = .ok content →
      r.start source change.location (some change.project) = .ok (r', true) →
      (r.apply source change endpoint).1.find change.location =
        (r'.apply source change endpoint).1.find change.location := by
  intro h
  have hsame := h (fun _ => .ok "abc") {} ⟨Table.empty.set "/p/a" (.started "/p/./a" (some "") "abc")⟩
    unnamedChange "client-1" "abc" (by decide) rfl rfl
  revert hsame
  decide +kernel

end Registry
end EditSync
