import EditSync.Proofs.Path.Clean
import EditSync.Proofs.Text.Delta
import EditSync.Workspace.Registry

/-! What each operation of a registry does to the look-up of its copies, and what a change makes of the
copy it is applied to. -/

namespace EditSync

open Text

namespace WorkingCopy

def started (path : String) (project : Option String) (content : String) : WorkingCopy where
  location := path
  project := project.getD (Path.project (Path.clean path))
  content := content

def relocated (c : WorkingCopy) (path : String) (project : Option String) : WorkingCopy :=
  { c with location := path, project := project.getD c.project }

variable {c : WorkingCopy}

theorem apply_cases (c : WorkingCopy) (d : Delta) :
    (∃ content, c.synchronized = true ∧ d.apply c.content = .ok content ∧
        c.apply d = ({ c with content, revision := c.revision + 1 }, .ok ())) ∨
      ∃ e, c.apply d = ({ c with synchronized := false }, .error e) := by
  unfold apply
  split
  · next hs =>
    split
    · next content hd => exact Or.inl ⟨content, hs, hd, rfl⟩
    · exact Or.inr ⟨_, rfl⟩
  · next hs =>
    have hfalse : c.synchronized = false := by simpa using hs
    refine Or.inr ⟨.desynchronized c.location, ?_⟩
    rw [← hfalse]

theorem apply_of_ok {d : Delta} {content : String} (hs : c.synchronized = true)
    (hd : d.apply c.content = .ok content) :
    c.apply d = ({ c with content, revision := c.revision + 1 }, .ok ()) := by
  rw [apply, if_pos hs, hd]

theorem applyAll_cons (d : Delta) (ds : List Delta) :
    c.applyAll (d :: ds) =
      match c.apply d with
      | (c', .ok ()) => c'.applyAll ds
      | (c', .error e) => (c', .error e) := rfl

/-- What a list of deltas leaves of a copy. The revision tells whether the content may have changed, and
a failure ends the synchronization. -/
theorem applyAll_spec (c : WorkingCopy) (ds : List Delta) :
    c.revision ≤ (c.applyAll ds).1.revision ∧
      ((c.applyAll ds).1.revision = c.revision → (c.applyAll ds).1.content = c.content) ∧
      ((c.applyAll ds).2 = .ok () → (c.applyAll ds).1.revision = c.revision + ds.length) ∧
      (∀ e, (c.applyAll ds).2 = .error e → (c.applyAll ds).1.synchronized = false) := by
  induction ds generalizing c with
  | nil => exact ⟨Nat.le_refl _, fun _ => rfl, fun _ => rfl, fun e h => absurd h (by simp [applyAll])⟩
  | cons d ds ih =>
    rw [applyAll_cons]
    rcases apply_cases c d with ⟨content, -, -, h⟩ | ⟨e, h⟩
    · rw [h]
      obtain ⟨hle, -, hok, herr⟩ := ih { c with content, revision := c.revision + 1 }
      dsimp only at hle hok herr ⊢
      refine ⟨by omega, fun he => by omega, fun he => ?_, herr⟩
      rw [hok he, List.length_cons]
      omega
    · rw [h]
      exact ⟨Nat.le_refl _, fun _ => rfl, fun he => absurd he (by simp), fun _ _ => rfl⟩

/-- Deltas change nothing else of a copy. -/
theorem applyAll_frame (c : WorkingCopy) (ds : List Delta) :
    ∃ content revision synchronized, (c.applyAll ds).1 = { c with content, revision, synchronized } := by
  induction ds generalizing c with
  | nil => exact ⟨_, _, _, rfl⟩
  | cons d ds ih =>
    rw [applyAll_cons]
    rcases apply_cases c d with ⟨content, -, -, h⟩ | ⟨e, h⟩
    · rw [h]
      exact ih { c with content, revision := c.revision + 1 }
    · rw [h]
      exact ⟨_, _, _, rfl⟩

/-- A change of what deltas do not look at. It tells only in the errors. -/
structure Relabels (f : WorkingCopy → WorkingCopy) (g : SyncError → SyncError) : Prop where
  apply : ∀ c d, (f c).apply d = (f (c.apply d).1, (c.apply d).2.mapError g)
  resync : ∀ c content, (f c).resync content = f (c.resync content)

theorem Relabels.applyAll {f : WorkingCopy → WorkingCopy} {g : SyncError → SyncError} (h : Relabels f g)
    (c : WorkingCopy) (ds : List Delta) :
    (f c).applyAll ds = (f (c.applyAll ds).1, (c.applyAll ds).2.mapError g) := by
  induction ds generalizing c with
  | nil => rfl
  | cons d ds ih =>
    rw [applyAll_cons, applyAll_cons, h.apply]
    rcases c.apply d with ⟨c', result⟩
    cases result with
    | ok u => exact ih c'
    | error e => rfl

end WorkingCopy

theorem TextChange.deltas_ne_nil {c : TextChange} (h : c.resync = false) : c.deltas ≠ [] := by
  rw [TextChange.deltas, h]
  simp only [Bool.false_eq_true, if_false, Edit.deltas]
  split
  · simp
  · split <;> simp

namespace Registry

theorem find_eq (r : Registry) (path : String) : r.find path = r.copies.get? (Path.clean path) := rfl

/-- The copy of a path is synchronized and has this content. -/
def Shows (r : Registry) (path content : String) : Prop :=
  ∃ c, r.find path = some c ∧ c.synchronized = true ∧ c.content = content

/-- Applying a change gives the copy a higher revision, or leaves its content as it was and ends its
synchronization. -/
theorem changeCopy_cases (c : WorkingCopy) (change : TextChange) :
    ((changeCopy c change).2 = .ok () ∧ c.revision < (changeCopy c change).1.revision) ∨
      ∃ e, (changeCopy c change).2 = .error e ∧ (changeCopy c change).1.synchronized = false ∧
        c.revision ≤ (changeCopy c change).1.revision ∧
        ((changeCopy c change).1.revision = c.revision →
          (changeCopy c change).1.content = c.content) := by
  unfold changeCopy
  cases hr : change.resync with
  | true => exact Or.inl ⟨rfl, Nat.lt_succ_self _⟩
  | false =>
    simp only [Bool.false_eq_true, if_false]
    obtain ⟨hle, hsame, hok, herr⟩ := c.applyAll_spec change.deltas
    cases hres : (c.applyAll change.deltas).2 with
    | ok u =>
      refine Or.inl ⟨rfl, ?_⟩
      have hpos : 0 < change.deltas.length := List.length_pos_iff.2 (TextChange.deltas_ne_nil hr)
      rw [hok hres]
      omega
    | error e => exact Or.inr ⟨e, rfl, herr e hres, hle, hsame⟩

/-- Without synchronization no delta is applied. -/
theorem changeCopy_of_lost {c : WorkingCopy} {change : TextChange} (hs : c.synchronized = false)
    (hdelta : change.resync = false) :
    changeCopy c change = (c, .error (.desynchronized c.location)) := by
  rw [changeCopy, hdelta, if_neg Bool.false_ne_true]
  obtain ⟨d, ds, hds⟩ := List.exists_cons_of_ne_nil (TextChange.deltas_ne_nil hdelta)
  rw [hds, WorkingCopy.applyAll_cons, WorkingCopy.apply, hs, if_neg Bool.false_ne_true]

theorem changeCopy_frame (c : WorkingCopy) (change : TextChange) :
    ∃ content revision synchronized,
      (changeCopy c change).1 = { c with content, revision, synchronized } := by
  rw [changeCopy]
  split
  · exact ⟨_, _, _, rfl⟩
  · exact c.applyAll_frame change.deltas

theorem changeCopy_of_relabels {f : WorkingCopy → WorkingCopy} {g : SyncError → SyncError}
    (h : WorkingCopy.Relabels f g) (c : WorkingCopy) (change : TextChange) :
    changeCopy (f c) change = (f (changeCopy c change).1, (changeCopy c change).2.mapError g) := by
  unfold changeCopy
  split
  · rw [h.resync]
    rfl
  · exact h.applyAll c change.deltas

theorem location_changeCopy (c : WorkingCopy) (change : TextChange) :
    (changeCopy c change).1.location = c.location := by
  obtain ⟨content, revision, synchronized, h⟩ := changeCopy_frame c change
  rw [h]

theorem endpoint_changeCopy (c : WorkingCopy) (change : TextChange) :
    (changeCopy c change).1.endpoint = c.endpoint := by
  obtain ⟨content, revision, synchronized, h⟩ := changeCopy_frame c change
  rw [h]

theorem location_fresh (source : Source) (key location project : String) :
    (fresh source key location project).location = location := by
  unfold fresh
  dsimp only
  split <;> rfl

def target (source : Source) (r : Registry) (change : TextChange) (endpoint : String) : WorkingCopy :=
  ((r.find change.location).getD
    (fresh source (Path.clean change.location) change.location change.project)).noteSender
      endpoint change.owner

theorem target_of_find (source : Source) {r : Registry} {c : WorkingCopy} (change : TextChange)
    (endpoint : String) (hf : r.find change.location = some c) :
    r.target source change endpoint = c.noteSender endpoint change.owner := by
  rw [target, hf, Option.getD_some]

/-- A delta that fits gives a synchronized copy its next content. -/
theorem changeCopy_ofDelta {c : WorkingCopy} {d : Delta} {content : String} (hs : c.synchronized = true)
    (hc : d.Canonical) (hd : d.apply c.content = .ok content) (location project owner : String) :
    changeCopy c (.ofDelta d location project owner) =
      ({ c with content, revision := c.revision + 1 }, .ok ()) := by
  rw [changeCopy, TextChange.deltas_ofDelta hc]
  simp only [TextChange.ofDelta, Bool.false_eq_true, if_false]
  rw [WorkingCopy.applyAll_cons, WorkingCopy.apply_of_ok hs hd]
  rfl

theorem get?_apply (source : Source) (r : Registry) (change : TextChange) (endpoint k : String) :
    (r.apply source change endpoint).1.copies.get? k =
      if k = Path.clean change.location then
        some (changeCopy (r.target source change endpoint) change).1
      else r.copies.get? k :=
  Table.get?_set _ _ _ _

theorem apply_snd (source : Source) (r : Registry) (change : TextChange) (endpoint : String) :
    (r.apply source change endpoint).2 =
      (changeCopy (r.target source change endpoint) change).2.map fun _ =>
        (changeCopy (r.target source change endpoint) change).1.revision := rfl

theorem get?_stop (r : Registry) (path k : String) :
    (r.stop path).1.copies.get? k = if k = Path.clean path then none else r.copies.get? k :=
  Table.get?_erase _ _ _

theorem start_cases (source : Source) (r : Registry) (path : String) (project : Option String) :
    (∃ copy, r.find path = some copy ∧ r.start source path project = .ok (r, false)) ∨
      (∃ content r', r.find path = none ∧ source (Path.clean path) = .ok content ∧
        r.start source path project = .ok (r', true) ∧
        ∀ k, r'.copies.get? k =
          if k = Path.clean path then some (.started path project content) else r.copies.get? k) ∨
      ∃ e, r.find path = none ∧ source (Path.clean path) = .error e ∧
        r.start source path project = .error e := by
  rw [find_eq]
  cases h : r.copies.get? (Path.clean path) with
  | some copy => exact Or.inl ⟨copy, rfl, by simp only [start, h]⟩
  | none =>
    refine Or.inr ?_
    cases hs : source (Path.clean path) with
    | ok content =>
      refine Or.inl ⟨content,
        ⟨r.copies.set (Path.clean path) (.started path project content)⟩, rfl, rfl, ?_, fun k => ?_⟩
      · simp only [start, h, hs, WorkingCopy.started]
      · exact Table.get?_set _ _ _ _
    | error e => exact Or.inr ⟨e, rfl, rfl, by simp only [start, h, hs]⟩

theorem setState_cases (r : Registry) (path : String) (state : TrackingState) :
    (∃ copy r', r.find path = some copy ∧ r.setState path state = .ok r' ∧
        ∀ k, r'.copies.get? k =
          if k = Path.clean path then some { copy with state } else r.copies.get? k) ∨
      ∃ e, r.find path = none ∧ r.setState path state = .error e := by
  rw [find_eq]
  cases h : r.copies.get? (Path.clean path) with
  | some copy =>
    refine Or.inl ⟨copy, ⟨r.copies.set (Path.clean path) { copy with state }⟩, rfl, ?_, fun k => ?_⟩
    · simp only [setState, h]
    · exact Table.get?_set _ _ _ _
  | none => exact Or.inr ⟨.untracked path, rfl, by simp only [setState, h]⟩

theorem move_cases (r : Registry) (oldPath newPath : String) (project : Option String) :
    (Path.clean oldPath = Path.clean newPath ∧ r.move oldPath newPath project = .ok r) ∨
      (∃ copy r', Path.clean oldPath ≠ Path.clean newPath ∧ r.find oldPath = some copy ∧
        r.move oldPath newPath project = .ok r' ∧
        ∀ k, r'.copies.get? k =
          if k = Path.clean newPath then
            some (copy.relocated newPath project)
          else if k = Path.clean oldPath then none else r.copies.get? k) ∨
      ∃ e, Path.clean oldPath ≠ Path.clean newPath ∧ r.find oldPath = none ∧
        r.move oldPath newPath project = .error e := by
  by_cases hk : Path.clean oldPath = Path.clean newPath
  · exact Or.inl ⟨hk, by simp only [move, hk, if_true]⟩
  · refine Or.inr ?_
    rw [find_eq]
    cases h : r.copies.get? (Path.clean oldPath) with
    | some copy =>
      refine Or.inl ⟨copy,
        ⟨(r.copies.erase (Path.clean oldPath)).set (Path.clean newPath) (copy.relocated newPath project)⟩,
        hk, rfl, ?_, fun k => ?_⟩
      · simp only [move, hk, if_false, h, WorkingCopy.relocated]
      · rw [Table.get?_set, Table.get?_erase]
    | none => exact Or.inr ⟨.untracked oldPath, hk, rfl, by simp only [move, hk, if_false, h]⟩

end Registry
end EditSync
