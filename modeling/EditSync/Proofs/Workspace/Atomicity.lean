import EditSync.Proofs.Text.Delta
import EditSync.Proofs.Text.Splice
import EditSync.Proofs.Workspace.Service

/-! A message that the server cannot handle does no harm. Parameters that cannot be read and file
operations that are refused leave everything as it was. A change that does not fit is not applied even in
part: its copy is no longer synchronized, and its sender is asked once for the whole content. -/

namespace EditSync

open Text

namespace WorkingCopy

/-- What a working copy says about its file, apart from who changes it and whether it is synchronized. -/
def SameFile (c now : WorkingCopy) : Prop :=
  now.content = c.content ∧ now.revision = c.revision ∧ now.location = c.location ∧
    now.project = c.project ∧ now.state = c.state

variable {c : WorkingCopy} {e : SyncError}

theorem apply_eq_error {d : Delta} (h : (c.apply d).2 = .error e) :
    (c.apply d).1 = { c with synchronized := false } ∧ e.requiresResync = true := by
  unfold apply at h ⊢
  split
  · next hs =>
    rw [if_pos hs] at h
    cases hd : d.apply c.content with
    | ok content =>
      rw [hd] at h
      exact absurd h (by simp)
    | error f =>
      rw [hd] at h
      exact ⟨rfl, by rw [← Except.error.inj h]; rfl⟩
  · next hs =>
    rw [if_neg hs] at h
    have hfalse : c.synchronized = false := by simpa using hs
    exact ⟨by rw [← hfalse], by rw [← Except.error.inj h]; rfl⟩

theorem applyAll_singleton (d : Delta) : c.applyAll [d] = c.apply d := by
  rw [applyAll_cons]
  rcases apply_cases c d with ⟨content, -, -, h⟩ | ⟨f, h⟩
  · rw [h]
    rfl
  · rw [h]

/-- Once the first part of a replacement is applied, the second is, too. -/
theorem replacement_eq_error {offset count : UInt64} {text : String}
    (h : (c.applyAll [.remove offset count, .insert offset text]).2 = .error e) :
    (c.applyAll [.remove offset count, .insert offset text]).1 = { c with synchronized := false } ∧
      e.requiresResync = true := by
  rw [applyAll_cons] at h ⊢
  rcases apply_cases c (.remove offset count) with ⟨rest, hs, hremoved, hok⟩ | ⟨f, herr⟩
  · obtain ⟨next, hinserted⟩ := Delta.insert_fits_removed text hremoved
    have hfits := apply_of_ok (c := { c with content := rest, revision := c.revision + 1 }) hs hinserted
    rw [hok] at h
    simp only [applyAll_singleton, hfits] at h
    exact absurd h (by simp)
  · rw [herr] at h ⊢
    refine ⟨rfl, (apply_eq_error (c := c) (d := .remove offset count) ?_).2⟩
    rw [herr]
    exact h

theorem applyAll_deltas_eq_error {edit : Edit} (h : (c.applyAll edit.deltas).2 = .error e) :
    (c.applyAll edit.deltas).1 = { c with synchronized := false } ∧ e.requiresResync = true := by
  rcases edit.deltas_cases with ⟨d, hd⟩ | ⟨text, hd⟩
  · rw [hd, applyAll_singleton] at h ⊢
    exact apply_eq_error h
  · rw [hd] at h ⊢
    exact replacement_eq_error h

end WorkingCopy

/-- A change that fails marks its copy and does nothing else to it. -/
theorem Registry.changeCopy_eq_error {c : WorkingCopy} {change : TextChange} {e : SyncError}
    (h : (changeCopy c change).2 = .error e) :
    (changeCopy c change).1 = { c with synchronized := false } ∧ e.requiresResync = true := by
  unfold changeCopy at h ⊢
  cases hr : change.resync with
  | true =>
    rw [hr] at h
    exact absurd h (by simp)
  | false =>
    have hdeltas : change.deltas = change.edit.deltas := by rw [TextChange.deltas, hr]; rfl
    rw [hr, if_neg Bool.false_ne_true, hdeltas] at h
    rw [if_neg Bool.false_ne_true, hdeltas]
    exact WorkingCopy.applyAll_deltas_eq_error h

namespace Service

/-- Handles a message and says how that went, which dispatching it keeps to itself. -/
def handled (env : Setting) (e : Envelope) (x : Sending) : Sending × Except SyncError Unit :=
  match (handlers env).get? e.method with
  | some handle => handle e.sender e.params x
  | none => (x, .ok ())

theorem dispatch_eq_handled (env : Setting) (e : Envelope) (x : Sending) :
    ((handlers env).dispatch e x).1 = (handled env e x).1 := by
  rw [Handlers.dispatch, handled]
  cases (handlers env).get? e.method <;> rfl

theorem handled_fileOperation (env : Setting) {e : Envelope} (x : Sending)
    (hm : e.method = Method.fileOperation) :
    handled env e x =
      match FileOperation.ofJson? e.params with
      | some o => (onFileOperation env x.1 e.sender o).after x.2
      | none => (x, .error (.undecodable Method.fileOperation)) := by
  rw [handled, hm, handlers]
  simp only [Handlers.onPayload, Table.get?_set_self]
  cases FileOperation.ofJson? e.params <;> rfl

theorem handled_editorChanges (env : Setting) {e : Envelope} (x : Sending)
    (hm : e.method = Method.editorChanges) :
    handled env e x =
      match TextChange.ofJson? e.params with
      | some c => (onChange env x.1 e.sender c).after x.2
      | none => (x, .error (.undecodable Method.editorChanges)) := by
  have hother : Method.editorChanges ≠ Method.fileOperation := by decide
  rw [handled, hm, handlers]
  simp only [Handlers.onPayload, Table.get?_set_ne _ _ hother, Table.get?_set_self]
  cases TextChange.ofJson? e.params <;> rfl

theorem handled_other (env : Setting) {e : Envelope} (x : Sending)
    (hc : e.method ≠ Method.editorChanges) (hf : e.method ≠ Method.fileOperation) :
    handled env e x = (x, .ok ()) := by
  rw [handled, handlers]
  simp only [Handlers.onPayload, Table.get?_set_ne _ _ hf, Table.get?_set_ne _ _ hc]
  rfl

theorem refused_onFileOperation {env : Setting} {s : Service} {endpoint : String} {o : FileOperation}
    {err : SyncError} (h : (onFileOperation env s endpoint o).result = .error err) :
    (onFileOperation env s endpoint o).service = s := by
  have hop := operated env s endpoint o
  generalize onFileOperation env s endpoint o = reaction at h hop
  cases hop with
  | refused e => rfl
  | tracked copy action found => exact absurd h (by simp)
  | started content r action found read copies => exact absurd h (by simp)
  | stopped action => exact absurd h (by simp)
  | stated state copy r action found copies => exact absurd h (by simp)
  | stayed oldPath action old same => exact absurd h (by simp)
  | moved oldPath copy r action old other found copies => exact absurd h (by simp)

/-- A change that fails leaves the rest of the server as it was and asks for the whole content. -/
theorem refused_onChange {env : Setting} {s : Service} {endpoint : String} {change : TextChange}
    {err : SyncError} (h : (onChange env s endpoint change).result = .error err) :
    onChange env s endpoint change =
        { service := { s with registry := (s.registry.apply env.source change endpoint).1 }
          sent := [⟨endpoint, .resync (resyncRequest change err)⟩]
          result := .error err } ∧
      ∀ k, (s.registry.apply env.source change endpoint).1.copies.get? k =
        if k = Path.clean change.location then
          some { s.registry.target env.source change endpoint with synchronized := false }
        else s.registry.copies.get? k := by
  rcases onChange_cases env s endpoint change with ⟨n, -, hr⟩ | ⟨f, hf, hr⟩
  · rw [hr] at h
    exact absurd h (by simp)
  · rw [hr] at h ⊢
    obtain rfl := Except.error.inj h
    have hcopy : (Registry.changeCopy (s.registry.target env.source change endpoint) change).2 =
        .error f := by
      rw [Registry.apply_snd] at hf
      cases hc : (Registry.changeCopy (s.registry.target env.source change endpoint) change).2 with
      | ok u =>
        rw [hc] at hf
        exact absurd hf (by simp [Except.map])
      | error g =>
        rw [hc] at hf
        simpa [Except.map] using hf
    obtain ⟨hmarked, hrequires⟩ := Registry.changeCopy_eq_error hcopy
    refine ⟨by rw [hrequires]; rfl, fun k => ?_⟩
    rw [Registry.get?_apply, hmarked]

/-- A message fails without effect, unless it is a change that can be read. -/
theorem handled_eq_error {env : Setting} {e : Envelope} {x : Sending} {err : SyncError}
    (h : (handled env e x).2 = .error err) :
    ((handled env e x).1 = x ∧ (e.method = Method.editorChanges → TextChange.ofJson? e.params = none)) ∨
      ∃ change, e.method = Method.editorChanges ∧ TextChange.ofJson? e.params = some change ∧
        (onChange env x.1 e.sender change).result = .error err ∧
        (handled env e x).1 = ((onChange env x.1 e.sender change).service,
          x.2 ++ (onChange env x.1 e.sender change).sent) := by
  by_cases hc : e.method = Method.editorChanges
  · rw [handled_editorChanges env x hc] at h ⊢
    cases hd : TextChange.ofJson? e.params with
    | none => exact Or.inl ⟨rfl, fun _ => rfl⟩
    | some change =>
      rw [hd] at h
      exact Or.inr ⟨change, hc, rfl, h, rfl⟩
  · refine Or.inl ⟨?_, fun h => absurd h hc⟩
    by_cases hf : e.method = Method.fileOperation
    · rw [handled_fileOperation env x hf] at h ⊢
      cases hd : FileOperation.ofJson? e.params with
      | none => rfl
      | some o =>
        rw [hd] at h
        have hsame : (onFileOperation env x.1 e.sender o).service = x.1 := refused_onFileOperation h
        have hsent : (onFileOperation env x.1 e.sender o).sent = [] := sent_onFileOperation env x.1 e.sender o
        exact Prod.ext hsame (by simp only [Reaction.after, hsent, List.append_nil])
    · rw [handled_other env x hc hf]

/-- Whatever the server is busy with and whatever a message says: if it fails, all working copies keep
what they say about their files, no analysis is queued, and only a change that can be read leaves a trace.
That is a mark on the copy of its own location, which it may create, and one request to its sender. -/
theorem failed_message_harmless (env : Setting) (e : Envelope) (x : Sending) (err : SyncError)
    (h : (handled env e x).2 = .error err) :
    let y := ((handlers env).dispatch e x).1
    (∀ k copy, x.1.registry.copies.get? k = some copy →
        ∃ now, y.1.registry.copies.get? k = some now ∧ copy.SameFile now) ∧
      (y.1.queued = x.1.queued ∧ y.1.waiting = x.1.waiting ∧ y.1.running = x.1.running) ∧
      (e.method = Method.fileOperation ∨ TextChange.ofJson? e.params = none → y = x) ∧
      ∀ change, e.method = Method.editorChanges → TextChange.ofJson? e.params = some change →
        (∃ request : ResyncRequest, request.location = change.location ∧
          y.2 = x.2 ++ [⟨e.sender, .resync request⟩]) ∧
        ∀ k, y.1.registry.copies.get? k =
          if k = Path.clean change.location then
            some { x.1.registry.target env.source change e.sender with synchronized := false }
          else x.1.registry.copies.get? k := by
  intro y
  have hy : y = (handled env e x).1 := dispatch_eq_handled env e x
  rcases handled_eq_error h with ⟨hsame, hunread⟩ | ⟨change, hm, hd, hresult, hx⟩
  · rw [hsame] at hy
    rw [hy]
    refine ⟨fun k copy hk => ⟨copy, hk, rfl, rfl, rfl, rfl, rfl⟩, ⟨rfl, rfl, rfl⟩, fun _ => rfl, ?_⟩
    intro change hm hd
    exact absurd ((hunread hm).symm.trans hd) (by simp)
  · obtain ⟨hreaction, hget⟩ := refused_onChange hresult
    rw [hreaction] at hx
    rw [hx] at hy
    rw [hy]
    refine ⟨fun k copy hk => ?_, ⟨rfl, rfl, rfl⟩, fun hor => ?_, fun change' _ hd' => ?_⟩
    · rw [hget]
      split
      · next hkey =>
        rw [Registry.target_of_find env.source change e.sender (hkey ▸ hk)]
        exact ⟨_, rfl, rfl, rfl, rfl, rfl, rfl⟩
      · exact ⟨copy, hk, rfl, rfl, rfl, rfl, rfl⟩
    · rcases hor with hf | hnone
      · exact absurd (hm.symm.trans hf) (by decide)
      · exact absurd (hnone.symm.trans hd) (by simp)
    · obtain rfl := Option.some.inj (hd.symm.trans hd')
      exact ⟨⟨resyncRequest change err, rfl, rfl⟩, hget⟩

def trackingShort : Service :=
  { registry := ⟨.ofList [("/p/a", { location := "/p/a", project := "/p", content := "ab" })]⟩ }

def longReplacement : Envelope :=
  Message.envelope ⟨"ws-agent", .change
    { offset := 1, removed := 5, text := some "xy", location := "/p/./a", project := "/p" }⟩ "client-1"

theorem failed_message_harmless_longReplacement :
    ∃ err, (handled { source := fun _ => .ok "" } longReplacement (trackingShort, [])).2 = .error err ∧
      (∃ now, ((handlers { source := fun _ => .ok "" }).dispatch longReplacement
            (trackingShort, [])).1.1.registry.copies.get? "/p/a" = some now ∧
          now.content = "ab" ∧ now.revision = 0) ∧
      ∃ request : ResyncRequest, request.location = "/p/./a" ∧
        ((handlers { source := fun _ => .ok "" }).dispatch longReplacement (trackingShort, [])).1.2 =
          [⟨"client-1", .resync request⟩] := by
  have hnotOk : (handled { source := fun _ => .ok "" } longReplacement (trackingShort, [])).2.isOk =
      false := by decide +kernel
  have hread : TextChange.ofJson? longReplacement.params = some
      { offset := 1, removed := 5, text := some "xy", location := "/p/./a", project := "/p" } := by
    decide +kernel
  cases hfails : (handled { source := fun _ => .ok "" } longReplacement (trackingShort, [])).2 with
  | ok u =>
    rw [hfails] at hnotOk
    exact absurd hnotOk (by simp [Except.isOk, Except.toBool])
  | error err =>
    obtain ⟨hkeep, -, -, hchange⟩ := failed_message_harmless _ _ _ err hfails
    obtain ⟨now, hnow, hcontent, hrevision, -⟩ := hkeep "/p/a" _ rfl
    exact ⟨err, rfl, ⟨now, hnow, hcontent, hrevision⟩, (hchange _ rfl hread).1⟩

end Service
end EditSync
