import EditSync.Proofs.Editor.Course
import EditSync.Proofs.Text.Delta

/-! The documents of a session and what is queued of them. An open editor keeps the location of its
document and captures its changes as deltas that a message takes unchanged; few inputs change more than
that. -/

namespace EditSync

open Text

/-- An open editor captures the changes of the document at its location. -/
structure OpenEditor.Kept (location : String) (e : OpenEditor) : Prop where
  location : e.document.location = location
  installed : e.capture.installed = true
  canonical : ∀ d ∈ e.capture.queue.deltas, d.Canonical

namespace Session

def Kept (s : Session) : Prop := ∀ l e, s.editors.get? l = some e → e.Kept l

def texts (s : Session) (l : String) : Option (Document × Capture) :=
  (s.editors.get? l).map fun e => (e.document, e.capture)

theorem exists_of_texts {s s' : Session} (h : s'.texts = s.texts) {l : String} {e' : OpenEditor}
    (he : s'.editors.get? l = some e') :
    ∃ e, s.editors.get? l = some e ∧ e'.document = e.document ∧ e'.capture = e.capture := by
  have hl := congrFun h l
  rw [texts, texts, he] at hl
  obtain ⟨e, hget, heq⟩ := Option.map_eq_some_iff.1 hl.symm
  obtain ⟨hdoc, hcap⟩ := Prod.mk.inj heq
  exact ⟨e, hget, hdoc.symm, hcap.symm⟩

theorem isOpen_of_texts {s s' : Session} (h : s'.texts = s.texts) (l : String) :
    s'.isOpen l = s.isOpen l := by
  have hl := congrArg Option.isSome (congrFun h l)
  rw [texts, texts, Option.isSome_map, Option.isSome_map] at hl
  exact hl

theorem Kept.of_texts {s s' : Session} (hk : s.Kept) (h : s'.texts = s.texts) : s'.Kept := by
  intro l e' he'
  obtain ⟨e, he, hdoc, hcap⟩ := exists_of_texts h he'
  have hkept := hk l e he
  exact ⟨hdoc ▸ hkept.location, hcap ▸ hkept.installed, hcap ▸ hkept.canonical⟩

theorem texts_onResolving (s : Session) (state : Resolving) : (s.onResolving state).texts = s.texts := by
  funext l
  rw [texts, get?_onResolving, Option.map_map, texts]
  refine congrArg (Option.map · _) (funext fun e => ?_)
  cases state <;> rfl

theorem texts_handleInbound (s : Session) (e : Envelope) : (s.handleInbound e).session.texts = s.texts := by
  funext l
  rcases (handleInbound_cases s e).2 with ⟨r, -, hsess⟩ | ⟨r, -, -, -, hsess⟩ | ⟨hsess, -⟩
  · rw [hsess, texts, Table.get?_mapValues, Option.map_map, texts]
    rfl
  · rw [hsess, texts, get?_demandResync]
    split
    · next hl =>
      rw [Option.map_map, ← hl, texts]
      rfl
    · rfl
  · rw [hsess]

theorem texts_setSaving (s : Session) (location : String) (set : AutoSave → AutoSave) :
    (s.setSaving location set).texts = s.texts := by
  funext l
  simp only [texts, setSaving, Table.get?_modify]
  split
  · next hl =>
    rw [Option.map_map, hl]
    rfl
  · rfl

theorem kept_flushEditor {l : String} {e : OpenEditor} (h : e.Kept l) : (flushEditor e).1.Kept l := by
  have hflushed := flushed_flushEditor e
  refine ⟨?_, hflushed.installed.trans h.installed, fun d hd => ?_⟩
  · rcases hflushed.document with hd | hd
    · rw [hd]; exact h.location
    · rw [hd]; exact h.location
  · rw [hflushed.queue] at hd
    exact absurd hd List.not_mem_nil

theorem queue_onChange {c : Capture} (h : c.installed = true) (edit : Edit) :
    (c.onChange edit).1.queue.deltas = c.queue.deltas ++ edit.deltas ∧
      (c.onChange edit).1.installed = true := by
  have hpush : ∀ (ds : List Delta) (q : DirtyQueue), (ds.foldl .push q).deltas = q.deltas ++ ds := by
    intro ds
    induction ds with
    | nil => intro q; exact (List.append_nil _).symm
    | cons d ds ih => intro q; rw [List.foldl_cons, ih]; simp [DirtyQueue.push]
  rw [Capture.onChange, if_pos h]
  exact ⟨hpush _ _, h⟩

theorem change_eq_ok {doc next : Document} {edit : Edit} (h : doc.change edit = .ok next) :
    next.location = doc.location ∧ Delta.applyAll doc.contents edit.deltas = .ok next.contents := by
  rw [Document.change] at h
  split at h
  · next contents hc =>
    obtain rfl := Except.ok.inj h
    exact ⟨rfl, hc⟩
  · exact absurd h (by simp)

theorem kept_edited {l : String} {e : OpenEditor} {document : Document} {edit : Edit} (h : e.Kept l)
    (hc : e.document.change edit = .ok document) : (e.edited document edit).Kept l := by
  obtain ⟨hqueue, hinstalled⟩ := queue_onChange h.installed edit
  refine ⟨(change_eq_ok hc).1.trans h.location, hinstalled, fun d hd => ?_⟩
  have hmem : d ∈ e.capture.queue.deltas ++ edit.deltas := hqueue ▸ hd
  rcases List.mem_append.1 hmem with hd | hd
  · exact h.canonical d hd
  · exact edit.canonical_deltas d hd

theorem Kept.set {s s' : Session} {location : String} {x : Option OpenEditor} (hk : s.Kept)
    (hget : ∀ k, s'.editors.get? k = if k = location then x else s.editors.get? k)
    (hx : ∀ e, x = some e → e.Kept location) : s'.Kept := by
  intro l e he
  rw [hget] at he
  split at he
  · next hl => rw [hl]; exact hx e he
  · exact hk l e he

theorem kept_move {s : Session} (hk : s.Kept) (oldLocation newLocation : String) :
    (s.move oldLocation newLocation).session.Kept := by
  rcases move_cases s oldLocation newLocation with ⟨hsess, -⟩ | ⟨e, -, hmoves, -⟩
  · rw [hsess]; exact hk
  · intro l e' he'
    by_cases hl : l = newLocation
    · subst hl
      obtain rfl := hmoves.editor_new he'
      have hkept := hk oldLocation e hmoves.found
      exact ⟨rfl, hkept.installed, hkept.canonical⟩
    · exact hk l e' (hmoves.editor_other hl he').2

theorem kept_handleTick {s : Session} (hk : s.Kept) (t : Tick) : (s.handleTick t).session.Kept := by
  rcases (handleTick_cases s t).2 with ⟨heditors, -⟩ | ⟨e, -, hflushed⟩
  · intro l e' he'
    rw [heditors] at he'
    exact hk l e' he'
  · refine hk.set hflushed.editors fun e' he' => ?_
    obtain rfl := Option.some.inj he'
    exact kept_flushEditor (hk t.key e hflushed.found)

theorem kept_deliver {s : Session} (hk : s.Kept) (t : Tick) : (s.deliver t).1.Kept := by
  rw [deliver]
  split
  · exact kept_handleTick (s := { s with scheduler := s.scheduler.take t }) hk t
  · exact hk

theorem kept_react (host : Host) {s : Session} (hk : s.Kept) (i : Input) : (s.react host i).1.Kept := by
  cases i with
  | host event =>
    cases event with
    | opened doc =>
      rcases openDocument_cases host s doc with ⟨-, hsess, -⟩ | ⟨-, hget, -⟩
      · simp only [react, handleEvent, hsess]; exact hk
      · refine hk.set hget fun e he => ?_
        obtain rfl := Option.some.inj he
        exact ⟨rfl, rfl, fun d hd => absurd hd List.not_mem_nil⟩
    | changed location edit =>
      rcases (change_cases s location edit).2 with ⟨hsess, -⟩ | ⟨e, document, he, hc, hget, -⟩
      · simp only [react, handleEvent, hsess]; exact hk
      · refine hk.set hget fun e' he' => ?_
        obtain rfl := Option.some.inj he'
        exact kept_edited (hk location e he) hc
    | closed location =>
      rcases close_cases s location with ⟨-, hsess, -⟩ | ⟨e, -, hget, -⟩
      · simp only [react, handleEvent, hsess]; exact hk
      · exact hk.set hget fun e' he' => absurd he' (by simp)
    | moved oldLocation newLocation => exact kept_move hk oldLocation newLocation
    | resolving state => exact hk.of_texts (texts_onResolving s state)
  | inbound e => exact hk.of_texts (texts_handleInbound s e)
  | saving location set => exact hk.of_texts (texts_setSaving s location set)
  | pass ms => exact hk
  | ring t => exact hk
  | tick t => exact kept_deliver hk t

theorem kept_runFrom (host : Host) {s : Session} (hk : s.Kept) (inputs : List Input) :
    (run host s inputs).1.Kept := by
  induction inputs using List.reverseRecOn with
  | nil => exact hk
  | append_singleton inputs i ih =>
    rw [run_concat]
    exact kept_react host ih i

theorem kept_run (host : Host) (options : SessionOptions) (inputs : List Input) :
    (run host (start options) inputs).1.Kept :=
  kept_runFrom host (fun k e he => absurd he (by simp [start])) inputs

end Session
end EditSync
