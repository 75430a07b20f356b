import EditSync.Proofs.Editor.Texts
import EditSync.Proofs.Message.Wire

/-! What any input can come to, seen from the outside of a session: which editors there are then and
which messages were sent. Proofs about two ends of a link go through these cases and open no operation. -/

namespace EditSync.Session

/-- What an input can come to. Nothing is said of the timers. -/
inductive Reacted (host : Host) (s : Session) (i : Input) : Session → List Message → Prop
  | rested (s' : Session) (autoSave : String → OpenEditor → AutoSave)
      (editors : ∀ k, s'.editors.get? k =
        (s.editors.get? k).map fun e => { e with autoSave := autoSave k e }) :
      Reacted host s i s' []
  | shown (s' : Session) (r : ReconcileResult) (input : ∃ e, i = .inbound e)
      (editors : ∀ k, s'.editors.get? k =
        (s.editors.get? k).map fun e => { e with display := (e.display.route k r).1 }) :
      Reacted host s i s' []
  | asked (s' : Session) (location : String) (input : ∃ e, i = .inbound e)
      (editors : ∀ k, s'.editors.get? k =
        if k = location then
          (s.editors.get? k).map fun e => { e with reporter := e.reporter.requestResync }
        else s.editors.get? k) :
      Reacted host s i s' []
  | told (s' : Session) (state : Resolving)
      (editors : ∀ k, s'.editors.get? k = (s.editors.get? k).map (Session.told state)) :
      Reacted host s i s' []
  | opened (s' : Session) (doc : Document) (input : i = .host (.opened doc))
      (closed : s.isOpen doc.location = false)
      (editors : ∀ k, s'.editors.get? k =
        if k = doc.location then some (.opened host s doc) else s.editors.get? k) :
      Reacted host s i s' [(OpenEditor.opened host s doc).reporter.started doc]
  | changed (s' : Session) (location : String) (e : OpenEditor) (edit : Text.Edit) (document : Document)
      (found : s.editors.get? location = some e) (fits : e.document.change edit = .ok document)
      (editors : ∀ k, s'.editors.get? k =
        if k = location then some (e.edited document edit) else s.editors.get? k) :
      Reacted host s i s' []
  | closed (s' : Session) (location : String) (e : OpenEditor)
      (found : s.editors.get? location = some e)
      (editors : ∀ k, s'.editors.get? k = if k = location then none else s.editors.get? k) :
      Reacted host s i s' [e.reporter.stopped location]
  | moved (s' : Session) (oldLocation newLocation : String) (e : OpenEditor)
      (input : i = .host (.moved oldLocation newLocation))
      (free : s.isOpen newLocation = false) (moves : Moves s s' oldLocation newLocation e) :
      Reacted host s i s' [e.reporter.moved oldLocation (e.relocated newLocation).document]
  | flushed (s' : Session) (location : String) (e : OpenEditor)
      (found : s.editors.get? location = some e)
      (editors : ∀ k, s'.editors.get? k =
        if k = location then some (flushEditor e).1 else s.editors.get? k) :
      Reacted host s i s' (e.unsent.map fun c => e.reporter.message (.change c))

variable (host : Host) (s : Session)

theorem reacted_of_editors_eq (i : Input) {s' : Session} (h : s'.editors = s.editors) :
    Reacted host s i s' [] := by
  refine .rested s' (fun _ e => e.autoSave) fun k => ?_
  rw [h]
  exact Option.map_id'.symm

/-- Every editor gets a result, and the one whose file it is for shows it. -/
theorem get?_handleInbound_result (s : Session) (sender receiver : String) (r : ReconcileResult)
    (k : String) :
    (s.handleInbound (Message.envelope ⟨receiver, .result r⟩ sender)).session.editors.get? k =
      (s.editors.get? k).map fun e => { e with display := (e.display.route k r).1 } := by
  have hdecode : (Message.envelope ⟨receiver, .result r⟩ sender).decode ReconcileResult.ofJson? =
      .ok r := by
    simp only [Envelope.decode, Message.envelope, Payload.params, ReconcileResult.ofJson?_toJson]
  have hmethod : (Message.envelope ⟨receiver, .result r⟩ sender).method = Method.reconcileStateChanged :=
    rfl
  rw [handleInbound, if_pos hmethod, hdecode]
  exact Table.get?_mapValues _ _ _

theorem reacted_inbound (e : Envelope) :
    Reacted host s (.inbound e) (s.handleInbound e).session [] := by
  rcases (handleInbound_cases s e).2 with ⟨r, -, hsess⟩ | ⟨r, -, -, -, hsess⟩ | ⟨hsess, -⟩
  · exact .shown _ r ⟨e, rfl⟩ fun k => by rw [hsess, Table.get?_mapValues]
  · refine .asked _ r.location ⟨e, rfl⟩ fun k => ?_
    rw [hsess, get?_demandResync]
    split
    · next hk => rw [hk]
    · rfl
  · exact reacted_of_editors_eq host s _ (by rw [hsess])

theorem reacted_saving (location : String) (set : AutoSave → AutoSave) :
    Reacted host s (.saving location set) (s.setSaving location set) [] := by
  refine .rested _ (fun k e => if k = location then set e.autoSave else e.autoSave) fun k => ?_
  simp only [setSaving, Table.get?_modify]
  split
  · next hk => rw [hk]
  · exact Option.map_id'.symm

theorem reacted_tick (t : Tick) :
    Reacted host s (.tick t) (s.deliver t).1 (messages (s.deliver t).2) := by
  by_cases ht : t ∈ s.scheduler.posted
  · rcases (deliver_of_mem ht).2 with ⟨heditors, heff, -⟩ | ⟨e, -, he, hget, hsent⟩
    · rw [heff]
      exact reacted_of_editors_eq host s _ heditors
    · rw [hsent]
      exact .flushed _ t.key e he hget
  · rw [deliver_of_notMem ht]
    exact reacted_of_editors_eq host s _ rfl

theorem reacted_event (event : EditorEvent) :
    Reacted host s (.host event) (s.handleEvent host event).1
      (messages (s.handleEvent host event).2) := by
  cases event with
  | opened doc =>
    rcases openDocument_cases host s doc with ⟨-, hsess, heff⟩ | ⟨hclosed, hget, -, hsent⟩
    · simp only [handleEvent, hsess, heff]
      exact reacted_of_editors_eq host s _ rfl
    · simp only [handleEvent, hsent]
      exact .opened _ doc rfl hclosed hget
  | changed location edit =>
    obtain ⟨heff, hsess | hchanged⟩ := change_cases s location edit
    · simp only [handleEvent, hsess.1, heff]
      exact reacted_of_editors_eq host s _ rfl
    · obtain ⟨e, document, he, hc, hget, -⟩ := hchanged
      simp only [handleEvent, heff]
      exact .changed _ location e edit document he hc hget
  | closed location =>
    rcases close_cases s location with ⟨-, hsess, heff⟩ | ⟨e, he, hget, -, hsent⟩
    · simp only [handleEvent, hsess, heff]
      exact reacted_of_editors_eq host s _ rfl
    · simp only [handleEvent, hsent]
      exact .closed _ location e he hget
  | moved oldLocation newLocation =>
    rcases move_cases s oldLocation newLocation with ⟨hsess, heff, -⟩ | ⟨e, hfree, hmoves, -, hsent⟩
    · simp only [handleEvent, hsess, heff]
      exact reacted_of_editors_eq host s _ rfl
    · simp only [handleEvent, hsent]
      exact .moved _ oldLocation newLocation e rfl hfree hmoves
  | resolving state => exact .told _ state (get?_onResolving s state)

theorem reacted (i : Input) : Reacted host s i (s.react host i).1 (messages (s.react host i).2) := by
  cases i with
  | host event => exact reacted_event host s event
  | inbound e =>
    rw [react, (handleInbound_cases s e).1]
    exact reacted_inbound host s e
  | saving location set => exact reacted_saving host s location set
  | pass ms => exact reacted_of_editors_eq host s _ rfl
  | ring t => exact reacted_of_editors_eq host s _ rfl
  | tick t => exact reacted_tick host s t

end EditSync.Session
