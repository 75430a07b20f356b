import EditSync.Editor.Session
import EditSync.Proofs.Editor.Timers

/-! What each operation of a session does to the look-up of its editors, to its timers, and which
messages it sends. Later proofs use these facts and open no operation. -/

namespace EditSync

open Text

def Effect.message? : Effect → Option Message
  | .sent m => some m
  | _ => none

def messages (es : List Effect) : List Message := es.filterMap Effect.message?

@[simp] theorem messages_nil : messages [] = [] := rfl

@[simp] theorem messages_append (es fs : List Effect) :
    messages (es ++ fs) = messages es ++ messages fs := List.filterMap_append

@[simp] theorem messages_cons_called (c : Call) (es : List Effect) :
    messages (.called c :: es) = messages es := rfl

@[simp] theorem messages_called (cs : List Call) : messages (cs.map .called) = [] := by
  induction cs with
  | nil => rfl
  | cons c cs ih => exact ih

@[simp] theorem messages_sent (ms : List Message) : messages (ms.map .sent) = ms := by
  induction ms with
  | nil => rfl
  | cons m ms ih => exact congrArg (m :: ·) ih

@[simp] theorem messages_singleton (m : Message) : messages [.sent m] = [m] := rfl

/-- What the server is still to be told about a document: its queued deltas, or its whole content once
that was asked for. -/
def OpenEditor.unsent (e : OpenEditor) : List TextChange :=
  if e.reporter.needsResync then
    [.ofContent e.document.contents e.document.location e.document.project e.reporter.owner]
  else
    e.capture.queue.deltas.map fun d =>
      .ofDelta d e.document.location e.document.project e.reporter.owner

theorem OpenEditor.unsent_eq_nil {e : OpenEditor} :
    e.unsent = [] ↔ e.capture.queue.deltas = [] ∧ e.reporter.needsResync = false := by
  rw [unsent]
  split
  · next h => simp [h]
  · next h => simp [h]

theorem Reporter.needsResync_eta {r : Reporter} (h : r.needsResync = false) :
    { r with needsResync := false } = r := by
  cases r
  cases h
  rfl

namespace OpenEditor

def opened (host : Host) (s : Session) (doc : Document) : OpenEditor where
  document := doc
  capture := (Capture.install { dispatcher := host.dispatcher doc }).1
  reporter :=
    { endpoint := s.options.endpoint
      owner := host.owner (s.opened + 1)
      needsResync := s.options.resyncOnInstall }
  autoSave := AutoSave.ofPreference s.options.autoSave (host.saver doc)

def edited (e : OpenEditor) (document : Document) (edit : Edit) : OpenEditor :=
  { e with document, capture := (e.capture.onChange edit).1 }

def relocated (e : OpenEditor) (location : String) : OpenEditor :=
  { e with document := { e.document with location } }

end OpenEditor

namespace FlushEvent

def region? : FlushEvent → Option Delta
  | region d => some d
  | _ => none

end FlushEvent

namespace Capture

theorem process_events (doc : Document) (f : Flush) (dirty : Option Delta) :
    ∃ calls : List Call,
      (f.process doc dirty).events = f.events ++ (dirty.map .region).toList ++ calls.map .call :=
  ⟨_, rfl⟩

theorem regions_process (doc : Document) (f : Flush) (dirty : Option Delta) :
    (f.process doc dirty).events.filterMap FlushEvent.region? =
      f.events.filterMap FlushEvent.region? ++ dirty.toList := by
  obtain ⟨calls, h⟩ := process_events doc f dirty
  have hc : (calls.map FlushEvent.call).filterMap FlushEvent.region? = [] := by
    simp [List.filterMap_map, Function.comp_def, FlushEvent.region?]
  rw [h, List.filterMap_append, List.filterMap_append, hc]
  cases dirty <;> simp [FlushEvent.region?]

theorem regions_foldl_process (doc : Document) (work : List (Option Delta)) (f : Flush) :
    (work.foldl (Flush.process doc) f).events.filterMap FlushEvent.region? =
      f.events.filterMap FlushEvent.region? ++ work.filterMap id := by
  induction work generalizing f with
  | nil => simp
  | cons dirty work ih =>
    rw [List.foldl_cons, ih, regions_process, List.append_assoc]
    cases dirty <;> rfl

theorem not_complete_of_mem (doc : Document) (work : List (Option Delta)) (f : Flush)
    (hf : ∀ w, .complete w ∉ f.events) :
    ∀ w, .complete w ∉ (work.foldl (Flush.process doc) f).events := by
  induction work generalizing f with
  | nil => exact hf
  | cons dirty work ih =>
    apply ih
    intro w hw
    obtain ⟨calls, h⟩ := process_events doc f dirty
    rw [h] at hw
    cases dirty <;> simp [hf w] at hw

/-- A flush hands over all deltas in their order and then is complete. -/
theorem flush_events (c : Capture) (doc : Document) :
    ∃ events whole, (c.flush doc).2.1 = events ++ [.complete whole] ∧
      events.filterMap FlushEvent.region? = c.queue.deltas ∧ ∀ w, .complete w ∉ events := by
  refine ⟨_, _, rfl, ?_, not_complete_of_mem doc _ _ (fun w => List.not_mem_nil)⟩
  rw [regions_foldl_process]
  cases h : c.queue.isEmpty with
  | true =>
    rw [DirtyQueue.isEmpty, List.isEmpty_iff] at h
    simp [h]
  | false =>
    simp only [Bool.false_eq_true, if_false, List.filterMap_nil, List.nil_append, List.filterMap_map]
    exact List.filterMap_some

end Capture

/-- A flush tries no save, or one of a document with changes; the document is then saved or stays as it is. -/
theorem AutoSave.onFlush_cases (a : AutoSave) (doc : Document) :
    ((a.onFlush doc).tried = none ∧ (a.onFlush doc).document = doc) ∨
      doc.dirty = true ∧ ((a.onFlush doc).tried = some (doc, true) ∧ (a.onFlush doc).document = doc.saved ∨
        (a.onFlush doc).tried = some (doc, false) ∧ (a.onFlush doc).document = doc) := by
  unfold onFlush
  split
  · exact Or.inl ⟨rfl, rfl⟩
  · split
    · next hwanted =>
      refine Or.inr ⟨(Bool.and_eq_true_iff.1 hwanted).2, ?_⟩
      dsimp only
      split
      · exact Or.inl ⟨rfl, rfl⟩
      · exact Or.inr ⟨rfl, rfl⟩
    · exact Or.inl ⟨rfl, rfl⟩

namespace Session

theorem messages_onFlushEvent (doc : Document) (r : Reporter × List Effect) (e : FlushEvent) :
    (onFlushEvent doc r e).1 = (r.1.onFlush doc e).1 ∧
      messages (onFlushEvent doc r e).2 = messages r.2 ++ (r.1.onFlush doc e).2 := by
  refine ⟨rfl, ?_⟩
  cases e <;> simp [onFlushEvent]

/-- Before it is complete, a flush sends its deltas one by one, or nothing. -/
theorem foldl_onFlushEvent (doc : Document) (events : List FlushEvent)
    (h : ∀ w, .complete w ∉ events) (r : Reporter) (effects : List Effect) :
    (events.foldl (onFlushEvent doc) (r, effects)).1 = r ∧
      messages (events.foldl (onFlushEvent doc) (r, effects)).2 = messages effects ++
        if r.needsResync then []
        else (events.filterMap FlushEvent.region?).map fun d =>
          r.message (.change (.ofDelta d doc.location doc.project r.owner)) := by
  induction events generalizing effects with
  | nil => simp
  | cons e events ih =>
    obtain ⟨hr, hm⟩ := messages_onFlushEvent doc (r, effects) e
    have hrest := ih (fun w hw => h w (List.mem_cons_of_mem _ hw)) (onFlushEvent doc (r, effects) e).2
    have hkeep : (r.onFlush doc e).1 = r := by
      cases e with
      | complete w => exact absurd List.mem_cons_self (h w)
      | region d => cases hn : r.needsResync <;> simp [Reporter.onFlush, hn]
      | call c => rfl
    have hpair : onFlushEvent doc (r, effects) e = (r, (onFlushEvent doc (r, effects) e).2) :=
      Prod.ext (hr.trans hkeep) rfl
    rw [List.foldl_cons, hpair]
    refine ⟨hrest.1, ?_⟩
    rw [hrest.2, hm]
    cases e with
    | complete w => exact absurd List.mem_cons_self (h w)
    | region d =>
      cases hn : r.needsResync <;> simp [Reporter.onFlush, hn, FlushEvent.region?]
    | call c =>
      cases hn : r.needsResync <;> simp [Reporter.onFlush, FlushEvent.region?, List.filterMap_cons]

theorem onFlush_document (a : AutoSave) (doc : Document) :
    (a.onFlush doc).document = doc ∨ (a.onFlush doc).document = doc.saved := by
  rcases a.onFlush_cases doc with ⟨-, hkept⟩ | ⟨-, ⟨-, hsaved⟩ | ⟨-, hkept⟩⟩
  · exact Or.inl hkept
  · exact Or.inr hsaved
  · exact Or.inl hkept

/-- What a flush makes of an editor and sends: nothing is left unsent, and what was unsent is sent. -/
structure Flushed (e e' : OpenEditor) (effects : List Effect) : Prop where
  document : e'.document = e.document ∨ e'.document = e.document.saved
  queue : e'.capture.queue.deltas = []
  installed : e'.capture.installed = e.capture.installed
  reporter : e'.reporter = { e.reporter with needsResync := false }
  display : e'.display = e.display
  messages : messages effects = e.unsent.map fun c => e.reporter.message (.change c)

theorem Flushed.contents {e e' : OpenEditor} {effects : List Effect} (h : Flushed e e' effects) :
    e'.document.contents = e.document.contents := by
  rcases h.document with hd | hd
  · rw [hd]
  · rw [hd]; rfl

theorem flushed_flushEditor (e : OpenEditor) : Flushed e (flushEditor e).1 (flushEditor e).2.1 := by
  obtain ⟨events, whole, hev, hregions, hnone⟩ := Capture.flush_events e.capture e.document
  have hfold := foldl_onFlushEvent e.document events hnone e.reporter []
  obtain ⟨hr, hm⟩ := messages_onFlushEvent e.document
    (events.foldl (onFlushEvent e.document) (e.reporter, [])) (.complete whole)
  have hsaved : ∀ t : Option (Document × Bool),
      messages (t.map fun t => Effect.saved t.1 t.2).toList = [] := by
    intro t; cases t <;> rfl
  refine ⟨onFlush_document _ _, rfl, rfl, ?reporter, rfl, ?messages⟩
  case reporter =>
    simp only [flushEditor, hev, List.foldl_append, List.foldl_cons, List.foldl_nil]
    rw [hr, hfold.1]
    cases hn : e.reporter.needsResync with
    | true => simp [Reporter.onFlush, Reporter.sendResync, hn]
    | false => rw [Reporter.needsResync_eta hn]; simp [Reporter.onFlush, hn]
  case messages =>
    simp only [flushEditor, hev, List.foldl_append, List.foldl_cons, List.foldl_nil]
    rw [messages_append, hsaved, hm, hfold.1, hfold.2, hregions]
    cases hn : e.reporter.needsResync with
    | true => simp [OpenEditor.unsent, Reporter.onFlush, Reporter.sendResync, hn, Reporter.message]
    | false => simp [OpenEditor.unsent, Reporter.onFlush, hn, Function.comp_def]

theorem isOpen_eq (s : Session) (location : String) :
    s.isOpen location = (s.editors.get? location).isSome := rfl

theorem isOpen_of_get? {s : Session} {l : String} {e : OpenEditor} (h : s.editors.get? l = some e) :
    s.isOpen l = true := by
  rw [isOpen_eq, h]
  rfl

theorem isOpen_set {s s' : Session} {location : String} {e : OpenEditor}
    (hget : ∀ k, s'.editors.get? k = if k = location then some e else s.editors.get? k) :
    s'.isOpen location = true ∧ ∀ l, s.isOpen l = true → s'.isOpen l = true := by
  refine ⟨isOpen_of_get? (by rw [hget, if_pos rfl]), fun l hl => ?_⟩
  rw [isOpen_eq, hget]
  split
  · rfl
  · exact hl

theorem get?_of_not_isOpen {s : Session} {location : String} (h : s.isOpen location = false) :
    s.editors.get? location = none := by
  rw [isOpen_eq] at h
  simpa using h

theorem get?_demandResync (s : Session) (location k : String) :
    (s.demandResync location).editors.get? k =
      if k = location then
        (s.editors.get? location).map fun e => { e with reporter := e.reporter.requestResync }
      else s.editors.get? k := Table.get?_modify _ _ _ _

theorem scheduler_demandResync (s : Session) (location : String) :
    (s.demandResync location).scheduler = (s.scheduler.schedule location).1 := rfl

theorem openDocument_cases (host : Host) (s : Session) (doc : Document) :
    (s.isOpen doc.location = true ∧ (s.openDocument host doc).session = s ∧
        (s.openDocument host doc).effects = []) ∨
      (s.isOpen doc.location = false ∧
        (∀ k, (s.openDocument host doc).session.editors.get? k =
          if k = doc.location then some (.opened host s doc) else s.editors.get? k) ∧
        (s.openDocument host doc).session.scheduler =
          (if s.options.resyncOnInstall then (s.scheduler.schedule doc.location).1 else s.scheduler) ∧
        messages (s.openDocument host doc).effects =
          [(OpenEditor.opened host s doc).reporter.started doc]) := by
  cases ho : s.isOpen doc.location with
  | true => exact Or.inl ⟨rfl, by simp [openDocument, ho], by simp [openDocument, ho]⟩
  | false =>
    refine Or.inr ⟨rfl, fun k => ?_, ?_, ?_⟩
    · cases hr : s.options.resyncOnInstall with
      | false =>
        simp only [openDocument, ho, hr, Bool.false_eq_true, if_false, Table.get?_set]
        simp [OpenEditor.opened, hr]
      | true =>
        simp only [openDocument, ho, hr, Bool.false_eq_true, if_false, if_true, get?_demandResync,
          Table.get?_set]
        by_cases hk : k = doc.location <;> simp [OpenEditor.opened, hr, Reporter.requestResync, hk]
    · simp only [openDocument, ho, Bool.false_eq_true, if_false]
      split <;> rfl
    · simp [openDocument, ho, Capture.install, OpenEditor.opened, Reporter.started,
        Reporter.operation, Reporter.message]

theorem change_cases (s : Session) (location : String) (edit : Edit) :
    (s.change location edit).effects = [] ∧
      (((s.change location edit).session = s ∧
          ∀ e, s.editors.get? location = some e → ∃ f, e.document.change edit = .error f) ∨
        ∃ e document, s.editors.get? location = some e ∧ e.document.change edit = .ok document ∧
          (∀ k, (s.change location edit).session.editors.get? k =
            if k = location then some (e.edited document edit) else s.editors.get? k) ∧
          (s.change location edit).session.scheduler = (s.scheduler.schedule location).1) := by
  cases he : s.editors.get? location with
  | none =>
    refine ⟨by simp [change, he], Or.inl ⟨by simp [change, he], fun e h => ?_⟩⟩
    exact absurd h (by simp)
  | some e =>
    cases hc : e.document.change edit with
    | error f =>
      refine ⟨by simp [change, he, hc], Or.inl ⟨by simp [change, he, hc], fun e' h => ?_⟩⟩
      obtain rfl := Option.some.inj h
      exact ⟨f, hc⟩
    | ok document =>
      refine ⟨by simp [change, he, hc], Or.inr ⟨e, document, rfl, hc, fun k => ?_, ?_⟩⟩
      · simp only [change, he, hc, schedule, Table.get?_set]
        rfl
      · simp only [change, he, hc, schedule]

theorem close_cases (s : Session) (location : String) :
    (s.isOpen location = false ∧ (s.close location).session = s ∧ (s.close location).effects = []) ∨
      ∃ e, s.editors.get? location = some e ∧
        (∀ k, (s.close location).session.editors.get? k =
          if k = location then none else s.editors.get? k) ∧
        (s.close location).session.scheduler = (s.scheduler.cancel location).1 ∧
        messages (s.close location).effects = [e.reporter.stopped location] := by
  cases he : s.editors.get? location with
  | none => exact Or.inl ⟨by simp [isOpen_eq, he], by simp [close, he], by simp [close, he]⟩
  | some e =>
    refine Or.inr ⟨e, rfl, fun k => ?_, ?_, ?_⟩
    · simp only [close, he, Table.get?_erase]
    · simp only [close, he]
    · simp [close, he, Capture.uninstall]

/-- A session has become another by giving an open document a location that was free. -/
structure Moves (s s' : Session) (oldLocation newLocation : String) (e : OpenEditor) : Prop where
  found : s.editors.get? oldLocation = some e
  editors : ∀ k, s'.editors.get? k =
    if k = newLocation then some (e.relocated newLocation)
    else if k = oldLocation then none else s.editors.get? k

namespace Moves

variable {s s' : Session} {oldLocation newLocation : String} {e : OpenEditor}
  (h : Moves s s' oldLocation newLocation e)

include h

theorem isOpen_new : s'.isOpen newLocation = true :=
  isOpen_of_get? (e := e.relocated newLocation) (by rw [h.editors, if_pos rfl])

theorem isOpen_other {l : String} (hl : s.isOpen l = true) (hne : l ≠ oldLocation) :
    s'.isOpen l = true := by
  rw [isOpen_eq, h.editors]
  split
  · rfl
  · exact hl

theorem editor_new {e' : OpenEditor} (he' : s'.editors.get? newLocation = some e') :
    e' = e.relocated newLocation := by
  rw [h.editors, if_pos rfl] at he'
  exact (Option.some.inj he').symm

theorem editor_other {l : String} {e' : OpenEditor} (hne : l ≠ newLocation)
    (he' : s'.editors.get? l = some e') : l ≠ oldLocation ∧ s.editors.get? l = some e' := by
  rw [h.editors, if_neg hne] at he'
  split at he'
  · exact absurd he' (by simp)
  · next hold => exact ⟨hold, he'⟩

end Moves

theorem move_cases (s : Session) (oldLocation newLocation : String) :
    ((s.move oldLocation newLocation).session = s ∧ (s.move oldLocation newLocation).effects = [] ∧
        (s.isOpen newLocation = true ∨ s.isOpen oldLocation = false)) ∨
      ∃ e, s.isOpen newLocation = false ∧
        Moves s (s.move oldLocation newLocation).session oldLocation newLocation e ∧
        (s.move oldLocation newLocation).session.scheduler =
          (if s.hasPendingFlush oldLocation then
            ((s.scheduler.cancel oldLocation).1.schedule newLocation).1
          else (s.scheduler.cancel oldLocation).1) ∧
        messages (s.move oldLocation newLocation).effects =
          [e.reporter.moved oldLocation (e.relocated newLocation).document] := by
  cases hn : s.isOpen newLocation with
  | true => exact Or.inl ⟨by simp [move, hn], by simp [move, hn], Or.inl rfl⟩
  | false =>
    cases he : s.editors.get? oldLocation with
    | none =>
      exact Or.inl ⟨by simp [move, hn, he], by simp [move, hn, he], Or.inr (by simp [isOpen_eq, he])⟩
    | some e =>
      have hp : (s.scheduler.cancel oldLocation).2 = s.hasPendingFlush oldLocation :=
        Debounce.cancel_snd _ _
      refine Or.inr ⟨e, rfl, ⟨he, fun k => ?_⟩, ?_, ?_⟩
      · simp only [move, hn, he, hp, Bool.false_eq_true, if_false]
        split <;> simp only [schedule, Table.get?_set, Table.get?_erase, OpenEditor.relocated]
      · simp only [move, hn, he, hp, Bool.false_eq_true, if_false]
        split <;> rfl
      · simp [move, hn, he, OpenEditor.relocated]

/-- A step has flushed the editor of an open document. -/
structure FlushedAt (s : Session) (location : String) (r : Step (Option FlushReport)) (e : OpenEditor) :
    Prop where
  found : s.editors.get? location = some e
  editors : ∀ k, r.session.editors.get? k =
    if k = location then some (flushEditor e).1 else s.editors.get? k
  effects : r.effects = (flushEditor e).2.1
  result : r.result = some (flushEditor e).2.2

theorem flush_cases (s : Session) (location : String) :
    (s.flush location).session.scheduler = s.scheduler ∧
      (((s.flush location).session.editors = s.editors ∧ (s.flush location).effects = [] ∧
          (s.flush location).result = none ∧ s.isOpen location = false) ∨
        ∃ e, s.FlushedAt location (s.flush location) e) := by
  cases he : s.editors.get? location with
  | none =>
    rw [flush, he]
    exact ⟨rfl, Or.inl ⟨rfl, rfl, rfl, by rw [isOpen_eq, he]; rfl⟩⟩
  | some e =>
    rw [flush, he]
    exact ⟨rfl, Or.inr ⟨e, he, fun k => Table.get?_set .., rfl, rfl⟩⟩

theorem handleTick_eq (s : Session) (t : Tick) :
    s.handleTick t =
      if s.scheduler.current.get? t.key = some t.generation then
        { s with scheduler := (s.scheduler.claim t.key t.generation).1 }.flush t.key
      else { session := s, result := none } := by
  unfold handleTick Debounce.claim
  split
  · next h => split at h <;> simp_all
  · next h => split at h <;> simp_all

/-- A tick flushes an editor, or nothing happens to the editors and outside. -/
theorem handleTick_cases (s : Session) (t : Tick) :
    (s.handleTick t).session.scheduler = (s.scheduler.claim t.key t.generation).1 ∧
      (((s.handleTick t).session.editors = s.editors ∧ (s.handleTick t).effects = [] ∧
          (s.handleTick t).result = none ∧
          (s.scheduler.current.get? t.key = some t.generation → s.isOpen t.key = false)) ∨
        ∃ e, s.scheduler.current.get? t.key = some t.generation ∧
          s.FlushedAt t.key (s.handleTick t) e) := by
  rw [handleTick_eq]
  split
  · next hcurrent =>
    obtain ⟨hscheduler, ⟨heditors, heffects, hresult, hclosed⟩ | ⟨e, hflushed⟩⟩ :=
      flush_cases { s with scheduler := (s.scheduler.claim t.key t.generation).1 } t.key
    · exact ⟨hscheduler, Or.inl ⟨heditors, heffects, hresult, fun _ => hclosed⟩⟩
    · exact ⟨hscheduler, Or.inr ⟨e, hcurrent, hflushed.found, hflushed.editors, hflushed.effects,
        hflushed.result⟩⟩
  · next hcurrent =>
    exact ⟨(Debounce.claim_of_ne hcurrent).symm, Or.inl ⟨rfl, rfl, rfl, fun h => absurd h hcurrent⟩⟩

theorem isSome_handleTick (s : Session) (t : Tick) :
    (s.handleTick t).result.isSome = true ↔
      s.scheduler.current.get? t.key = some t.generation ∧ s.isOpen t.key = true := by
  rcases (handleTick_cases s t).2 with ⟨-, -, hresult, hclosed⟩ | ⟨e, hcurrent, hflushed⟩
  · rw [hresult]
    refine iff_of_false Bool.false_ne_true fun h => ?_
    exact absurd ((hclosed h.1).symm.trans h.2) Bool.false_ne_true
  · rw [hflushed.result]
    exact iff_of_true rfl ⟨hcurrent, isOpen_of_get? hflushed.found⟩

/-- A message from the server shows a result to all editors, or asks one of them for its content, or
does nothing. -/
theorem handleInbound_cases (s : Session) (e : Envelope) :
    (s.handleInbound e).effects = [] ∧
      ((∃ r : ReconcileResult, e.method = Method.reconcileStateChanged ∧ (s.handleInbound e).session =
          { s with editors := s.editors.mapValues fun location editor =>
              { editor with display := (editor.display.route location r).1 } }) ∨
        (∃ r, e.method = Method.resyncRequired ∧ e.decode ResyncRequest.ofJson? = .ok r ∧
          s.isOpen r.location = true ∧ (s.handleInbound e).session = s.demandResync r.location) ∨
        ((s.handleInbound e).session = s ∧
          ∀ r, e.method = Method.resyncRequired → e.decode ResyncRequest.ofJson? = .ok r →
            s.isOpen r.location = false)) := by
  unfold handleInbound
  split
  · next hm =>
    have hne : e.method ≠ Method.resyncRequired := by rw [hm]; decide
    split
    · exact ⟨rfl, Or.inr (Or.inr ⟨rfl, fun r h => absurd h hne⟩)⟩
    · next r _ => exact ⟨rfl, Or.inl ⟨r, hm, rfl⟩⟩
  · split
    · next hm =>
      split
      · next f hd =>
        refine ⟨rfl, Or.inr (Or.inr ⟨rfl, fun r _ h => ?_⟩)⟩
        rw [hd] at h
        exact absurd h (by simp)
      · next r hd =>
        cases ho : s.isOpen r.location with
        | true => exact ⟨rfl, Or.inr (Or.inl ⟨r, hm, hd, ho, rfl⟩)⟩
        | false =>
          refine ⟨rfl, Or.inr (Or.inr ⟨rfl, fun r' _ h => ?_⟩)⟩
          rw [hd] at h
          obtain rfl := Except.ok.inj h
          exact ho
    · next hm => exact ⟨rfl, Or.inr (Or.inr ⟨rfl, fun r h => absurd h hm⟩)⟩

def told (state : Resolving) (e : OpenEditor) : OpenEditor :=
  match state with
  | .inProgress => { e with display := (e.display.onResolving .inProgress).1 }
  | .resolved =>
    { e with display := (e.display.onResolving .resolved).1, reporter := e.reporter.requestResync }

theorem get?_resolveEditor (state : Resolving) (s : Session) (location k : String) :
    (resolveEditor state s location).editors.get? k =
      if k = location then (s.editors.get? location).map (told state) else s.editors.get? k := by
  unfold resolveEditor
  split
  · next h =>
    split
    · next hk => rw [hk, h]; rfl
    · rfl
  · next e h =>
    cases state with
    | inProgress =>
      simp only [Display.onResolving, Bool.false_eq_true, if_false, Table.get?_set, h]
      rfl
    | resolved =>
      simp only [Display.onResolving, if_true, get?_demandResync, Table.get?_set, h]
      split <;> rfl

theorem scheduler_resolveEditor (state : Resolving) (s : Session) (location : String) :
    (resolveEditor state s location).scheduler =
      if s.isOpen location = true ∧ state = .resolved then (s.scheduler.schedule location).1
      else s.scheduler := by
  unfold resolveEditor
  split
  · next h => simp [isOpen_eq, h]
  · next e h => cases state <;> simp [isOpen_eq, h, Display.onResolving, scheduler_demandResync]

theorem get?_foldl_resolveEditor (state : Resolving) {ks : List String} (hks : ks.Nodup) (s : Session)
    (k : String) :
    (ks.foldl (resolveEditor state) s).editors.get? k =
      if k ∈ ks then (s.editors.get? k).map (told state) else s.editors.get? k := by
  induction ks generalizing s with
  | nil => simp
  | cons l ks ih =>
    rw [List.nodup_cons] at hks
    rw [List.foldl_cons, ih hks.2, get?_resolveEditor]
    by_cases hk : k = l
    · subst hk
      simp [hks.1]
    · simp [hk]

/-- The editors that are told are all of them. -/
theorem get?_onResolving (s : Session) (state : Resolving) (k : String) :
    (s.onResolving state).editors.get? k = (s.editors.get? k).map (told state) := by
  have hks : s.editors.keys.Nodup := s.editors.nodup
  rw [onResolving, get?_foldl_resolveEditor state hks]
  split
  · rfl
  · next hk =>
    have : s.editors.get? k = none := by
      rw [← Option.not_isSome_iff_eq_none, ← Table.mem_keys]
      exact hk
    rw [this]; rfl

end Session
end EditSync
