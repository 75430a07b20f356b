import EditSync.Proofs.Editor.Bookkeeping

/-! What is saved while documents are flushed. Somebody who sees only what is done with a session, and what it
does outside, knows what was last stored of each document. A document without unsaved changes is that, however
often saving was switched on and off and failed. To the server and to the strategies it makes no difference. -/

namespace EditSync

theorem AutoSave.tried_deactivate (a : AutoSave) (doc : Document) : (a.deactivate.onFlush doc).tried = none := by
  unfold onFlush
  split <;> rfl

def Effect.save? : Effect → Option (Document × Bool)
  | .saved doc succeeded => some (doc, succeeded)
  | .sent _ | .called _ => none

def saves (es : List Effect) : List (Document × Bool) := es.filterMap Effect.save?

theorem saves_append (es fs : List Effect) : saves (es ++ fs) = saves es ++ saves fs := List.filterMap_append

theorem saves_called (cs : List Call) : saves (cs.map .called) = [] := by
  induction cs with
  | nil => rfl
  | cons c cs ih => exact ih

theorem saves_sent (ms : List Message) : saves (ms.map .sent) = [] := by
  induction ms with
  | nil => rfl
  | cons m ms ih => exact ih

namespace Session

/-- What has become of a document outside: how it was opened, and the saves that were tried since. -/
structure Stored where
  opened : Document
  saves : List (Document × Bool) := []

def Stored.contents (x : Stored) : String :=
  ((x.saves.filter (·.2)).getLast?.elim x.opened (·.1)).contents

def noteSave (stored : Table Stored) (save : Document × Bool) : Table Stored :=
  stored.modify save.1.location fun x => { x with saves := x.saves ++ [save] }

def noteDone (stored : Table Stored) : Operation → Table Stored
  | .openDocument doc => stored.set doc.location { opened := doc }
  | .close location => stored.erase location
  | .move oldLocation newLocation =>
    (stored.get? oldLocation).elim stored fun x => (stored.erase oldLocation).set newLocation x
  | _ => stored

def note (stored : Table Stored) (op : Operation) (p : Step Bool) : Table Stored :=
  let stored := (saves p.effects).foldl noteSave stored
  if p.result then noteDone stored op else stored

def storedFrom (host : Host) (s : Session) (stored : Table Stored) : List Operation → Table Stored
  | [] => stored
  | op :: ops => storedFrom host (s.perform host op).session (note stored op (s.perform host op)) ops

theorem storedFrom_concat (host : Host) (s : Session) (stored : Table Stored) (ops : List Operation)
    (op : Operation) :
    storedFrom host s stored (ops ++ [op]) =
      note (storedFrom host s stored ops) op ((performAll host s ops).perform host op) := by
  induction ops generalizing s stored with
  | nil => rfl
  | cons first ops ih => exact ih _ _

/-- Every document is on record, and is what was stored of it unless it has changes. -/
def OnRecord (s : Session) (stored : Table Stored) : Prop :=
  ∀ l e, s.editors.get? l = some e →
    ∃ x, stored.get? l = some x ∧ (e.document.dirty = false → e.document.contents = x.contents)

variable {s s' : Session} {stored : Table Stored} {host : Host}

def outgoing (e : OpenEditor) : List Effect :=
  ((e.capture.flush e.document).2.1.foldl (onFlushEvent e.document) (e.reporter, [])).2

theorem effects_flushEditor (e : OpenEditor) :
    (flushEditor e).2.1 =
      outgoing e ++ ((e.autoSave.onFlush e.document).tried.map fun t => Effect.saved t.1 t.2).toList := rfl

theorem saves_outgoing (e : OpenEditor) : saves (outgoing e) = [] := by
  have hfold : ∀ (events : List FlushEvent) (p : Reporter × List Effect),
      saves (events.foldl (onFlushEvent e.document) p).2 = saves p.2 := by
    intro events
    induction events with
    | nil => intro p; rfl
    | cons event events ih =>
      intro p
      rw [List.foldl_cons, ih]
      cases event <;> simp only [onFlushEvent, saves_append, saves_sent, List.append_nil]
      exact List.append_nil _
  exact hfold _ _

theorem saves_flushEditor (e : OpenEditor) :
    saves (flushEditor e).2.1 = (e.autoSave.onFlush e.document).tried.toList := by
  rw [effects_flushEditor, saves_append, saves_outgoing, List.nil_append]
  cases (e.autoSave.onFlush e.document).tried <;> rfl

theorem document_flushEditor (e : OpenEditor) :
    (flushEditor e).1.document = (e.autoSave.onFlush e.document).document := rfl

theorem contents_noteSave (x : Stored) (doc : Document) (succeeded : Bool) :
    Stored.contents { x with saves := x.saves ++ [(doc, succeeded)] } =
      if succeeded then doc.contents else x.contents := by
  rw [Stored.contents, List.filter_append]
  cases succeeded with
  | true => rw [List.filter_cons_of_pos rfl, List.filter_nil, List.getLast?_concat]; rfl
  | false => rw [List.filter_cons_of_neg (by simp), List.filter_nil, List.append_nil]; rfl

/-- Documents that are as they were stay on record. -/
theorem OnRecord.of_documents (h : OnRecord s stored)
    (hdocuments : ∀ l e', s'.editors.get? l = some e' →
      ∃ e, s.editors.get? l = some e ∧ e'.document = e.document) : OnRecord s' stored := by
  intro l e' he'
  obtain ⟨e, he, hdoc⟩ := hdocuments l e' he'
  rw [hdoc]
  exact h l e he

theorem OnRecord.of_texts (h : OnRecord s stored) (htexts : s'.texts = s.texts) : OnRecord s' stored :=
  h.of_documents fun _ _ he' =>
    have ⟨e, he, hdoc, _⟩ := exists_of_texts htexts he'
    ⟨e, he, hdoc⟩

/-- One document is new or different, and is on record. -/
theorem OnRecord.set {location : String} {e : OpenEditor} {x : Stored} {stored' : Table Stored}
    (h : OnRecord s stored)
    (hget : ∀ k, s'.editors.get? k = if k = location then some e else s.editors.get? k)
    (hlocation : stored'.get? location = some x)
    (hothers : ∀ k, k ≠ location → stored'.get? k = stored.get? k)
    (he : e.document.dirty = false → e.document.contents = x.contents) : OnRecord s' stored' := by
  intro l e' he'
  rw [hget] at he'
  split at he'
  · next hl =>
    obtain rfl := Option.some.inj he'
    exact ⟨x, hl ▸ hlocation, he⟩
  · next hl =>
    rw [hothers l hl]
    exact h l e' he'

theorem note_of_done {op : Operation} {p : Step Bool} (hsaves : saves p.effects = []) (hdone : p.result = true) :
    note stored op p = noteDone stored op := by
  rw [note, hsaves, List.foldl_nil, if_pos hdone]

theorem onRecord_openDocument (h : OnRecord s stored) {doc : Document} (hopen : s.isOpen doc.location = false)
    (hdone : (s.openDocument host doc).result = true) :
    OnRecord (s.openDocument host doc).session (note stored (.openDocument doc) (s.openDocument host doc)) := by
  have hsaves : saves (s.openDocument host doc).effects = [] := by
    rw [openDocument, if_neg (by simp [hopen]), saves_append, saves_called]
    rfl
  rw [note_of_done hsaves hdone]
  rcases openDocument_cases host s doc with ⟨hopen', -⟩ | ⟨-, hget, -⟩
  · exact absurd (hopen.symm.trans hopen') Bool.false_ne_true
  · exact h.set hget (Table.get?_set_self ..) (fun k hk => Table.get?_set_ne _ _ hk) fun _ => rfl

/-- After an edit there are changes to save. -/
theorem onRecord_change (h : OnRecord s stored) (location : String) (edit : Text.Edit) :
    OnRecord (s.change location edit).session stored := by
  rcases (change_cases s location edit).2 with ⟨hsess, -⟩ | ⟨e, document, he, hchange, hget, -⟩
  · rw [hsess]; exact h
  · obtain ⟨x, hx, -⟩ := h location e he
    refine h.set hget hx (fun _ _ => rfl) fun hclean => ?_
    rw [Document.change] at hchange
    split at hchange
    · obtain rfl := Except.ok.inj hchange
      cases hclean
    · cases hchange

theorem onRecord_close (h : OnRecord s stored) {location : String} (hopen : s.isOpen location = true)
    (hdone : (s.close location).result = true) :
    OnRecord (s.close location).session (note stored (.close location) (s.close location)) := by
  have hsaves : saves (s.close location).effects = [] := by
    rw [close]
    split
    · rfl
    · rw [saves_append, saves_called]
      rfl
  rw [note_of_done hsaves hdone]
  rcases close_cases s location with ⟨hclosed, -⟩ | ⟨e, -, hget, -⟩
  · exact absurd (hclosed.symm.trans hopen) Bool.false_ne_true
  · intro l e' he'
    rw [hget] at he'
    split at he'
    · cases he'
    · next hl =>
      rw [noteDone, Table.get?_erase_ne _ hl]
      exact h l e' he'

/-- What is on record of a document goes with it. -/
theorem onRecord_move (h : OnRecord s stored) {oldLocation newLocation : String}
    (hfit : ¬ s.Unfit (.move oldLocation newLocation))
    (hdone : (s.perform host (.move oldLocation newLocation)).result = true) :
    OnRecord (s.move oldLocation newLocation).session
      (note stored (.move oldLocation newLocation) (s.perform host (.move oldLocation newLocation))) := by
  have hsaves : saves (s.move oldLocation newLocation).effects = [] := by
    rw [move]
    split
    · rfl
    · split <;> rfl
  rw [note_of_done hsaves hdone]
  rcases move_cases s oldLocation newLocation with ⟨-, -, hunfit⟩ | ⟨e, -, hmoves, -⟩
  · exact absurd hunfit hfit
  · obtain ⟨x, hx, hclean⟩ := h oldLocation e hmoves.found
    rw [noteDone, hx, Option.elim_some]
    intro l e' he'
    by_cases hl : l = newLocation
    · subst hl
      obtain rfl := hmoves.editor_new he'
      exact ⟨x, Table.get?_set_self .., hclean⟩
    · obtain ⟨hold, he⟩ := hmoves.editor_other hl he'
      rw [Table.get?_set_ne _ _ hl, Table.get?_erase_ne _ hold]
      exact h l e' he

theorem onRecord_handleTick (hk : s.Kept) (h : OnRecord s stored) (t : Tick) :
    OnRecord (s.handleTick t).session ((saves (s.handleTick t).effects).foldl noteSave stored) := by
  rcases (handleTick_cases s t).2 with ⟨heditors, heffects, -⟩ | ⟨e, -, he, hget, heffects, -⟩
  · rw [heffects]
    exact h.of_documents fun l e he => ⟨e, heditors ▸ he, rfl⟩
  · rw [heffects, saves_flushEditor]
    obtain ⟨x, hx, hclean⟩ := h t.key e he
    have hlocation : e.document.location = t.key := (hk t.key e he).location
    -- what is on record after a save of the document
    have hnoted (succeeded : Bool) : (noteSave stored (e.document, succeeded)).get? t.key =
        some { x with saves := x.saves ++ [(e.document, succeeded)] } := by
      rw [noteSave, hlocation, Table.get?_modify, if_pos rfl, hx, Option.map_some]
    have hothers (succeeded : Bool) (k : String) (hne : k ≠ t.key) :
        (noteSave stored (e.document, succeeded)).get? k = stored.get? k := by
      rw [noteSave, hlocation, Table.get?_modify, if_neg hne]
    rcases e.autoSave.onFlush_cases e.document with ⟨htried, hdoc⟩ | ⟨hdirty, ⟨htried, hdoc⟩ | ⟨htried, hdoc⟩⟩
    · rw [htried]
      refine h.set hget hx (fun _ _ => rfl) ?_
      rw [document_flushEditor, hdoc]
      exact hclean
    · rw [htried]
      refine h.set hget (hnoted true) (hothers true) fun _ => ?_
      rw [document_flushEditor, hdoc, contents_noteSave, if_pos rfl]
      rfl
    · rw [htried]
      refine h.set hget (hnoted false) (hothers false) fun hsaved => ?_
      rw [document_flushEditor, hdoc, hdirty] at hsaved
      cases hsaved

/-- An operation leaves the documents on record. -/
theorem onRecord_perform (host : Host) (hk : s.Kept) (ht : s.Tended) (h : OnRecord s stored) (op : Operation) :
    OnRecord (s.perform host op).session (note stored op (s.perform host op)) := by
  rcases settled host ht op with ⟨-, hsame⟩ | ⟨hfit, hdone⟩
  · rw [hsame]
    exact h
  · cases op with
    | openDocument doc => exact onRecord_openDocument h (Bool.not_eq_true _ ▸ hfit) hdone
    | change location edit =>
      rw [note_of_done (congrArg saves (change_cases s location edit).1) hdone]
      exact onRecord_change h location edit
    | close location => exact onRecord_close h (Bool.not_eq_false _ ▸ hfit) hdone
    | move oldLocation newLocation => exact onRecord_move h hfit hdone
    | onResolving state => exact h.of_texts (texts_onResolving s state)
    | handleInbound e =>
      rw [note_of_done (congrArg saves (handleInbound_cases s e).1) hdone]
      exact h.of_texts (texts_handleInbound s e)
    | setSaving location set => exact h.of_texts (texts_setSaving s location set)
    | pass ms => exact h
    | ring t => exact h
    | take t => exact h
    | handleTick t =>
      rw [note, if_pos hdone]
      exact onRecord_handleTick hk h t
    | cancelAll => exact h

theorem onRecord_performAll (host : Host) (options : SessionOptions) (ops : List Operation) :
    OnRecord (performAll host (start options) ops) (storedFrom host (start options) .empty ops) := by
  induction ops using List.reverseRecOn with
  | nil => exact fun l e he => absurd he (by simp [performAll, start])
  | append_singleton ops op ih =>
    obtain ⟨hk, ht⟩ := kept_tended_performAll host options ops
    rw [performAll_concat, storedFrom_concat]
    exact onRecord_perform host hk ht ih op

/-- A save that fails leaves the document as it was, with its changes. -/
theorem dirty_of_failed {t : Tick} {doc : Document} (h : (doc, false) ∈ saves (s.handleTick t).effects) :
    doc.dirty = true ∧ ∃ e e', s.editors.get? t.key = some e ∧ e.document = doc ∧
      (s.handleTick t).session.editors.get? t.key = some e' ∧ e'.document = doc := by
  rcases (handleTick_cases s t).2 with ⟨-, heffects, -⟩ | ⟨e, -, he, hget, heffects, -⟩
  · rw [heffects] at h
    cases h
  · rw [heffects, saves_flushEditor, Option.mem_toList] at h
    rcases e.autoSave.onFlush_cases e.document with ⟨htried, -⟩ | ⟨hdirty, ⟨htried, -⟩ | ⟨htried, hdoc⟩⟩
    · rw [htried] at h
      cases h
    · rw [htried] at h
      cases h
    · rw [htried] at h
      obtain rfl := (Prod.mk.inj (Option.some.inj h)).1
      exact ⟨hdirty, e, _, he, rfl, (hget t.key).trans (if_pos rfl), hdoc⟩

/-- A flush reports the same with saving switched off, and does the same but for a save at its end. -/
theorem handleTick_deactivate (s : Session) (t : Tick) :
    (s.handleTick t).result = ((s.setSaving t.key .deactivate).handleTick t).result ∧
      (s.handleTick t).effects = ((s.setSaving t.key .deactivate).handleTick t).effects ++
        (saves (s.handleTick t).effects).map (fun x => .saved x.1 x.2) ∧
      saves ((s.setSaving t.key .deactivate).handleTick t).effects = [] := by
  have hoff : (s.setSaving t.key .deactivate).editors.get? t.key =
      (s.editors.get? t.key).map fun e => { e with autoSave := e.autoSave.deactivate } :=
    (Table.get?_modify ..).trans (if_pos rfl)
  have hscheduler : (s.setSaving t.key .deactivate).scheduler = s.scheduler := rfl
  by_cases hcurrent : s.scheduler.current.get? t.key = some t.generation
  · cases he : s.editors.get? t.key with
    | none =>
      rw [he, Option.map_none] at hoff
      simp only [handleTick_eq, hscheduler, if_pos hcurrent, flush, he, hoff]
      exact ⟨trivial, rfl, rfl⟩
    | some e =>
      rw [he, Option.map_some] at hoff
      rw [handleTick_of_current hcurrent he,
        handleTick_of_current (s := s.setSaving t.key .deactivate) hcurrent hoff]
      refine ⟨rfl, ?_, ?_⟩
      · rw [saves_flushEditor, effects_flushEditor, effects_flushEditor, AutoSave.tried_deactivate,
          Option.toList_map, Option.map_none, Option.toList_none, List.append_nil]
        rfl
      · rw [saves_flushEditor, AutoSave.tried_deactivate]
        rfl
  · rw [handleTick_eq, handleTick_eq, hscheduler, if_neg hcurrent, if_neg hcurrent]
    exact ⟨rfl, rfl, rfl⟩

/-- Whatever is done with a session, and however saving is set meanwhile, a document without changes is what
was stored of it last: by the last save that succeeded since it was opened, wherever it was moved, or as it was
opened. A save that fails leaves the document with its changes. Otherwise a flush does and reports what it would
with saving switched off. -/
theorem clean_is_stored (host : Host) (options : SessionOptions) :
    (∀ ops l e, (performAll host (start options) ops).editors.get? l = some e →
      ∃ x, (storedFrom host (start options) .empty ops).get? l = some x ∧
        (e.document.dirty = false → e.document.contents = x.contents)) ∧
      ∀ (s : Session) (t : Tick),
        (∀ doc, (doc, false) ∈ saves (s.handleTick t).effects →
          doc.dirty = true ∧ ∃ e e', s.editors.get? t.key = some e ∧ e.document = doc ∧
            (s.handleTick t).session.editors.get? t.key = some e' ∧ e'.document = doc) ∧
          let off := (s.setSaving t.key .deactivate).handleTick t
          (s.handleTick t).result = off.result ∧
            (s.handleTick t).effects =
              off.effects ++ (saves (s.handleTick t).effects).map (fun x => .saved x.1 x.2) ∧
            saves off.effects = [] :=
  ⟨onRecord_performAll host options, fun s t => ⟨fun _ => dirty_of_failed, handleTick_deactivate s t⟩⟩

def fullAtFirst : Host where
  saver _ := some fun attempts => if attempts.length = 1 then .error (.protocol "save" "no space") else .ok ()
  owner _ := "o"

def changedOnce : List Operation :=
  [.openDocument ⟨"/p/a", "/p", "abc", false⟩, .setSaving "/p/a" (·.activate.1),
    .change "/p/a" ⟨3, 0, some "d"⟩, .pass 1000, .ring ⟨"/p/a", 1, 1000⟩, .take ⟨"/p/a", 1, 1000⟩]

def savedAfterMove : List Operation :=
  changedOnce ++ [.handleTick ⟨"/p/a", 1, 1000⟩, .move "/p/a" "/p/b", .change "/p/b" ⟨0, 1, none⟩, .pass 1000,
    .ring ⟨"/p/b", 2, 2000⟩, .take ⟨"/p/b", 2, 2000⟩, .handleTick ⟨"/p/b", 2, 2000⟩]

theorem clean_is_stored_savedAfterMove :
    (∃ e x, (performAll fullAtFirst (start {}) savedAfterMove).editors.get? "/p/b" = some e ∧
        (storedFrom fullAtFirst (start {}) .empty savedAfterMove).get? "/p/b" = some x ∧
        x.saves = [(⟨"/p/a", "/p", "abcd", true⟩, false), (⟨"/p/b", "/p", "bcd", true⟩, true)] ∧
        e.document.dirty = false ∧ e.document.contents = x.contents) ∧
      ((⟨"/p/a", "/p", "abcd", true⟩, false) ∈
          saves ((performAll fullAtFirst (start {}) changedOnce).handleTick ⟨"/p/a", 1, 1000⟩).effects ∧
        ∃ e, ((performAll fullAtFirst (start {}) changedOnce).handleTick ⟨"/p/a", 1, 1000⟩).session.editors.get?
            "/p/a" = some e ∧ e.document = ⟨"/p/a", "/p", "abcd", true⟩) := by
  obtain ⟨hstored, htick⟩ := clean_is_stored fullAtFirst {}
  constructor
  · have hdirty : ((performAll fullAtFirst (start {}) savedAfterMove).editors.get? "/p/b").map
        (·.document.dirty) = some false := by decide +kernel
    have hsaves : ((storedFrom fullAtFirst (start {}) .empty savedAfterMove).get? "/p/b").map (·.saves) =
        some [(⟨"/p/a", "/p", "abcd", true⟩, false), (⟨"/p/b", "/p", "bcd", true⟩, true)] := by decide +kernel
    obtain ⟨e, he, hclean⟩ := Option.map_eq_some_iff.1 hdirty
    obtain ⟨x, hx, hcontents⟩ := hstored savedAfterMove "/p/b" e he
    rw [hx] at hsaves
    exact ⟨e, x, he, hx, Option.some.inj hsaves, hclean, hcontents hclean⟩
  · have hfailed : (⟨"/p/a", "/p", "abcd", true⟩, false) ∈
        saves ((performAll fullAtFirst (start {}) changedOnce).handleTick ⟨"/p/a", 1, 1000⟩).effects := by
      decide +kernel
    obtain ⟨-, -, e, -, -, he, hdoc⟩ := (htick _ _).1 _ hfailed
    exact ⟨hfailed, e, he, hdoc⟩

end Session
end EditSync
