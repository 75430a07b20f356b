import EditSync.Proofs.Editor.Reports
import EditSync.Proofs.Editor.Resolving

/-! What becomes of the deltas of one editor, wherever it is moved. Each waits in the queue until a flush
takes it out, which sends it, or the whole content instead if that was asked for. Nothing else sends
changes, so none is sent twice, and none after a content that has it already. -/

namespace EditSync

open Text

namespace Session

/-- A flush of an editor: where it was, how it was before and after, and all messages that were sent. -/
structure Flushing where
  location : String
  before : OpenEditor
  messages : List Message
  after : Option OpenEditor

def Flushing.drained (f : Flushing) : List Delta := f.before.capture.queue.deltas

/-- A flush sends the deltas in their order, or the content alone if it was asked for, under the location
of the moment. Then nothing is queued or asked for. -/
structure Flushing.Exact (f : Flushing) : Prop where
  location : f.before.document.location = f.location
  deltas : f.before.reporter.needsResync = false →
    f.messages = f.drained.map fun d =>
      f.before.reporter.message (.change
        (.ofDelta d f.location f.before.document.project f.before.reporter.owner))
  content : f.before.reporter.needsResync = true →
    f.messages = [f.before.reporter.message (.change
      (.ofContent f.before.document.contents f.location f.before.document.project f.before.reporter.owner))]
  done : ∃ e, f.after = some e ∧ e.capture.queue.deltas = [] ∧ e.reporter.needsResync = false ∧
    e.document.contents = f.before.document.contents

def captures (s : Session) (l : String) : Input → List Delta
  | .host (.changed location edit) =>
    if location = l ∧ (s.change location edit).result.isOk = true then edit.deltas else []
  | _ => []

def flushings (s : Session) (l : String) : Input → List Flushing
  | .tick t =>
    if t ∈ s.scheduler.posted ∧ t.key = l ∧
        ({ s with scheduler := s.scheduler.take t }.handleTick t).result.isSome = true then
      (s.editors.get? l).toList.map fun e =>
        ⟨l, e, EditSync.messages (s.deliver t).2, (s.deliver t).1.editors.get? l⟩
    else []
  | _ => []

def reports (host : Host) (s : Session) (l : String) (i : Input) : List TextChange :=
  changesOf l (messages (s.react host i).2)

/-- What the inputs of a run tell about an editor, which is followed to where they bring it. -/
def along {α : Type} (host : Host) (tells : Session → String → Input → List α) (s : Session) (l : String) :
    List Input → List α
  | [] => []
  | i :: inputs =>
    tells s l i ++ match s.heading l i with
      | some l' => along host tells (s.react host i).1 l' inputs
      | none => []

variable {host : Host} {s : Session} {l l' : String} {e e' : OpenEditor} {i : Input} {inputs : List Input}

theorem along_concat {α : Type} (tells : Session → String → Input → List α)
    (h : follow host s l inputs = some l') (i : Input) :
    along host tells s l (inputs ++ [i]) =
      along host tells s l inputs ++ tells (run host s inputs).1 l' i := by
  induction inputs generalizing s l with
  | nil =>
    obtain rfl := Option.some.inj h
    rw [List.nil_append, along, along, List.nil_append]
    cases s.heading l i <;> exact List.append_nil _
  | cons j inputs ih =>
    obtain ⟨k, hk, hrest⟩ := Option.bind_eq_some_iff.1 h
    rw [List.cons_append, along, along, hk, session_run_cons, List.append_assoc]
    exact congrArg (tells s l j ++ ·) (ih hrest)

theorem isOk_change (s : Session) (location : String) (edit : Edit) :
    (s.change location edit).result.isOk = true ↔
      ∃ e document, s.editors.get? location = some e ∧ e.document.change edit = .ok document := by
  unfold change
  cases s.editors.get? location with
  | none => simp [Except.isOk, Except.toBool]
  | some e => cases hc : e.document.change edit <;> simp [Except.isOk, Except.toBool, hc]

/-- What an input is to the editor that is followed: a flush of it, or a change or nothing. -/
inductive Advanced (host : Host) (s : Session) (l : String) (e : OpenEditor) (i : Input) (e' : OpenEditor) :
    Prop
  | flushed (f : Flushing) (before : f.before = e) (flush : s.flushings l i = [f]) (exact : f.Exact)
      (reports : s.reports host l i = changesOf f.location f.messages) (captures : s.captures l i = [])
      (queue : e'.capture.queue.deltas = []) (contents : e'.document.contents = e.document.contents)
  | captured (flush : s.flushings l i = []) (reports : s.reports host l i = [])
      (queue : e'.capture.queue.deltas = e.capture.queue.deltas ++ s.captures l i)
      (contents : Delta.applyAll e.document.contents (s.captures l i) = .ok e'.document.contents)

theorem advanced_of_rest (hcapture : e'.capture = e.capture)
    (hcontents : e'.document.contents = e.document.contents) (hflush : s.flushings l i = [])
    (hcaptures : s.captures l i = []) (hreports : s.reports host l i = []) :
    Advanced host s l e i e' := by
  refine .captured hflush hreports ?_ ?_
  · rw [hcapture, hcaptures, List.append_nil]
  · rw [hcontents, hcaptures, Delta.applyAll_nil]

theorem advanced_of_texts (he : s.editors.get? l = some e) (htexts : (s.react host i).1.texts = s.texts)
    (hmessages : messages (s.react host i).2 = []) (hflush : s.flushings l i = [])
    (hcaptures : s.captures l i = []) :
    ∃ e', (s.react host i).1.editors.get? l = some e' ∧ Advanced host s l e i e' := by
  obtain ⟨e', he', hdoc, hcapture⟩ := exists_of_texts htexts.symm he
  refine ⟨e', he', advanced_of_rest hcapture.symm (by rw [hdoc]) hflush hcaptures ?_⟩
  rw [reports, hmessages]
  rfl

/-- No event of the host sends a change. -/
theorem reports_event (host : Host) (s : Session) (l : String) (event : EditorEvent) :
    s.reports host l (.host event) = [] := by
  cases event with
  | opened doc =>
    rcases openDocument_cases host s doc with ⟨-, -, heffects⟩ | ⟨-, -, -, hsent⟩
    · rw [reports, react, handleEvent, heffects]; rfl
    · rw [reports, react, handleEvent, hsent]; rfl
  | changed location edit =>
    rw [reports, react, handleEvent, (change_cases s location edit).1]
    rfl
  | closed location =>
    rcases close_cases s location with ⟨-, -, heffects⟩ | ⟨e, -, -, -, hsent⟩
    · rw [reports, react, handleEvent, heffects]; rfl
    · rw [reports, react, handleEvent, hsent]; rfl
  | moved oldLocation newLocation =>
    rcases move_cases s oldLocation newLocation with ⟨-, heffects, -⟩ | ⟨e, -, -, -, hsent⟩
    · rw [reports, react, handleEvent, heffects]; rfl
    · rw [reports, react, handleEvent, hsent]; rfl
  | resolving state => rfl

theorem advanced_opened (he : s.editors.get? l = some e) (doc : Document) :
    ∃ e', (s.react host (.host (.opened doc))).1.editors.get? l = some e' ∧
      Advanced host s l e (.host (.opened doc)) e' := by
  refine ⟨e, ?_, advanced_of_rest rfl rfl rfl rfl (reports_event host s l _)⟩
  rcases openDocument_cases host s doc with ⟨-, hsession, -⟩ | ⟨hclosed, hget, -, -⟩
  · rw [react, handleEvent, hsession]
    exact he
  · have hne : l ≠ doc.location := by
      rintro rfl
      exact absurd (hclosed.symm.trans (isOpen_of_get? he)) (by simp)
    exact ((hget l).trans (if_neg hne)).trans he

theorem advanced_changed (hk : s.Kept) (he : s.editors.get? l = some e) (location : String) (edit : Edit) :
    ∃ e', (s.react host (.host (.changed location edit))).1.editors.get? l = some e' ∧
      Advanced host s l e (.host (.changed location edit)) e' := by
  have hreports := reports_event host s l (.changed location edit)
  rcases (change_cases s location edit).2 with ⟨hsession, hfails⟩ | ⟨e₀, document, he₀, hc, hget, -⟩
  · have hrefused : ¬(location = l ∧ (s.change location edit).result.isOk = true) := by
      rintro ⟨-, hok⟩
      obtain ⟨e₀, document, he₀, hc⟩ := (isOk_change s location edit).1 hok
      obtain ⟨f, hf⟩ := hfails e₀ he₀
      exact absurd (hc.symm.trans hf) (by simp)
    rw [react, handleEvent, hsession]
    exact ⟨e, he, advanced_of_rest rfl rfl rfl (if_neg hrefused) hreports⟩
  · by_cases hlocation : location = l
    · subst hlocation
      obtain rfl := Option.some.inj (he.symm.trans he₀)
      have hcaptures : s.captures location (.host (.changed location edit)) = edit.deltas :=
        if_pos ⟨rfl, (isOk_change s location edit).2 ⟨e, document, he, hc⟩⟩
      refine ⟨e.edited document edit, (hget location).trans (if_pos rfl), .captured rfl hreports ?_ ?_⟩
      · rw [hcaptures]
        exact (queue_onChange (hk location e he).installed edit).1
      · rw [hcaptures]
        exact (change_eq_ok hc).2
    · exact ⟨e, ((hget l).trans (if_neg (Ne.symm hlocation))).trans he,
        advanced_of_rest rfl rfl rfl (if_neg fun h => hlocation h.1) hreports⟩

theorem advanced_closed (he : s.editors.get? l = some e) {location : String} (hne : l ≠ location) :
    ∃ e', (s.react host (.host (.closed location))).1.editors.get? l = some e' ∧
      Advanced host s l e (.host (.closed location)) e' := by
  refine ⟨e, ?_, advanced_of_rest rfl rfl rfl rfl (reports_event host s l _)⟩
  rcases close_cases s location with ⟨-, hsession, -⟩ | ⟨e₀, -, hget, -, -⟩
  · rw [react, handleEvent, hsession]
    exact he
  · exact ((hget l).trans (if_neg hne)).trans he

theorem advanced_moved (he : s.editors.get? l = some e) (oldLocation newLocation : String)
    (hl : s.heading l (.host (.moved oldLocation newLocation)) = some l') :
    ∃ e', (s.react host (.host (.moved oldLocation newLocation))).1.editors.get? l' = some e' ∧
      Advanced host s l e (.host (.moved oldLocation newLocation)) e' := by
  have hreports := reports_event host s l (.moved oldLocation newLocation)
  rw [heading] at hl
  rcases move_cases s oldLocation newLocation with ⟨hsession, -, hwhy⟩ | ⟨e₀, hfree, hmoves, -, -⟩
  · have hstays : ¬(l = oldLocation ∧ s.isOpen newLocation = false) := by
      rintro ⟨rfl, hfree⟩
      rcases hwhy with h | h
      · exact absurd (hfree.symm.trans h) (by simp)
      · exact absurd (h.symm.trans (isOpen_of_get? he)) (by simp)
    rw [if_neg hstays] at hl
    obtain rfl := Option.some.inj hl
    rw [react, handleEvent, hsession]
    exact ⟨e, he, advanced_of_rest rfl rfl rfl rfl hreports⟩
  · by_cases hold : l = oldLocation
    · subst hold
      rw [if_pos ⟨rfl, hfree⟩] at hl
      obtain rfl := Option.some.inj hl
      obtain rfl := Option.some.inj (he.symm.trans hmoves.found)
      exact ⟨e.relocated newLocation, (hmoves.editors newLocation).trans (if_pos rfl),
        advanced_of_rest rfl rfl rfl rfl hreports⟩
    · rw [if_neg fun h => hold h.1] at hl
      obtain rfl := Option.some.inj hl
      have hnew : l ≠ newLocation := by
        rintro rfl
        exact absurd (hfree.symm.trans (isOpen_of_get? he)) (by simp)
      refine ⟨e, ?_, advanced_of_rest rfl rfl rfl rfl hreports⟩
      exact ((hmoves.editors l).trans ((if_neg hnew).trans (if_neg hold))).trans he

theorem exact_of_flush (hk : e.Kept l) :
    Flushing.Exact ⟨l, e, e.unsent.map fun c => e.reporter.message (.change c), some (flushEditor e).1⟩ where
  location := hk.location
  deltas h := by
    have hn : e.reporter.needsResync = false := h
    simp [OpenEditor.unsent, hn, hk.location, Flushing.drained]
  content h := by
    have hn : e.reporter.needsResync = true := h
    simp [OpenEditor.unsent, hn, hk.location]
  done := by
    have hflushed := flushed_flushEditor e
    exact ⟨_, rfl, hflushed.queue, by rw [hflushed.reporter], hflushed.contents⟩

theorem advanced_tick (hk : s.Kept) (he : s.editors.get? l = some e) (t : Tick) :
    ∃ e', (s.react host (.tick t)).1.editors.get? l = some e' ∧ Advanced host s l e (.tick t) e' := by
  by_cases ht : t ∈ s.scheduler.posted
  · rcases (deliver_of_mem ht).2 with ⟨heditors, heffects, hwhy⟩ | ⟨e₀, hcurrent, he₀, hget, hsent⟩
    · -- the timer is not current, or its document is not open
      have hquiet : ¬(t ∈ s.scheduler.posted ∧ t.key = l ∧
          ({ s with scheduler := s.scheduler.take t }.handleTick t).result.isSome = true) := by
        rintro ⟨-, rfl, hr⟩
        obtain ⟨hcurrent, hopen⟩ := (isSome_handleTick _ t).1 hr
        exact absurd (hopen.symm.trans (hwhy hcurrent)) (by simp)
      refine ⟨e, by rw [react, heditors]; exact he, advanced_of_rest rfl rfl (if_neg hquiet) rfl ?_⟩
      rw [reports, react, heffects]
      rfl
    · by_cases hkey : t.key = l
      · subst hkey
        obtain rfl := Option.some.inj (he.symm.trans he₀)
        have hr : ({ s with scheduler := s.scheduler.take t }.handleTick t).result.isSome = true :=
          (isSome_handleTick _ t).2 ⟨hcurrent, isOpen_of_get? (s := s) he⟩
        have hnew : (s.deliver t).1.editors.get? t.key = some (flushEditor e).1 :=
          (hget t.key).trans (if_pos rfl)
        refine ⟨_, hnew, .flushed _ rfl ?_ (exact_of_flush (hk t.key e he)) ?_ rfl
          (flushed_flushEditor e).queue (flushed_flushEditor e).contents⟩
        · rw [flushings, if_pos ⟨ht, rfl, hr⟩, he, hsent, hnew]
          rfl
        · rw [reports, react, hsent]
      · refine ⟨e, ((hget l).trans (if_neg (Ne.symm hkey))).trans he,
          advanced_of_rest rfl rfl (if_neg fun h => hkey h.2.1) rfl ?_⟩
        rw [reports, react, hsent, changesOf_unsent, (hk t.key e₀ he₀).location, if_neg hkey]
  · have hsame := deliver_of_notMem ht
    refine ⟨e, by rw [react, hsame]; exact he, advanced_of_rest rfl rfl (if_neg fun h => ht h.1) rfl ?_⟩
    rw [reports, react, hsame]
    rfl

/-- The editor that is followed is where an input brings it. -/
theorem advanced_react (host : Host) (hk : s.Kept) (he : s.editors.get? l = some e)
    (hl : s.heading l i = some l') :
    ∃ e', (s.react host i).1.editors.get? l' = some e' ∧ Advanced host s l e i e' := by
  cases i with
  | host event =>
    cases event with
    | opened doc =>
      obtain rfl := Option.some.inj hl
      exact advanced_opened he doc
    | changed location edit =>
      obtain rfl := Option.some.inj hl
      exact advanced_changed hk he location edit
    | closed location =>
      rw [heading] at hl
      split at hl
      · cases hl
      · next hne =>
        obtain rfl := Option.some.inj hl
        exact advanced_closed he hne
    | moved oldLocation newLocation => exact advanced_moved he oldLocation newLocation hl
    | resolving state =>
      obtain rfl := Option.some.inj hl
      exact advanced_of_texts he (texts_onResolving s state) rfl rfl rfl
  | inbound envelope =>
    obtain rfl := Option.some.inj hl
    refine advanced_of_texts he (texts_handleInbound s envelope) ?_ rfl rfl
    rw [react, (handleInbound_cases s envelope).1]
    rfl
  | saving location set =>
    obtain rfl := Option.some.inj hl
    exact advanced_of_texts he (texts_setSaving s location set) rfl rfl rfl
  | pass ms =>
    obtain rfl := Option.some.inj hl
    exact advanced_of_texts he rfl rfl rfl rfl
  | ring t =>
    obtain rfl := Option.some.inj hl
    exact advanced_of_texts he rfl rfl rfl rfl
  | tick t =>
    obtain rfl := Option.some.inj hl
    exact advanced_tick hk he t

/-- What has become of the deltas of an editor that had a content at first. Each was taken by one flush or
is queued, in the order of the edits; the flushes have sent all changes that there were; and when a flush
came, the content was the one that all deltas taken so far lead to. -/
structure Ledger (host : Host) (s : Session) (l : String) (inputs : List Input) (content : String)
    (e : OpenEditor) : Prop where
  captured : along host captures s l inputs =
    (along host flushings s l inputs).flatMap Flushing.drained ++ e.capture.queue.deltas
  contents : Delta.applyAll content (along host captures s l inputs) = .ok e.document.contents
  reported : along host (reports host) s l inputs =
    (along host flushings s l inputs).flatMap fun f => changesOf f.location f.messages
  flushed : ∀ earlier f later, along host flushings s l inputs = earlier ++ f :: later →
    f.Exact ∧ Delta.applyAll content (earlier.flatMap Flushing.drained ++ f.drained) =
      .ok f.before.document.contents

variable {content : String}

theorem Ledger.concat (h : Ledger host s l inputs content e) (hl : follow host s l inputs = some l')
    (ha : Advanced host (run host s inputs).1 l' e i e') : Ledger host s l (inputs ++ [i]) content e' := by
  cases ha with
  | flushed f before flush exact reports captures queue contents =>
    have hflushings : along host flushings s l (inputs ++ [i]) = along host flushings s l inputs ++ [f] := by
      rw [along_concat _ hl, flush]
    have hcaptures : along host Session.captures s l (inputs ++ [i]) =
        along host Session.captures s l inputs := by
      rw [along_concat _ hl, captures, List.append_nil]
    have hdrained : f.drained = e.capture.queue.deltas := by rw [Flushing.drained, before]
    refine ⟨?_, ?_, ?_, ?_⟩
    · rw [hcaptures, hflushings, h.captured, queue, List.flatMap_append, List.flatMap_singleton, hdrained,
        List.append_nil]
    · rw [hcaptures, h.contents, contents]
    · rw [along_concat _ hl, hflushings, h.reported, reports, List.flatMap_append, List.flatMap_singleton]
    · intro earlier g later hsplit
      rw [hflushings] at hsplit
      rcases List.eq_nil_or_concat later with rfl | ⟨later, x, rfl⟩
      · obtain ⟨rfl, hg⟩ := List.append_inj' hsplit rfl
        obtain rfl := List.singleton_inj.1 hg
        refine ⟨exact, ?_⟩
        rw [hdrained, ← h.captured, h.contents, before]
      · rw [List.concat_eq_append, ← List.cons_append, ← List.append_assoc] at hsplit
        exact h.flushed earlier g later (List.append_inj' hsplit rfl).1
  | captured flush reports queue contents =>
    have hflushings : along host flushings s l (inputs ++ [i]) = along host flushings s l inputs := by
      rw [along_concat _ hl, flush, List.append_nil]
    refine ⟨?_, ?_, ?_, ?_⟩
    · rw [along_concat _ hl, hflushings, h.captured, queue, List.append_assoc]
    · rw [along_concat _ hl, Delta.applyAll_append _ h.contents, contents]
    · rw [along_concat _ hl, hflushings, reports, List.append_nil, h.reported]
    · rw [hflushings]
      exact h.flushed

theorem ledger_run (hk : s.Kept) (he : s.editors.get? l = some e) (hqueue : e.capture.queue.deltas = [])
    (hl : follow host s l inputs = some l') :
    ∃ e', (run host s inputs).1.editors.get? l' = some e' ∧
      Ledger host s l inputs e.document.contents e' := by
  induction inputs using List.reverseRecOn generalizing l' with
  | nil =>
    obtain rfl := Option.some.inj hl
    refine ⟨e, he, ⟨?_, Delta.applyAll_nil _, rfl, fun earlier f later hsplit => ?_⟩⟩
    · rw [hqueue]; rfl
    · exact absurd hsplit (by simp [along])
  | append_singleton inputs i ih =>
    rw [follow_append, Option.bind_eq_some_iff] at hl
    obtain ⟨k, hfollow, hlast⟩ := hl
    obtain ⟨e', he', hledger⟩ := ih hfollow
    have hheading : (run host s inputs).1.heading k i = some l' := by
      rw [follow] at hlast
      obtain ⟨k', hheading, hnil⟩ := Option.bind_eq_some_iff.1 hlast
      obtain rfl := Option.some.inj hnil
      exact hheading
    obtain ⟨e'', he'', hadvanced⟩ := advanced_react host (kept_runFrom host hk inputs) he' hheading
    rw [session_run_concat]
    exact ⟨e'', he'', hledger.concat hfollow hadvanced⟩

/-- Between the opening of a document and its closing, wherever it is moved and whatever comes for it:
every delta of an accepted change is taken out of the queue by one flush, in the order of the edits, or is
still queued. A flush sends what it takes, each delta by one message, or the content alone, which all
deltas taken so far have led to. Nothing else sends a change, and closing sends none. -/
theorem deltas_flushed_once (host : Host) (options : SessionOptions) (before rest : List Input)
    (doc : Document) (l : String)
    (hclosed : (run host (start options) before).1.isOpen doc.location = false)
    (hl : follow host (run host (start options) (before ++ [.host (.opened doc)])).1 doc.location rest =
      some l) :
    let s := (run host (start options) (before ++ [.host (.opened doc)])).1
    ∃ e, (run host s rest).1.editors.get? l = some e ∧ Ledger host s doc.location rest doc.contents e ∧
      ((run host s rest).1.close l).session.editors.get? l = none ∧
      messages ((run host s rest).1.close l).effects = [e.reporter.stopped l] := by
  intro s
  have hs : s = ((run host (start options) before).1.openDocument host doc).session := by
    rw [show s = _ from session_run_concat host _ before _]
    rfl
  have hopened : s.editors.get? doc.location =
      some (.opened host (run host (start options) before).1 doc) := by
    rcases openDocument_cases host (run host (start options) before).1 doc with ⟨hopen, -, -⟩ | ⟨-, hget, -, -⟩
    · exact absurd (hclosed.symm.trans hopen) (by simp)
    · rw [hs, hget, if_pos rfl]
  obtain ⟨e, he, hledger⟩ := ledger_run (kept_run host options _) hopened rfl hl
  refine ⟨e, he, hledger, ?_⟩
  rcases close_cases (run host s rest).1 l with ⟨hnone, -, -⟩ | ⟨e', he', hget, -, hsent⟩
  · exact absurd (hnone.symm.trans (isOpen_of_get? he)) (by simp)
  · obtain rfl := Option.some.inj (he.symm.trans he')
    exact ⟨(hget l).trans (if_pos rfl), hsent⟩

/-- A character is replaced, which a flush sends. Another is typed and the file moved before the server asks
for the content, which the next flush sends. What is typed then still waits. -/
def askedAfterMove : List Input :=
  [.host (.changed "/p/a" ⟨0, 1, some "x"⟩), .pass 1000, .ring ⟨"/p/a", 1, 1000⟩, .tick ⟨"/p/a", 1, 1000⟩,
    .host (.changed "/p/a" ⟨3, 0, some "y"⟩), .host (.moved "/p/a" "/p/b"),
    .inbound (Message.envelope ⟨"client", .resync ⟨"/p/b", "/p", "lost"⟩⟩ "server"), .pass 1000,
    .ring ⟨"/p/b", 4, 2000⟩, .tick ⟨"/p/b", 4, 2000⟩, .host (.changed "/p/b" ⟨0, 1, none⟩)]

def justOpened : Session :=
  (run { owner := fun _ => "o" } (start {}) ([] ++ [.host (.opened ⟨"/p/a", "/p", "abc", false⟩)])).1

theorem deltas_flushed_once_askedAfterMove :
    (run { owner := fun _ => "o" } (start {}) []).1.isOpen "/p/a" = false ∧
      follow { owner := fun _ => "o" } justOpened "/p/a" askedAfterMove = some "/p/b" ∧
      (∃ e, (run { owner := fun _ => "o" } justOpened askedAfterMove).1.editors.get? "/p/b" = some e ∧
        Ledger { owner := fun _ => "o" } justOpened "/p/a" askedAfterMove "abc" e ∧
        e.document.contents = "bcy") ∧
      along { owner := fun _ => "o" } (reports { owner := fun _ => "o" }) justOpened "/p/a" askedAfterMove =
        [.ofDelta (.remove 0 1) "/p/a" "/p" "o", .ofDelta (.insert 0 "x") "/p/a" "/p" "o",
          .ofContent "xbcy" "/p/b" "/p" "o"] := by
  have hclosed : (run { owner := fun _ => "o" } (start {}) []).1.isOpen "/p/a" = false := by decide +kernel
  have hl : follow { owner := fun _ => "o" } justOpened "/p/a" askedAfterMove = some "/p/b" := by decide +kernel
  obtain ⟨e, he, hledger, -⟩ := deltas_flushed_once { owner := fun _ => "o" } {} [] askedAfterMove
    ⟨"/p/a", "/p", "abc", false⟩ "/p/b" hclosed hl
  have hcontents : ((run { owner := fun _ => "o" } justOpened askedAfterMove).1.editors.get? "/p/b").map
      (fun e => e.document.contents) = some "bcy" := by decide +kernel
  rw [show (run { owner := fun _ => "o" } justOpened askedAfterMove).1.editors.get? "/p/b" = some e from he]
    at hcontents
  exact ⟨hclosed, hl, ⟨e, he, hledger, Option.some.inj hcontents⟩, by decide +kernel⟩

end Session
end EditSync
