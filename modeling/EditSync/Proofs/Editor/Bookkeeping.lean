import EditSync.Proofs.Editor.Flushes
import EditSync.Proofs.Editor.Pending
import EditSync.Proofs.Text.Edit

/-! The books of a session are in order whatever is done with it, even if ticks are handed over twice or
were never posted. An editor is kept at the location of its document, and only open documents have timers,
so a tick that is claimed has an editor to flush. What a session refuses to do leaves no trace at all. -/

namespace EditSync

open Text

theorem Document.exists_change_iff {doc : Document} {edit : Edit} :
    (∃ next, doc.change edit = .ok next) ↔ edit.Fits doc.contents := by
  rw [Document.change]
  by_cases hfits : edit.Fits doc.contents
  · rw [Edit.applyAll_deltas_of_fits hfits]
    exact iff_of_true ⟨_, rfl⟩ hfits
  · obtain ⟨d, ds, f, hdeltas, hfails⟩ := Edit.apply_deltas_of_not_fits hfits
    rw [hdeltas, Delta.applyAll, List.foldlM_cons, hfails]
    exact iff_of_false (by simp [bind, Except.bind]) hfits

namespace Debounce

variable {d : Debounce} {key k : String}

theorem hasPending_eq (d : Debounce) (k : String) : d.hasPending k = (d.current.get? k).isSome := rfl

/-- Starting a timer adds no entry but its own. -/
theorem hasPending_of_schedule (h : (d.schedule key).1.hasPending k = true) :
    k = key ∨ d.hasPending k = true := by
  rw [hasPending_eq, get?_schedule] at h
  split at h
  · next hk => exact Or.inl hk
  · obtain ⟨g, hg⟩ := Option.isSome_iff_exists.1 h
    exact Or.inr (Option.isSome_iff_exists.2 ⟨g, get?_of_get?_prune hg⟩)

theorem hasPending_cancel : (d.cancel key).1.hasPending k = true ↔ k ≠ key ∧ d.hasPending k = true := by
  rw [hasPending_eq, get?_cancel, hasPending_eq]
  split <;> simp_all

theorem hasPending_of_claim {g : Nat} (h : (d.claim key g).1.hasPending k = true) :
    d.hasPending k = true := by
  rw [hasPending_eq, get?_claim] at h
  split at h
  · exact absurd h (by simp)
  · exact h

theorem claim_snd {g : Nat} : (d.claim key g).2 = true ↔ d.current.get? key = some g := by
  unfold claim
  split <;> simp_all

end Debounce

namespace Session

inductive Operation where
  | openDocument (doc : Document)
  | change (location : String) (edit : Edit)
  | close (location : String)
  | move (oldLocation newLocation : String)
  | onResolving (state : Resolving)
  | handleInbound (e : Envelope)
  | setSaving (location : String) (set : AutoSave → AutoSave)
  | pass (ms : Nat)
  | ring (t : Tick)
  /-- A posted tick is taken out of the channel. -/
  | take (t : Tick)
  /-- A tick is handed over, wherever it comes from. -/
  | handleTick (t : Tick)
  | cancelAll

def Step.map {α β : Type} (f : α → β) (r : Step α) : Step β := ⟨r.session, r.effects, f r.result⟩

def perform (host : Host) (s : Session) : Operation → Step Bool
  | .openDocument doc => s.openDocument host doc
  | .change location edit => (s.change location edit).map (·.isOk)
  | .close location => s.close location
  | .move oldLocation newLocation => (s.move oldLocation newLocation).map (·.isOk)
  | .onResolving state => { session := s.onResolving state, result := true }
  | .handleInbound e => (s.handleInbound e).map (·.isOk)
  | .setSaving location set => { session := s.setSaving location set, result := true }
  | .pass ms => { session := { s with scheduler := s.scheduler.pass ms }, result := true }
  | .ring t => { session := { s with scheduler := s.scheduler.ring t }, result := true }
  | .take t => { session := { s with scheduler := s.scheduler.take t }, result := true }
  | .handleTick t => (s.handleTick t).map (·.isSome)
  | .cancelAll => { session := { s with scheduler := s.scheduler.cancelAll }, result := true }

def performAll (host : Host) (s : Session) (ops : List Operation) : Session :=
  ops.foldl (fun s op => (s.perform host op).session) s

theorem performAll_concat (host : Host) (s : Session) (ops : List Operation) (op : Operation) :
    performAll host s (ops ++ [op]) = ((performAll host s ops).perform host op).session := by
  rw [performAll, List.foldl_append]
  rfl

/-- Why an operation cannot be done. -/
def Unfit (s : Session) : Operation → Prop
  | .openDocument doc => s.isOpen doc.location = true
  | .change location edit => ∀ e, s.editors.get? location = some e → ¬ edit.Fits e.document.contents
  | .close location => s.isOpen location = false
  | .move oldLocation newLocation => s.isOpen newLocation = true ∨ s.isOpen oldLocation = false
  | .handleInbound e =>
    (e.method = Method.reconcileStateChanged ∧ ∃ f, e.decode ReconcileResult.ofJson? = .error f) ∨
      (e.method = Method.resyncRequired ∧ ∃ f, e.decode ResyncRequest.ofJson? = .error f)
  | .handleTick t => s.scheduler.current.get? t.key ≠ some t.generation
  | _ => False

/-- Every timer is that of an open document. -/
def Tended (s : Session) : Prop := ∀ l, s.hasPendingFlush l = true → s.isOpen l = true

variable {s s' : Session} {host : Host}

theorem Tended.isOpen_of_current {l : String} {g : Nat} (h : s.Tended)
    (hcurrent : s.scheduler.current.get? l = some g) : s.isOpen l = true := by
  refine h l ?_
  rw [hasPendingFlush_eq, hcurrent]
  rfl

/-- Where documents stay open, only an entry that is new can be untended. -/
theorem Tended.mono (h : s.Tended) (hopen : ∀ l, s.isOpen l = true → s'.isOpen l = true)
    (hentries : ∀ l, s'.hasPendingFlush l = true → s'.isOpen l = true ∨ s.hasPendingFlush l = true) :
    s'.Tended := by
  intro l hl
  rcases hentries l hl with ho | hp
  · exact ho
  · exact hopen l (h l hp)

theorem Tended.of_entries (h : s.Tended) (hopen : ∀ l, s'.isOpen l = s.isOpen l)
    (hentries : ∀ l, s'.hasPendingFlush l = true → s.hasPendingFlush l = true) : s'.Tended :=
  h.mono (fun l ho => (hopen l).trans ho) fun l hl => Or.inr (hentries l hl)

/-- A timer is started for a document that is open. -/
theorem Tended.schedule {location : String} (h : s.Tended)
    (hopen : ∀ l, s.isOpen l = true → s'.isOpen l = true) (hlocation : s'.isOpen location = true)
    (hscheduler : s'.scheduler = (s.scheduler.schedule location).1) : s'.Tended := by
  refine h.mono hopen fun l hl => ?_
  rw [hasPendingFlush, hscheduler] at hl
  rcases Debounce.hasPending_of_schedule hl with rfl | hp
  · exact Or.inl hlocation
  · exact Or.inr hp

theorem tended_openDocument (h : s.Tended) (doc : Document) : (s.openDocument host doc).session.Tended := by
  rcases openDocument_cases host s doc with ⟨-, hsess, -⟩ | ⟨-, hget, hscheduler, -⟩
  · rw [hsess]; exact h
  · obtain ⟨hlocation, hopen⟩ := isOpen_set hget
    split at hscheduler
    · exact h.schedule hopen hlocation hscheduler
    · refine h.mono hopen fun l hl => Or.inr ?_
      rw [hasPendingFlush, hscheduler] at hl
      exact hl

theorem tended_change (h : s.Tended) (location : String) (edit : Edit) :
    (s.change location edit).session.Tended := by
  rcases (change_cases s location edit).2 with ⟨hsess, -⟩ | ⟨e, document, -, -, hget, hscheduler⟩
  · rw [hsess]; exact h
  · obtain ⟨hlocation, hopen⟩ := isOpen_set hget
    exact h.schedule hopen hlocation hscheduler

theorem tended_close (h : s.Tended) (location : String) : (s.close location).session.Tended := by
  rcases close_cases s location with ⟨-, hsess, -⟩ | ⟨e, -, hget, hscheduler, -⟩
  · rw [hsess]; exact h
  · intro l hl
    rw [hasPendingFlush, hscheduler, Debounce.hasPending_cancel] at hl
    rw [isOpen_eq, hget, if_neg hl.1]
    exact h l hl.2

theorem tended_move (h : s.Tended) (oldLocation newLocation : String) :
    (s.move oldLocation newLocation).session.Tended := by
  rcases move_cases s oldLocation newLocation with ⟨hsess, -⟩ | ⟨e, -, hmoves, hscheduler, -⟩
  · rw [hsess]; exact h
  · -- the old location is the only one that is not open any more, and its entry goes
    have hothers : ∀ l, (s.scheduler.cancel oldLocation).1.hasPending l = true →
        (s.move oldLocation newLocation).session.isOpen l = true := fun l hl =>
      have ⟨hne, hp⟩ := Debounce.hasPending_cancel.1 hl
      hmoves.isOpen_other (h l hp) hne
    intro l hl
    rw [hasPendingFlush, hscheduler] at hl
    split at hl
    · rcases Debounce.hasPending_of_schedule hl with rfl | hp
      · exact hmoves.isOpen_new
      · exact hothers l hp
    · exact hothers l hl

theorem tended_resolveEditor (state : Resolving) (h : s.Tended) (location : String) :
    (resolveEditor state s location).Tended := by
  have hopen := isOpen_resolveEditor state s location
  have hscheduler := scheduler_resolveEditor state s location
  split at hscheduler
  · next hresolved =>
    refine h.schedule (fun l ho => (hopen l).trans ho) ?_ hscheduler
    rw [hopen]
    exact hresolved.1
  · refine h.of_entries hopen fun l hl => ?_
    rw [hasPendingFlush, hscheduler] at hl
    exact hl

theorem tended_onResolving (h : s.Tended) (state : Resolving) : (s.onResolving state).Tended := by
  -- the editors are told one after the other; which of them are told does not matter
  rw [onResolving]
  generalize s.editors.keys = ks
  induction ks generalizing s with
  | nil => exact h
  | cons k ks ih => exact ih (tended_resolveEditor state h k)

theorem tended_handleInbound (h : s.Tended) (e : Envelope) : (s.handleInbound e).session.Tended := by
  have hopen := isOpen_of_texts (texts_handleInbound s e)
  rcases (handleInbound_cases s e).2 with ⟨r, -, hsess⟩ | ⟨r, -, -, ho, hsess⟩ | ⟨hsess, -⟩
  · refine h.of_entries hopen fun l hl => ?_
    rw [hsess] at hl
    exact hl
  · refine h.schedule (fun l hl => (hopen l).trans hl) ((hopen r.location).trans ho) ?_
    rw [hsess, scheduler_demandResync]
  · rw [hsess]; exact h

theorem tended_handleTick (h : s.Tended) (t : Tick) : (s.handleTick t).session.Tended := by
  obtain ⟨hscheduler, hcases⟩ := handleTick_cases s t
  have hpending : ∀ l, (s.handleTick t).session.hasPendingFlush l = true → s.hasPendingFlush l = true := by
    intro l hl
    rw [hasPendingFlush, hscheduler] at hl
    exact Debounce.hasPending_of_claim hl
  rcases hcases with ⟨heditors, -⟩ | ⟨e, -, hflushed⟩
  · exact h.of_entries (fun l => by rw [isOpen_eq, heditors, isOpen_eq]) hpending
  · exact h.mono (isOpen_set hflushed.editors).2 fun l hl => Or.inr (hpending l hl)

theorem tended_perform (host : Host) (h : s.Tended) (op : Operation) :
    (s.perform host op).session.Tended := by
  cases op with
  | openDocument doc => exact tended_openDocument h doc
  | change location edit => exact tended_change h location edit
  | close location => exact tended_close h location
  | move oldLocation newLocation => exact tended_move h oldLocation newLocation
  | onResolving state => exact tended_onResolving h state
  | handleInbound e => exact tended_handleInbound h e
  | setSaving location set =>
    exact h.of_entries (isOpen_of_texts (texts_setSaving s location set)) fun _ hl => hl
  | pass ms => exact h
  | ring t =>
    refine h.of_entries (fun _ => rfl) fun l hl => ?_
    have hl : (s.scheduler.ring t).hasPending l = true := hl
    rwa [Debounce.hasPending_eq, (Debounce.ring_frame s.scheduler t).1] at hl
  | take t => exact h
  | handleTick t => exact tended_handleTick h t
  | cancelAll => exact h.of_entries (fun _ => rfl) fun l hl => absurd hl Bool.false_ne_true

theorem kept_perform (host : Host) (hk : s.Kept) (op : Operation) : (s.perform host op).session.Kept := by
  cases op with
  | openDocument doc => exact kept_react host hk (.host (.opened doc))
  | change location edit => exact kept_react host hk (.host (.changed location edit))
  | close location => exact kept_react host hk (.host (.closed location))
  | move oldLocation newLocation => exact kept_move hk oldLocation newLocation
  | onResolving state => exact hk.of_texts (texts_onResolving s state)
  | handleInbound e => exact hk.of_texts (texts_handleInbound s e)
  | setSaving location set => exact hk.of_texts (texts_setSaving s location set)
  | pass ms => exact hk
  | ring t => exact hk
  | take t => exact hk
  | handleTick t => exact kept_handleTick hk t
  | cancelAll => exact hk

theorem kept_tended_performAll (host : Host) (options : SessionOptions) (ops : List Operation) :
    (performAll host (start options) ops).Kept ∧ (performAll host (start options) ops).Tended := by
  induction ops using List.reverseRecOn with
  | nil =>
    exact ⟨fun l e he => absurd he (by simp [performAll, start]),
      fun l hl => absurd hl Bool.false_ne_true⟩
  | append_singleton ops op ih =>
    rw [performAll_concat]
    exact ⟨kept_perform host ih.1 op, tended_perform host ih.2 op⟩

/-- The tick of an entry flushes its editor. -/
theorem handleTick_of_current {t : Tick} {e : OpenEditor}
    (hcurrent : s.scheduler.current.get? t.key = some t.generation) (he : s.editors.get? t.key = some e) :
    s.handleTick t =
      { session :=
          { s with
            editors := s.editors.set t.key (flushEditor e).1
            scheduler := (s.scheduler.claim t.key t.generation).1 }
        effects := (flushEditor e).2.1
        result := some (flushEditor e).2.2 } := by
  rw [handleTick_eq, if_pos hcurrent, flush]
  simp only [he]

/-- What becomes of an operation: it has a reason to be refused and nothing happens, or it succeeds. -/
def Settled (host : Host) (s : Session) (op : Operation) : Prop :=
  (s.Unfit op ∧ s.perform host op = { session := s, result := false }) ∨
    (¬ s.Unfit op ∧ (s.perform host op).result = true)

theorem settled_openDocument (doc : Document) : Settled host s (.openDocument doc) := by
  cases ho : s.isOpen doc.location with
  | true => exact Or.inl ⟨ho, by simp [perform, openDocument, ho]⟩
  | false => exact Or.inr ⟨by simp [Unfit, ho], by simp [perform, openDocument, ho]⟩

theorem settled_change (location : String) (edit : Edit) : Settled host s (.change location edit) := by
  cases he : s.editors.get? location with
  | none =>
    refine Or.inl ⟨by simp [Unfit, he], ?_⟩
    simp [perform, Step.map, change, he, Except.isOk, Except.toBool]
  | some e =>
    cases hc : e.document.change edit with
    | error f =>
      refine Or.inl ⟨?_, by simp [perform, Step.map, change, he, hc, Except.isOk, Except.toBool]⟩
      intro e' he' hfits
      obtain rfl := Option.some.inj (he.symm.trans he')
      obtain ⟨next, hnext⟩ := Document.exists_change_iff.2 hfits
      exact absurd (hc.symm.trans hnext) (by simp)
    | ok document =>
      refine Or.inr ⟨fun h => h e he (Document.exists_change_iff.1 ⟨document, hc⟩), ?_⟩
      simp [perform, Step.map, change, he, hc, Except.isOk, Except.toBool]

theorem settled_close (location : String) : Settled host s (.close location) := by
  cases he : s.editors.get? location with
  | none => exact Or.inl ⟨by simp [Unfit, isOpen_eq, he], by simp [perform, close, he]⟩
  | some e => exact Or.inr ⟨by simp [Unfit, isOpen_eq, he], by simp [perform, close, he]⟩

theorem settled_move (oldLocation newLocation : String) : Settled host s (.move oldLocation newLocation) := by
  cases hn : s.isOpen newLocation with
  | true => exact Or.inl ⟨Or.inl hn, by simp [perform, Step.map, move, hn, Except.isOk, Except.toBool]⟩
  | false =>
    cases he : s.editors.get? oldLocation with
    | none =>
      refine Or.inl ⟨Or.inr (by simp [isOpen_eq, he]), ?_⟩
      simp [perform, Step.map, move, hn, he, Except.isOk, Except.toBool]
    | some e =>
      refine Or.inr ⟨by simp [Unfit, hn, isOpen_eq, he], ?_⟩
      simp [perform, Step.map, move, hn, he, Except.isOk, Except.toBool]

theorem settled_handleInbound (e : Envelope) : Settled host s (.handleInbound e) := by
  have hmethods : Method.resyncRequired ≠ Method.reconcileStateChanged := by decide
  by_cases hresult : e.method = Method.reconcileStateChanged
  · cases hd : e.decode ReconcileResult.ofJson? with
    | error f =>
      refine Or.inl ⟨Or.inl ⟨hresult, f, hd⟩, ?_⟩
      simp [perform, Step.map, handleInbound, hresult, hd, Except.isOk, Except.toBool]
    | ok r =>
      refine Or.inr ⟨by simp [Unfit, hd, hresult, hmethods.symm], ?_⟩
      simp [perform, Step.map, handleInbound, hresult, hd, Except.isOk, Except.toBool]
  · by_cases hresync : e.method = Method.resyncRequired
    · cases hd : e.decode ResyncRequest.ofJson? with
      | error f =>
        refine Or.inl ⟨Or.inr ⟨hresync, f, hd⟩, ?_⟩
        simp [perform, Step.map, handleInbound, hresync, hmethods, hd, Except.isOk, Except.toBool]
      | ok r =>
        refine Or.inr ⟨by simp [Unfit, hd, hresync, hmethods], ?_⟩
        simp [perform, Step.map, handleInbound, hresync, hmethods, hd, Except.isOk, Except.toBool]
    · refine Or.inr ⟨by simp [Unfit, hresult, hresync], ?_⟩
      simp [perform, Step.map, handleInbound, hresult, hresync, Except.isOk, Except.toBool]

/-- A tick of an entry is not refused: its document is open. -/
theorem settled_handleTick (h : s.Tended) (t : Tick) : Settled host s (.handleTick t) := by
  by_cases hcurrent : s.scheduler.current.get? t.key = some t.generation
  · have hdone := (isSome_handleTick s t).2 ⟨hcurrent, h.isOpen_of_current hcurrent⟩
    exact Or.inr ⟨fun hunfit => hunfit hcurrent, hdone⟩
  · refine Or.inl ⟨hcurrent, ?_⟩
    rw [perform, handleTick_eq, if_neg hcurrent]
    rfl

theorem settled (host : Host) (h : s.Tended) (op : Operation) : Settled host s op := by
  cases op with
  | openDocument doc => exact settled_openDocument doc
  | change location edit => exact settled_change location edit
  | close location => exact settled_close location
  | move oldLocation newLocation => exact settled_move oldLocation newLocation
  | handleInbound e => exact settled_handleInbound e
  | handleTick t => exact settled_handleTick h t
  | onResolving _ | setSaving _ _ | pass _ | ring _ | take _ | cancelAll => exact Or.inr ⟨id, rfl⟩

structure InOrder (host : Host) (s : Session) : Prop where
  located : ∀ l e, s.editors.get? l = some e → e.document.location = l
  tended : ∀ l, s.hasPendingFlush l = true → s.isOpen l = true
  /-- A tick that is claimed flushes the editor of its document. -/
  flushed : ∀ t, (s.scheduler.claim t.key t.generation).2 = true →
    ∃ e, s.editors.get? t.key = some e ∧
      s.handleTick t =
        { session :=
            { s with
              editors := s.editors.set t.key (flushEditor e).1
              scheduler := (s.scheduler.claim t.key t.generation).1 }
          effects := (flushEditor e).2.1
          result := some (flushEditor e).2.2 }
  refused : ∀ op, (s.perform host op).result = false ↔ s.Unfit op
  /-- An operation that is refused does nothing outside and leaves the session as it is. -/
  untouched : ∀ op, (s.perform host op).result = false →
    s.perform host op = { session := s, result := false }

theorem Tended.inOrder (host : Host) (hk : s.Kept) (h : s.Tended) : s.InOrder host where
  located l e he := (hk l e he).location
  tended := h
  flushed t ht := by
    have hcurrent := Debounce.claim_snd.1 ht
    obtain ⟨e, he⟩ := Option.isSome_iff_exists.1 (h.isOpen_of_current hcurrent)
    exact ⟨e, he, handleTick_of_current hcurrent he⟩
  refused op := by
    rcases settled host h op with ⟨hunfit, hsame⟩ | ⟨hfit, hdone⟩
    · exact iff_of_true (by rw [hsame]) hunfit
    · exact iff_of_false (by simp [hdone]) hfit
  untouched op hresult := by
    rcases settled host h op with ⟨-, hsame⟩ | ⟨-, hdone⟩
    · exact hsame
    · exact absurd (hresult.symm.trans hdone) (by simp)

/-- Handing over a posted tick is taking it and handing it over; every other input is one operation. -/
theorem exists_performAll_react (host : Host) (s : Session) (i : Input) :
    ∃ ops, (s.react host i).1 = performAll host s ops := by
  cases i with
  | host event =>
    cases event with
    | opened doc => exact ⟨[.openDocument doc], rfl⟩
    | changed location edit => exact ⟨[.change location edit], rfl⟩
    | closed location => exact ⟨[.close location], rfl⟩
    | moved oldLocation newLocation => exact ⟨[.move oldLocation newLocation], rfl⟩
    | resolving state => exact ⟨[.onResolving state], rfl⟩
  | inbound e => exact ⟨[.handleInbound e], rfl⟩
  | saving location set => exact ⟨[.setSaving location set], rfl⟩
  | pass ms => exact ⟨[.pass ms], rfl⟩
  | ring t => exact ⟨[.ring t], rfl⟩
  | tick t =>
    by_cases ht : t ∈ s.scheduler.posted
    · exact ⟨[.take t, .handleTick t], by rw [react, deliver, if_pos ht]; rfl⟩
    · exact ⟨[], by rw [react, deliver_of_notMem ht]; rfl⟩

theorem exists_performAll_run (host : Host) (s : Session) (inputs : List Input) :
    ∃ ops, (run host s inputs).1 = performAll host s ops := by
  induction inputs using List.reverseRecOn with
  | nil => exact ⟨[], rfl⟩
  | append_singleton inputs i ih =>
    obtain ⟨before, hbefore⟩ := ih
    obtain ⟨after, hafter⟩ := exists_performAll_react host (run host s inputs).1 i
    refine ⟨before ++ after, ?_⟩
    rw [session_run_concat, hafter, hbefore, performAll, performAll, performAll, List.foldl_append]

/-- Whatever is done with a session, its books are in order; and a course of inputs is one way of doing
things with it. -/
theorem books_in_order (host : Host) (options : SessionOptions) :
    (∀ ops, (performAll host (start options) ops).InOrder host) ∧
      ∀ inputs, ∃ ops, (run host (start options) inputs).1 = performAll host (start options) ops := by
  refine ⟨fun ops => ?_, exists_performAll_run host (start options)⟩
  obtain ⟨hk, h⟩ := kept_tended_performAll host options ops
  exact h.inOrder host hk

def rung : List Operation :=
  [.openDocument ⟨"/p/a", "/p", "abc", false⟩, .change "/p/a" ⟨3, 0, some "d"⟩, .pass 1000,
    .ring ⟨"/p/a", 1, 1000⟩, .take ⟨"/p/a", 1, 1000⟩]

/-- The tick flushes the document, and when it is handed over again nothing happens. Nothing happens by a
change beyond the end either. -/
theorem books_in_order_rung :
    let host : Host := { owner := fun _ => "" }
    let s := performAll host (start {}) rung
    let s' := performAll host (start {}) (rung ++ [.handleTick ⟨"/p/a", 1, 1000⟩])
    (∃ e, s.editors.get? "/p/a" = some e ∧
        (s.handleTick ⟨"/p/a", 1, 1000⟩).result = some (flushEditor e).2.2) ∧
      s'.perform host (.handleTick ⟨"/p/a", 1, 1000⟩) = { session := s', result := false } ∧
      s'.perform host (.change "/p/a" ⟨5, 0, some "e"⟩) = { session := s', result := false } := by
  intro host s s'
  have hs : s.InOrder host := (books_in_order host {}).1 rung
  have hs' : s'.InOrder host := (books_in_order host {}).1 _
  have hclaim : (s.scheduler.claim "/p/a" 1).2 = true := by decide +kernel
  have hentry : s'.scheduler.current.get? "/p/a" = none := by decide +kernel
  have hcontents : (s'.editors.get? "/p/a").map (·.document.contents) = some "abcd" := by decide +kernel
  refine ⟨?_, hs'.untouched _ ((hs'.refused _).2 ?_), hs'.untouched _ ((hs'.refused _).2 ?_)⟩
  · obtain ⟨e, he, hflush⟩ := hs.flushed ⟨"/p/a", 1, 1000⟩ hclaim
    exact ⟨e, he, by rw [hflush]⟩
  · simp [Unfit, hentry]
  · intro e he hfits
    rw [he, Option.map_some] at hcontents
    rw [Edit.Fits, Option.some.inj hcontents] at hfits
    exact absurd hfits (by decide)

end Session
end EditSync
