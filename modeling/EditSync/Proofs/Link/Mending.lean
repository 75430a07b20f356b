import EditSync.Proofs.Link.Convergence
import EditSync.Proofs.Link.Dark

/-! How new documents, whose files cannot be read, stand to their copies. The server gets to know them by its
requests for their whole contents. A request names the location that a document had when its change was
sent; if the document is moved before the request comes, nobody answers, and the document has missed it. -/

namespace EditSync

open Service

namespace Link

variable (ends : Ends)

/-- The state after a history, of which the latest action comes first. -/
def after (past : List Action) : Link := past.foldr (fun a l => l.step ends a) (start ends)

def Dark (l : Link) : Action → Prop
  | .serve source => ∀ parcel ∈ l.toServer.head?, parcel.Unreadable source
  | _ => True

/-- The histories in which no file can be read and the server can tell the open documents apart at any
time. -/
inductive Unread : List Action → Prop
  | start : Unread []
  | step {past : List Action} (a : Action) (before : Unread past) (dark : (after ends past).Dark a)
      (apart : (after ends (a :: past)).session.Apart) : Unread (a :: past)

def sent (l : Link) : Action → List Message
  | .input i => messages (l.session.react ends.host i).2
  | _ => []

/-- Where the document of a location was before an action, if it was open. -/
def origin (l : Link) (a : Action) (location : String) : Option String :=
  if l.session.isOpen location then some location
  else match a with
    | .input (.host (.moved oldLocation newLocation)) =>
      if location = newLocation then some oldLocation else none
    | _ => none

def Spoke : List Action → String → Prop
  | [], _ => False
  | a :: past, location =>
    changesOf location ((after ends past).sent ends a) ≠ [] ∨
      ∃ before, (after ends past).origin a location = some before ∧ Spoke past before

def arrived (l : Link) : Registry × List Message :=
  l.toServer.foldl (hear ends.client) (l.service.registry, l.toClient)

/-- The copy of an open document is not synchronized, or will not be, and the document has not been asked
for. -/
def Awaits (l : Link) (location : String) : Prop :=
  (∃ c, (arrived ends l).1.find location = some c ∧ c.synchronized = false) ∧
    ∃ e, l.session.editors.get? location = some e ∧ e.reporter.needsResync = false

/-- The document of a location was moved while it was to be asked for under its old one, and since then it
has neither been asked for nor had its editor send a change. -/
def Missed : List Action → String → Prop
  | [], _ => False
  | a :: past, location =>
    (∃ e, (after ends (a :: past)).session.editors.get? location = some e ∧
        e.reporter.needsResync = false) ∧
      changesOf location ((after ends past).sent ends a) = [] ∧
      ∃ before, (after ends past).origin a location = some before ∧
        (Missed past before ∨ before ≠ location ∧ (after ends past).Awaits ends before)

/-- How a document stands to its copy, if it has one. -/
structure Mends (e : OpenEditor) (copy : Option WorkingCopy) (asked spoke missed : Prop) : Prop where
  spoken : spoke → ∃ c, copy = some c
  mirrored : ∀ c, copy = some c → c.synchronized = true → e.MirroredBy c
  lost : ∀ c, copy = some c → c.synchronized = false → e.reporter.needsResync = true ∨ asked ∨ missed
  missed : missed → e.reporter.needsResync = false ∧ ∃ c, copy = some c ∧ c.synchronized = false

theorem Mends.rest {e e' : OpenEditor} {copy : Option WorkingCopy}
    {asked asked' spoke spoke' missed missed' : Prop} (h : Mends e copy asked spoke missed)
    (hmirrored : ∀ c, e.MirroredBy c → e'.MirroredBy c)
    (hresync : e.reporter.needsResync = true → e'.reporter.needsResync = true)
    (hasked : asked → e'.reporter.needsResync = true ∨ asked') (hspoke : spoke' → spoke)
    (hmissed : missed' ↔ missed ∧ e'.reporter.needsResync = false) :
    Mends e' copy asked' spoke' missed' where
  spoken := fun hs => h.spoken (hspoke hs)
  mirrored := fun c hc hs => hmirrored c (h.mirrored c hc hs)
  lost := by
    intro c hc hs
    rcases h.lost c hc hs with hr | ha | hm
    · exact Or.inl (hresync hr)
    · exact (hasked ha).imp_right Or.inl
    · cases hr : e'.reporter.needsResync with
      | true => exact Or.inl rfl
      | false => exact Or.inr (Or.inr (hmissed.2 ⟨hm, hr⟩))
  missed := fun hm => ⟨(hmissed.1 hm).2, (h.missed (hmissed.1 hm).1).2⟩

/-- A document is moved, and its copy with it. If the copy is not synchronized, it is missed unless the document
was asked for already. -/
theorem Mends.moved {e e' : OpenEditor} {copy : Option WorkingCopy}
    {asked asked' spoke spoke' missed missed' : Prop} (h : Mends e copy asked spoke missed)
    {relocated : WorkingCopy → WorkingCopy}
    (hsame : ∀ c, (relocated c).synchronized = c.synchronized ∧ (relocated c).content = c.content)
    (hcapture : e'.capture = e.capture) (hcontents : e'.document.contents = e.document.contents)
    (hspoke : spoke' → spoke)
    (hmissed : missed' ↔ e'.reporter.needsResync = false ∧
      (missed ∨ ∃ c, copy = some c ∧ c.synchronized = false)) :
    Mends e' (copy.map relocated) asked' spoke' missed' where
  spoken := by
    intro hs
    obtain ⟨c, rfl⟩ := h.spoken (hspoke hs)
    exact ⟨_, rfl⟩
  mirrored := by
    intro c' hc' hs
    obtain ⟨c, hc, rfl⟩ := Option.map_eq_some_iff.1 hc'
    have hm := h.mirrored c hc ((hsame c).1.symm.trans hs)
    rw [OpenEditor.MirroredBy, (hsame c).2, hcapture, hcontents]
    exact ⟨hs, hm.2⟩
  lost := by
    intro c' hc' hs
    obtain ⟨c, hc, rfl⟩ := Option.map_eq_some_iff.1 hc'
    cases hr : e'.reporter.needsResync with
    | true => exact Or.inl rfl
    | false => exact Or.inr (Or.inr (hmissed.2 ⟨hr, Or.inr ⟨c, hc, (hsame c).1.symm.trans hs⟩⟩))
  missed := by
    intro hm
    obtain ⟨hr, hor⟩ := hmissed.1 hm
    obtain ⟨c, rfl, hs⟩ : ∃ c, copy = some c ∧ c.synchronized = false :=
      hor.elim (fun hm => (h.missed hm).2) id
    exact ⟨hr, _, rfl, (hsame c).1.trans hs⟩

/-- After a history every open document stands so to the copy that is to come of what is on its way, and there
are no other copies. -/
structure Mending (past : List Action) : Prop where
  kept : (after ends past).session.Kept
  apart : (after ends past).session.Apart
  tracked : ∀ k c, (arrived ends (after ends past)).1.copies.get? k = some c →
    ∃ location, (after ends past).session.isOpen location = true ∧ Path.clean location = k
  mends : ∀ location e, (after ends past).session.editors.get? location = some e →
    Mends e ((arrived ends (after ends past)).1.find location)
      (Asked location (arrived ends (after ends past)).2) (Spoke ends past location)
      (Missed ends past location)

variable {ends} {past : List Action}

/-- An action that has the document of a location send nothing. -/
theorem missed_cons {a : Action} {location before : String} {e' : OpenEditor}
    (he' : (after ends (a :: past)).session.editors.get? location = some e')
    (hsent : changesOf location ((after ends past).sent ends a) = [])
    (horigin : (after ends past).origin a location = some before) :
    (Spoke ends (a :: past) location ↔ Spoke ends past before) ∧
      (Missed ends (a :: past) location ↔ e'.reporter.needsResync = false ∧
        (Missed ends past before ∨ before ≠ location ∧ (after ends past).Awaits ends before)) := by
  have hspoke : Spoke ends (a :: past) location ↔
      changesOf location ((after ends past).sent ends a) ≠ [] ∨
        ∃ before, (after ends past).origin a location = some before ∧ Spoke ends past before := Iff.rfl
  have hmissed : Missed ends (a :: past) location ↔
      (∃ e, (after ends (a :: past)).session.editors.get? location = some e ∧
          e.reporter.needsResync = false) ∧
        changesOf location ((after ends past).sent ends a) = [] ∧
        ∃ before, (after ends past).origin a location = some before ∧
          (Missed ends past before ∨ before ≠ location ∧ (after ends past).Awaits ends before) := Iff.rfl
  constructor
  · rw [hspoke, hsent, horigin]
    simp
  · rw [hmissed, hsent, horigin, he']
    simp

theorem Spoke.later {a : Action} {location : String} (h : Spoke ends past location)
    (hopen : (after ends past).session.isOpen location = true) : Spoke ends (a :: past) location :=
  Or.inr ⟨location, if_pos hopen, h⟩

theorem Missed.earlier {a : Action} {location : String} (h : Missed ends (a :: past) location)
    (hopen : (after ends past).session.isOpen location = true) : Missed ends past location := by
  obtain ⟨-, -, before, hbefore, hor⟩ := h
  obtain rfl := Option.some.inj ((if_pos hopen).symm.trans hbefore)
  exact hor.resolve_right fun hne => hne.1 rfl

/-- Only moves make documents miss anything. -/
theorem not_missed_of_unmoved (h : ∀ oldLocation newLocation,
    .input (.host (.moved oldLocation newLocation)) ∉ past) (location : String) :
    ¬ Missed ends past location := by
  induction past with
  | nil => exact id
  | cons a past ih =>
    have hpast := ih fun oldLocation newLocation hm =>
      h oldLocation newLocation (List.mem_cons_of_mem _ hm)
    by_cases hopen : (after ends past).session.isOpen location = true
    · exact fun hmissed => hpast (hmissed.earlier hopen)
    · rintro ⟨-, -, before, hbefore, -⟩
      unfold origin at hbefore
      rw [if_neg hopen] at hbefore
      split at hbefore
      · next oldLocation newLocation => exact h oldLocation newLocation List.mem_cons_self
      · exact absurd hbefore (by simp)

/-- A location has no copy if no open document has its key. -/
theorem Mending.find_eq_none (h : Mending ends past) {location : String}
    (hfree : ∀ other, (after ends past).session.isOpen other = true → Path.clean other ≠ Path.clean location) :
    (arrived ends (after ends past)).1.find location = none := by
  rw [Option.eq_none_iff_forall_ne_some]
  intro c hc
  obtain ⟨other, ho, hkey⟩ := h.tracked _ c hc
  exact hfree other ho hkey

/-- If its copy stays, too, the document stands to it as before. -/
theorem Mending.mends_of_stays (h : Mending ends past) {a : Action} {location : String} {e e' : OpenEditor}
    (he : (after ends past).session.editors.get? location = some e)
    (he' : (after ends (a :: past)).session.editors.get? location = some e')
    (hsent : changesOf location ((after ends past).sent ends a) = [])
    (hfind : (arrived ends (after ends (a :: past))).1.find location =
      (arrived ends (after ends past)).1.find location)
    (hmirrored : ∀ c, e.MirroredBy c → e'.MirroredBy c)
    (hresync : e.reporter.needsResync = true → e'.reporter.needsResync = true)
    (hasked : Asked location (arrived ends (after ends past)).2 →
      e'.reporter.needsResync = true ∨ Asked location (arrived ends (after ends (a :: past))).2) :
    Mends e' ((arrived ends (after ends (a :: past))).1.find location)
      (Asked location (arrived ends (after ends (a :: past))).2) (Spoke ends (a :: past) location)
      (Missed ends (a :: past) location) := by
  have horigin : (after ends past).origin a location = some location := if_pos (Session.isOpen_of_get? he)
  obtain ⟨hspoke, hmissed⟩ := missed_cons he' hsent horigin
  rw [hfind]
  refine (h.mends location e he).rest hmirrored hresync hasked hspoke.1 ?_
  rw [hmissed]
  simp [and_comm]

/-- An action after which the same documents are open, and from which the server gets nothing. -/
theorem Mending.of_rest (h : Mending ends past) {a : Action}
    (hkept : (after ends (a :: past)).session.Kept) (hapart : (after ends (a :: past)).session.Apart)
    (hregistry : (arrived ends (after ends (a :: past))).1 = (arrived ends (after ends past)).1)
    (hsent : (after ends past).sent ends a = [])
    (hopen : ∀ location, (after ends past).session.isOpen location = true →
      (after ends (a :: past)).session.isOpen location = true)
    (heditors : ∀ location e', (after ends (a :: past)).session.editors.get? location = some e' →
      ∃ e, (after ends past).session.editors.get? location = some e ∧
        (∀ c, e.MirroredBy c → e'.MirroredBy c) ∧
        (e.reporter.needsResync = true → e'.reporter.needsResync = true) ∧
        (Asked location (arrived ends (after ends past)).2 → e'.reporter.needsResync = true ∨
          Asked location (arrived ends (after ends (a :: past))).2)) : Mending ends (a :: past) where
  kept := hkept
  apart := hapart
  tracked := by
    intro k c hk
    rw [hregistry] at hk
    obtain ⟨location, ho, hkey⟩ := h.tracked k c hk
    exact ⟨location, hopen location ho, hkey⟩
  mends := by
    intro location e' he'
    obtain ⟨e, he, hmirrored, hresync, hasked⟩ := heditors location e' he'
    exact h.mends_of_stays he he' (by rw [hsent]; rfl) (by rw [hregistry]) hmirrored hresync hasked

theorem mending_start : Mending ends [] where
  kept := fun k e he => absurd he (by simp [after, Link.start, Session.start])
  apart := fun k _ hk => absurd hk (by simp [after, Link.start, Session.start, Session.isOpen_eq])
  tracked := fun k c hk => absurd hk (by simp [arrived, after, Link.start])
  mends := fun location e he => absurd he (by simp [after, Link.start, Session.start])

/-- The session stays as it is and so do the copies that are to come, and there are only more messages for the
client. -/
structure Quiet (ends : Ends) (l l' : Link) : Prop where
  session : l'.session = l.session
  registry : (arrived ends l').1 = (arrived ends l).1
  messages : ∀ m ∈ (arrived ends l).2, m ∈ (arrived ends l').2

theorem Quiet.refl (ends : Ends) (l : Link) : Quiet ends l l := ⟨rfl, rfl, fun _ hm => hm⟩

theorem quiet_serve {l : Link} {source : Source} (hdark : l.Dark (.serve source)) :
    Quiet ends l (l.step ends (.serve source)) := by
  rw [step]
  split
  · exact .refl ends l
  · next p rest hto =>
    have hp : p.Unreadable source := hdark p (by rw [hto]; rfl)
    obtain ⟨hregistry, hsent⟩ := Registry.take_eq_heard ends.env hp (l.service, l.toClient)
    have hsame : ∀ x : Sending, x.1.registry = (l.service.registry.heard ends.client p.message).1 →
        x.2 = l.toClient ++ (l.service.registry.heard ends.client p.message).2 →
        arrived ends { l with service := x.1, toServer := rest, toClient := x.2 } = arrived ends l := by
      intro x hx hx'
      rw [arrived, arrived, hto, List.foldl_cons, hear]
      exact congrArg (rest.foldl (hear ends.client)) (Prod.ext hx hx')
    have harrived := hsame _ hregistry hsent
    exact ⟨rfl, congrArg Prod.fst harrived, fun m hm => harrived ▸ hm⟩

theorem quiet_begin (l : Link) (q : AnalysisRequest) : Quiet ends l (l.step ends (.begin q)) := by
  rw [step]
  split
  · rw [begin_eq]
    exact ⟨rfl, rfl, fun _ hm => hm⟩
  · exact .refl ends l

theorem quiet_complete (l : Link) (a : RunningAnalysis) : Quiet ends l (l.step ends (.complete a)) := by
  rw [step]
  split
  · have happend := foldl_hear_append ends.client l.toServer l.service.registry
    have hbefore := happend l.toClient []
    have hafter := happend (l.toClient ++ outcome ends.env l.service a) []
    rw [List.append_nil] at hbefore hafter
    refine ⟨rfl, ?_, ?_⟩
    · simp only [arrived, complete, hbefore, hafter]
    · simp only [arrived, complete, hbefore, hafter, List.mem_append]
      tauto
  · exact .refl ends l

theorem Mending.of_quiet (h : Mending ends past) {a : Action}
    (hquiet : Quiet ends (after ends past) (after ends (a :: past)))
    (hsent : (after ends past).sent ends a = []) : Mending ends (a :: past) := by
  have hsession := hquiet.session
  refine h.of_rest (hsession ▸ h.kept) (hsession ▸ h.apart) hquiet.registry hsent
    (fun location ho => hsession ▸ ho) ?_
  intro location e' he'
  rw [hsession] at he'
  exact ⟨e', he', fun _ hm => hm, id, fun hasked => Or.inr (hasked.mono hquiet.messages)⟩

/-- What a message from the server does to an editor: at most it asks for the content, which it does if it
is a request for it. -/
theorem received (s : Session) (sender : String) (m : Message) {location : String} {e' : OpenEditor}
    (he' : (s.handleInbound (m.envelope sender)).session.editors.get? location = some e') :
    ∃ e, s.editors.get? location = some e ∧ e'.document = e.document ∧ e'.capture = e.capture ∧
      (e.reporter.needsResync = true → e'.reporter.needsResync = true) ∧
      ∀ r, m.payload = .resync r → r.location = location → e'.reporter.needsResync = true := by
  obtain ⟨receiver, payload⟩ := m
  have hdecode : ∀ r, payload = .resync r →
      (Message.envelope ⟨receiver, payload⟩ sender).decode ResyncRequest.ofJson? = .ok r := by
    rintro r rfl
    simp only [Envelope.decode, Message.envelope, Payload.params, ResyncRequest.ofJson?_toJson]
  rcases (Session.handleInbound_cases s (Message.envelope ⟨receiver, payload⟩ sender)).2 with
    ⟨r, hmethod, hsess⟩ | ⟨r, -, hr, ho, hsess⟩ | ⟨hsess, hclosed⟩
  · rw [hsess, Table.get?_mapValues] at he'
    obtain ⟨e, he, rfl⟩ := Option.map_eq_some_iff.1 he'
    refine ⟨e, he, rfl, rfl, id, ?_⟩
    rintro r' rfl
    have hother : Method.resyncRequired ≠ Method.reconcileStateChanged := by decide
    exact absurd hmethod hother
  · rw [hsess, Session.get?_demandResync] at he'
    split at he'
    · next hl =>
      obtain ⟨e, he, rfl⟩ := Option.map_eq_some_iff.1 he'
      exact ⟨e, hl ▸ he, rfl, rfl, fun _ => rfl, fun _ _ _ => rfl⟩
    · next hl =>
      refine ⟨e', he', rfl, rfl, id, fun r' hr' hlocation => ?_⟩
      obtain rfl := Except.ok.inj (hr.symm.trans (hdecode r' hr'))
      exact absurd hlocation.symm hl
  · rw [hsess] at he'
    refine ⟨e', he', rfl, rfl, id, ?_⟩
    rintro r rfl rfl
    have hopen := hclosed r rfl (hdecode r rfl)
    exact absurd (hopen.symm.trans (Session.isOpen_of_get? he')) (by simp)

theorem Mending.receive (h : Mending ends past)
    (hapart : (after ends (.receive :: past)).session.Apart) : Mending ends (.receive :: past) := by
  cases hto : (after ends past).toClient with
  | nil =>
    have hstep : after ends (.receive :: past) = after ends past := by
      rw [after, List.foldr_cons, ← after, step, hto]
    exact h.of_quiet (hstep ▸ Quiet.refl ends _) rfl
  | cons m rest =>
    have hstep : after ends (.receive :: past) =
        { after ends past with
          session := ((after ends past).session.handleInbound (m.envelope ends.options.endpoint)).session
          toClient := rest } := by
      rw [after, List.foldr_cons, ← after, step, hto]
      dsimp only
      rw [input, Session.posted_inbound, List.append_nil]
      rfl
    have happend := foldl_hear_append ends.client (after ends past).toServer
      (after ends past).service.registry
    have hbefore := happend (m :: rest) []
    have hafter := happend rest []
    rw [List.append_nil] at hbefore hafter
    have harrived : arrived ends (after ends past) =
        ((arrived ends (after ends (.receive :: past))).1,
          m :: (arrived ends (after ends (.receive :: past))).2) := by
      rw [hstep, arrived, arrived, hto, hbefore]
      dsimp only
      rw [hafter]
      rfl
    have hsession := congrArg Link.session hstep
    refine h.of_rest ?_ hapart (by rw [harrived]) rfl ?_ ?_
    · rw [hsession]
      exact h.kept.of_texts (Session.texts_handleInbound _ _)
    · intro location ho
      rw [hsession]
      exact (Session.isOpen_of_texts (Session.texts_handleInbound _ _) location).trans ho
    · intro location e' he'
      rw [hsession] at he'
      obtain ⟨e, he, hdoc, hcap, hresync, hasked⟩ := received _ _ _ he'
      refine ⟨e, he, fun c hc => ?_, hresync, ?_⟩
      · rw [OpenEditor.MirroredBy, hdoc, hcap]
        exact hc
      · rw [harrived]
        rintro ⟨n, hn, r, hr, hlocation⟩
        rcases List.mem_cons.1 hn with rfl | hn
        · exact Or.inl (hasked r hr hlocation)
        · exact Or.inr ⟨n, hn, r, hr, hlocation⟩

section Input

variable {i : Session.Input} {s' : Session} {ms : List Message} (h : Mending ends past)
  (hsession : (after ends (.input i :: past)).session = s') (hkept' : s'.Kept) (hapart' : s'.Apart)
  (hsent : (after ends past).sent ends (.input i) = ms)
  (harrived : arrived ends (after ends (.input i :: past)) =
    (ms.map fun m => (⟨m, i.opening⟩ : Parcel)).foldl (hear ends.client) (arrived ends (after ends past)))

include h hsession hkept' hapart' hsent harrived

/-- Inputs from which the server gets nothing leave the documents where they are. -/
theorem Mending.input_of_rest (hms : ms = [])
    (hopen : ∀ location, (after ends past).session.isOpen location = true → s'.isOpen location = true)
    (heditors : ∀ location e', s'.editors.get? location = some e' →
      ∃ e, (after ends past).session.editors.get? location = some e ∧
        (∀ c, e.MirroredBy c → e'.MirroredBy c) ∧
        (e.reporter.needsResync = true → e'.reporter.needsResync = true)) :
    Mending ends (.input i :: past) := by
  rw [hms] at hsent harrived
  refine h.of_rest (hsession ▸ hkept') (hsession ▸ hapart') (by rw [harrived]; rfl) hsent
    (by rw [hsession]; exact hopen) ?_
  intro location e' he'
  rw [hsession] at he'
  obtain ⟨e, he, hmirrored, hresync⟩ := heditors location e' he'
  exact ⟨e, he, hmirrored, hresync, fun hasked => Or.inr (by rw [harrived]; exact hasked)⟩

theorem Mending.input_of_map (hms : ms = []) {f : String → OpenEditor → OpenEditor}
    (editors : ∀ k, s'.editors.get? k = ((after ends past).session.editors.get? k).map (f k))
    (hf : ∀ k e, (∀ c, e.MirroredBy c → (f k e).MirroredBy c) ∧
      (e.reporter.needsResync = true → (f k e).reporter.needsResync = true)) :
    Mending ends (.input i :: past) := by
  refine h.input_of_rest hsession hkept' hapart' hsent harrived hms (fun location ho => ?_)
    fun location e' he' => ?_
  · rw [Session.isOpen_eq, editors, Option.isSome_map]
    exact ho
  · rw [editors] at he'
    obtain ⟨e, he, rfl⟩ := Option.map_eq_some_iff.1 he'
    exact ⟨e, he, hf location e⟩

theorem Mending.input_of_set (hms : ms = []) {location : String} {e₀ e₁ : OpenEditor}
    (found : (after ends past).session.editors.get? location = some e₀)
    (editors : ∀ k, s'.editors.get? k =
      if k = location then some e₁ else (after ends past).session.editors.get? k)
    (hmirrored : ∀ c, e₀.MirroredBy c → e₁.MirroredBy c)
    (hresync : e₀.reporter.needsResync = true → e₁.reporter.needsResync = true) :
    Mending ends (.input i :: past) := by
  refine h.input_of_rest hsession hkept' hapart' hsent harrived hms (Session.isOpen_set editors).2
    fun k e' he' => ?_
  rw [editors] at he'
  split at he'
  · next hk =>
    obtain rfl := Option.some.inj he'
    exact ⟨e₀, hk ▸ found, hmirrored, hresync⟩
  · exact ⟨e', he', fun _ hm => hm, id⟩

theorem Mending.input_opened {doc : Document} (input : i = .host (.opened doc))
    (closed : (after ends past).session.isOpen doc.location = false)
    (editors : ∀ k, s'.editors.get? k = if k = doc.location then
      some (.opened ends.host (after ends past).session doc) else (after ends past).session.editors.get? k)
    (hms : ms = [(OpenEditor.opened ends.host (after ends past).session doc).reporter.started doc]) :
    Mending ends (.input i :: past) := by
  obtain ⟨hopen, hstays⟩ := Session.isOpen_set editors
  have hsame : arrived ends (after ends (.input i :: past)) = arrived ends (after ends past) := by
    rw [harrived, hms, List.map_cons, List.map_nil, List.foldl_cons, List.foldl_nil, hear]
    dsimp only [Reporter.started, Reporter.operation, Reporter.message]
    rw [Registry.heard_start _ rfl, List.append_nil]
  refine ⟨hsession ▸ hkept', hsession ▸ hapart', fun k c hk => ?_, fun location e' he' => ?_⟩
  · rw [hsame] at hk
    obtain ⟨location, ho, hkey⟩ := h.tracked k c hk
    exact ⟨location, hsession ▸ hstays location ho, hkey⟩
  · by_cases hl : location = doc.location
    · -- the server has no copy of it, and nothing was told to it
      have hnone : (arrived ends (after ends past)).1.find location = none := by
        refine h.find_eq_none fun other ho hkey => ?_
        obtain rfl := hapart' other location (hstays other ho) (hl ▸ hopen) hkey
        exact absurd ((hl ▸ closed).symm.trans ho) (by simp)
      have horigin : (after ends past).origin (.input i) location = none := by
        simp [origin, hl, closed, input]
      have hspoke : ¬ Spoke ends (.input i :: past) location := by
        rintro (hchanges | ⟨before, hbefore, -⟩)
        · rw [hsent, hms] at hchanges
          exact hchanges rfl
        · exact absurd (horigin.symm.trans hbefore) (by simp)
      have hmissed : ¬ Missed ends (.input i :: past) location := by
        rintro ⟨-, -, before, hbefore, -⟩
        exact absurd (horigin.symm.trans hbefore) (by simp)
      rw [hsame, hnone]
      exact ⟨fun hs => absurd hs hspoke, fun c hc => absurd hc (by simp), fun c hc => absurd hc (by simp),
        fun hm => absurd hm hmissed⟩
    · have he : (after ends past).session.editors.get? location = some e' := by
        rw [hsession, editors, if_neg hl] at he'
        exact he'
      exact h.mends_of_stays he he' (by rw [hsent, hms]; rfl) (by rw [hsame]) (fun _ hm => hm) id
        fun hasked => Or.inr (by rw [hsame]; exact hasked)

theorem Mending.input_closed {closing : String} {e₀ : OpenEditor}
    (found : (after ends past).session.editors.get? closing = some e₀)
    (editors : ∀ k, s'.editors.get? k =
      if k = closing then none else (after ends past).session.editors.get? k)
    (hms : ms = [e₀.reporter.stopped closing]) : Mending ends (.input i :: past) := by
  have hstopped : arrived ends (after ends (.input i :: past)) =
      (((arrived ends (after ends past)).1.stop closing).1, (arrived ends (after ends past)).2) := by
    rw [harrived, hms, List.map_cons, List.map_nil, List.foldl_cons, List.foldl_nil, hear]
    dsimp only [Reporter.stopped, Reporter.operation, Reporter.message]
    rw [Registry.heard_stop _ rfl, List.append_nil]
  refine ⟨hsession ▸ hkept', hsession ▸ hapart', fun k c hk => ?_, fun location e' he' => ?_⟩
  · rw [hstopped, Registry.get?_stop] at hk
    split at hk
    · exact absurd hk (by simp)
    · next hne =>
      obtain ⟨location, ho, hkey⟩ := h.tracked k c hk
      have hl : location ≠ closing := fun hl => hne (by rw [← hkey, hl])
      refine ⟨location, ?_, hkey⟩
      rw [hsession, Session.isOpen_eq, editors, if_neg hl]
      exact ho
  · rw [hsession, editors] at he'
    split at he'
    · exact absurd he' (by simp)
    · next hl =>
      have hkey := h.apart.clean_ne (Session.isOpen_of_get? he') (Session.isOpen_of_get? found) hl
      refine h.mends_of_stays he' (by rw [hsession, editors, if_neg hl]; exact he') (by rw [hsent, hms]; rfl)
        ?_ (fun _ hm => hm) id fun hasked => Or.inr (by rw [hstopped]; exact hasked)
      rw [hstopped, Registry.find_eq, Registry.get?_stop, if_neg hkey]
      rfl

/-- A flush that has anything to send leaves the server with the document, or asking for it. -/
theorem Mending.input_flushed {flushing : String} {e₀ : OpenEditor}
    (found : (after ends past).session.editors.get? flushing = some e₀)
    (editors : ∀ k, s'.editors.get? k = if k = flushing then some (Session.flushEditor e₀).1
      else (after ends past).session.editors.get? k)
    (hms : ms = e₀.unsent.map fun c => e₀.reporter.message (.change c)) (hunsent : e₀.unsent ≠ []) :
    Mending ends (.input i :: past) := by
  have hkept := h.kept flushing e₀ found
  obtain ⟨hopen, hstays⟩ := Session.isOpen_set editors
  have hm := h.mends flushing e₀ found
  obtain ⟨hend, hothers, hkeep⟩ := hear_unsent ends.client (x := arrived ends (after ends past)) hkept i.opening
    hm.mirrored hunsent
  rw [hms, List.map_map] at harrived
  have hchanges : changesOf flushing ((after ends past).sent ends (.input i)) = e₀.unsent := by
    rw [hsent, hms, Session.changesOf_unsent, if_pos hkept.location]
  have hnone : ∀ location, location ≠ flushing →
      changesOf location ((after ends past).sent ends (.input i)) = [] := by
    intro location hl
    rw [hsent, hms, Session.changesOf_unsent, if_neg (by rw [hkept.location]; exact Ne.symm hl)]
  simp only [Function.comp_def] at harrived
  rw [← harrived] at hend hothers hkeep
  refine ⟨hsession ▸ hkept', hsession ▸ hapart', fun k c hk => ?_, fun location e' he' => ?_⟩
  · by_cases hkey : k = Path.clean flushing
    · exact ⟨flushing, hsession ▸ hopen, hkey.symm⟩
    · rw [hothers k hkey] at hk
      obtain ⟨location, ho, hlocation⟩ := h.tracked k c hk
      exact ⟨location, hsession ▸ hstays location ho, hlocation⟩
  · rw [hsession, editors] at he'
    split at he'
    · next hl =>
      subst hl
      obtain rfl := Option.some.inj he'
      have hmissed : ¬ Missed ends (.input i :: past) location := fun hmissed =>
        hunsent (hchanges.symm.trans hmissed.2.1)
      refine ⟨fun _ => ?_, fun c hc hs => ⟨hs, ?_⟩, fun c hc hs => ?_, fun hm => absurd hm hmissed⟩
      · rcases hend with ⟨c, hc, -⟩ | ⟨⟨c, hc, -⟩, -⟩ <;> exact ⟨c, hc⟩
      · rcases hend with ⟨c', hc', -, hcontent⟩ | ⟨⟨c', hc', hlost⟩, -⟩
        · obtain rfl := Option.some.inj (hc.symm.trans hc')
          have hflushed := Session.flushed_flushEditor e₀
          rw [hflushed.queue, hflushed.contents, ← hcontent, Text.Delta.applyAll_nil]
        · obtain rfl := Option.some.inj (hc.symm.trans hc')
          exact absurd (hs.symm.trans hlost) (by simp)
      · rcases hend with ⟨c', hc', hsync, -⟩ | ⟨-, hasked⟩
        · obtain rfl := Option.some.inj (hc.symm.trans hc')
          exact absurd (hs.symm.trans hsync) (by simp)
        · exact Or.inr (Or.inl hasked)
    · next hl =>
      have hkey := h.apart.clean_ne (Session.isOpen_of_get? he') (Session.isOpen_of_get? found) hl
      exact h.mends_of_stays he' (by rw [hsession, editors, if_neg hl]; exact he') (hnone location hl)
        (hothers _ hkey) (fun _ hm => hm) id fun hasked => Or.inr (hasked.mono hkeep)

/-- A copy goes with its document, if there is one. What the document was to be asked under its old
location it misses. -/
theorem Mending.input_moved {oldLocation newLocation : String} {e₀ : OpenEditor}
    (input : i = .host (.moved oldLocation newLocation))
    (free : (after ends past).session.isOpen newLocation = false)
    (moves : Session.Moves (after ends past).session s' oldLocation newLocation e₀)
    (hms : ms = [e₀.reporter.moved oldLocation (e₀.relocated newLocation).document]) :
    Mending ends (.input i :: past) := by
  have hold : (after ends past).session.isOpen oldLocation = true := Session.isOpen_of_get? moves.found
  -- no open document has the key of the new location, except perhaps this one
  have hfree : Path.clean oldLocation ≠ Path.clean newLocation →
      (arrived ends (after ends past)).1.find newLocation = none := by
    refine fun hother => h.find_eq_none fun other ho hkey => ?_
    have hne : other ≠ oldLocation := fun heq => hother (heq ▸ hkey)
    obtain rfl := hapart' other newLocation (moves.isOpen_other ho hne) moves.isOpen_new hkey
    exact absurd (free.symm.trans ho) (by simp)
  obtain ⟨r', relocated, hheard, hrelocated, hnew, hothers⟩ :=
    Registry.heard_move ends.client (arrived ends (after ends past)).1 e₀.reporter.endpoint
      (o := { FileOperation.moved oldLocation newLocation with project := some e₀.document.project })
      rfl rfl hfree
  have hmoved : arrived ends (after ends (.input i :: past)) =
      (r', (arrived ends (after ends past)).2) := by
    rw [harrived, hms, List.map_cons, List.map_nil, List.foldl_cons, List.foldl_nil, hear]
    dsimp only [Reporter.moved, Reporter.operation, Reporter.message, OpenEditor.relocated]
    rw [hheard, List.append_nil]
  refine ⟨hsession ▸ hkept', hsession ▸ hapart', fun k c hk => ?_, fun location e' he' => ?_⟩
  · by_cases hkey : k = Path.clean newLocation
    · exact ⟨newLocation, hsession ▸ moves.isOpen_new, hkey.symm⟩
    · rw [hmoved, hothers k hkey] at hk
      split at hk
      · exact absurd hk (by simp)
      · next hne =>
        obtain ⟨location, ho, hlocation⟩ := h.tracked k c hk
        have hl : location ≠ oldLocation := fun hl => hne (by rw [← hlocation, hl])
        exact ⟨location, hsession ▸ moves.isOpen_other ho hl, hlocation⟩
  · have hnone : changesOf location ((after ends past).sent ends (.input i)) = [] := by
      rw [hsent, hms]
      rfl
    by_cases hl : location = newLocation
    · subst hl
      have hne : oldLocation ≠ location := by
        rintro rfl
        exact absurd (free.symm.trans hold) (by simp)
      have horigin : (after ends past).origin (.input i) location = some oldLocation := by
        simp [origin, free, input]
      obtain ⟨hspoke, hmissed⟩ := missed_cons he' hnone horigin
      rw [hsession] at he'
      have heditor := moves.editor_new he'
      have hreporter : e'.reporter = e₀.reporter := by rw [heditor]; rfl
      rw [hmoved, show r'.find location = _ from hnew]
      refine (h.mends oldLocation e₀ moves.found).moved hrelocated (by rw [heditor]; rfl)
        (by rw [heditor]; rfl) hspoke.1 ?_
      rw [hmissed]
      exact and_congr_right fun hresync => or_congr_right
        ⟨fun hawaits => hawaits.2.1, fun hlost => ⟨hne, hlost, e₀, moves.found, hreporter ▸ hresync⟩⟩
    · rw [hsession] at he'
      obtain ⟨hl', he⟩ := moves.editor_other hl he'
      have hkey := hapart'.clean_ne (Session.isOpen_of_get? he') moves.isOpen_new hl
      have hkey' := h.apart.clean_ne (Session.isOpen_of_get? he) hold hl'
      refine h.mends_of_stays he (hsession ▸ he') hnone ?_ (fun _ hm => hm) id
        fun hasked => Or.inr (by rw [hmoved]; exact hasked)
      rw [hmoved, Registry.find_eq, hothers _ hkey, if_neg hkey']
      rfl

end Input

theorem Mending.input (h : Mending ends past) (i : Session.Input)
    (hapart : (after ends (.input i :: past)).session.Apart) : Mending ends (.input i :: past) := by
  have hreacted := Session.reacted ends.host (after ends past).session i
  have hkept : (after ends (.input i :: past)).session.Kept := Session.kept_react ends.host h.kept i
  have harrived : arrived ends (after ends (.input i :: past)) =
      ((messages ((after ends past).session.react ends.host i).2).map fun m =>
        (⟨m, i.opening⟩ : Parcel)).foldl (hear ends.client) (arrived ends (after ends past)) :=
    List.foldl_append
  have hsession : (after ends (.input i :: past)).session =
      ((after ends past).session.react ends.host i).1 := rfl
  have hsent : (after ends past).sent ends (.input i) =
      messages ((after ends past).session.react ends.host i).2 := rfl
  generalize ((after ends past).session.react ends.host i).1 = s' at hreacted hsession
  generalize messages ((after ends past).session.react ends.host i).2 = ms at hreacted harrived hsent
  rw [hsession] at hkept hapart
  cases hreacted with
  | rested autoSave editors =>
    exact h.input_of_map hsession hkept hapart hsent harrived rfl editors fun k e => ⟨fun _ hm => hm, id⟩
  | shown r input editors =>
    exact h.input_of_map hsession hkept hapart hsent harrived rfl editors fun k e => ⟨fun _ hm => hm, id⟩
  | asked l input editors =>
    refine h.input_of_map hsession hkept hapart hsent harrived rfl
      (f := fun k e => if k = l then { e with reporter := e.reporter.requestResync } else e) (fun k => ?_)
      fun k e => ?_
    · rw [editors]
      split
      · next hk => simp [hk]
      · simp
    · split
      · exact ⟨fun _ hm => hm, fun _ => rfl⟩
      · exact ⟨fun _ hm => hm, id⟩
  | told state editors =>
    refine h.input_of_map hsession hkept hapart hsent harrived rfl (f := fun _ => Session.told state) editors
      fun k e => ?_
    cases state with
    | inProgress => exact ⟨fun _ hm => hm, id⟩
    | resolved => exact ⟨fun _ hm => hm, fun _ => rfl⟩
  | opened doc input closed editors =>
    exact h.input_opened hsession hkept hapart hsent harrived input closed editors rfl
  | changed l e edit document found fits editors =>
    refine h.input_of_set hsession hkept hapart hsent harrived rfl found editors (fun c hc => ⟨hc.1, ?_⟩) id
    rw [OpenEditor.edited, (Session.queue_onChange (h.kept l e found).installed edit).1,
      Text.Delta.applyAll_append _ hc.2]
    exact (Session.change_eq_ok fits).2
  | closed l e found editors =>
    exact h.input_closed hsession hkept hapart hsent harrived found editors rfl
  | moved oldLocation newLocation e input free moves =>
    exact h.input_moved hsession hkept hapart hsent harrived input free moves rfl
  | flushed l e found editors =>
    by_cases hunsent : e.unsent = []
    · obtain ⟨hqueue, hresync⟩ := OpenEditor.unsent_eq_nil.1 hunsent
      refine h.input_of_set hsession hkept hapart hsent harrived (by rw [hunsent]; rfl) found editors
        (fun c hc => ⟨hc.1, ?_⟩) fun hr => absurd (hr.symm.trans hresync) (by simp)
      rw [(Session.flushed_flushEditor e).queue, (Session.flushed_flushEditor e).contents, ← hqueue]
      exact hc.2
    · exact h.input_flushed hsession hkept hapart hsent harrived found editors rfl hunsent

theorem Unread.mending (h : Unread ends past) : Mending ends past := by
  induction h with
  | start => exact mending_start
  | step a _ dark apart ih =>
    cases a with
    | input i => exact ih.input i apart
    | serve source => exact ih.of_quiet (quiet_serve dark) rfl
    | begin q => exact ih.of_quiet (quiet_begin _ q) rfl
    | complete a => exact ih.of_quiet (quiet_complete _ a) rfl
    | receive => exact ih.receive apart

end Link
end EditSync
