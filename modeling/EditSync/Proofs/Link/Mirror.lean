import EditSync.Proofs.Editor.Texts
import EditSync.Proofs.Link.Serving

/-! The working copies of a server mirror the open documents of a session: with the deltas that are still
queued, each gives the contents of its document, and no other file is tracked. Whatever happens to the
session, the messages that it sends make the copies mirror it again. -/

namespace EditSync

open Text Service

def OpenEditor.MirroredBy (e : OpenEditor) (c : WorkingCopy) : Prop :=
  c.synchronized = true ∧
    Delta.applyAll c.content e.capture.queue.deltas = .ok e.document.contents

def Session.Input.opening : Session.Input → Option String
  | .host (.opened doc) => some doc.contents
  | _ => none

namespace Session

/-- The server tells all open documents apart. -/
def Apart (s : Session) : Prop :=
  ∀ k l, s.isOpen k = true → s.isOpen l = true → Path.clean k = Path.clean l → k = l

theorem Apart.clean_ne {s : Session} (h : s.Apart) {k l : String} (hk : s.isOpen k = true)
    (hl : s.isOpen l = true) (hne : k ≠ l) : Path.clean k ≠ Path.clean l :=
  fun hkey => hne (h k l hk hl hkey)

structure Mirrored (s : Session) (r : Registry) : Prop where
  copies : ∀ l e, s.editors.get? l = some e → ∃ c, r.find l = some c ∧ e.MirroredBy c
  tracked : ∀ k c, r.copies.get? k = some c → ∃ l, s.isOpen l = true ∧ Path.clean l = k

def posted (host : Host) (s : Session) (i : Input) : List Parcel :=
  (messages (s.react host i).2).map fun m => ⟨m, i.opening⟩

theorem Mirrored.of_texts {s s' : Session} {r : Registry} (hm : s.Mirrored r)
    (h : s'.texts = s.texts) : s'.Mirrored r := by
  constructor
  · intro l e' he'
    obtain ⟨e, he, hdoc, hcap⟩ := exists_of_texts h he'
    obtain ⟨c, hf, hsync, happly⟩ := hm.copies l e he
    exact ⟨c, hf, hsync, by rw [hdoc, hcap]; exact happly⟩
  · intro k c hk
    obtain ⟨l, ho, hl⟩ := hm.tracked k c hk
    exact ⟨l, by rw [isOpen_of_texts h]; exact ho, hl⟩

def Holds (location contents : String) (before r : Registry) : Prop :=
  r.Shows location contents ∧ ∀ k, k ≠ Path.clean location → r.copies.get? k = before.copies.get? k

variable {env : Setting} {client : String}

theorem delivers_deltas {location contents : String} (receiver project owner : String) (ds : List Delta)
    (hcanonical : ∀ d ∈ ds, d.Canonical) {before r : Registry} {c : WorkingCopy}
    (hf : r.find location = some c) (hs : c.synchronized = true)
    (happly : Delta.applyAll c.content ds = .ok contents)
    (hothers : ∀ k, k ≠ Path.clean location → r.copies.get? k = before.copies.get? k) :
    Delivers env client (Holds location contents before)
      (ds.map fun d => ⟨⟨receiver, .change (.ofDelta d location project owner)⟩, none⟩) r := by
  induction ds generalizing r c with
  | nil => exact ⟨⟨c, hf, hs, Except.ok.inj happly⟩, hothers⟩
  | cons d ds ih =>
    intro source _
    obtain ⟨next, hd, hrest⟩ := Delta.applyAll_cons_eq_ok happly
    obtain ⟨r', c', htakes, hget, hs', hcontent⟩ :=
      takes_delta env client source hf hs (hcanonical d List.mem_cons_self) hd receiver project owner
    refine ⟨r', htakes, ih (fun d hd => hcanonical d (List.mem_cons_of_mem _ hd)) ?_ hs' ?_ ?_⟩
    · rw [Registry.find_eq, hget, if_pos rfl]
    · rw [hcontent]; exact hrest
    · intro k hk
      rw [hget, if_neg hk]
      exact hothers k hk

/-- What a flush of an editor sends makes the copy of its document the document. -/
theorem delivers_unsent {location : String} {e : OpenEditor} {r : Registry} {c : WorkingCopy}
    (hk : e.Kept location) (hf : r.find location = some c) (hm : e.MirroredBy c) :
    Delivers env client (Holds location e.document.contents r)
      (e.unsent.map fun change => ⟨e.reporter.message (.change change), none⟩) r := by
  rw [OpenEditor.unsent, hk.location]
  cases e.reporter.needsResync with
  | true =>
    intro source _
    obtain ⟨r', c', htakes, hget, hs', hcontent⟩ :=
      takes_content env client source r e.reporter.endpoint e.document.contents location
        e.document.project e.reporter.owner
    refine ⟨r', htakes, ⟨c', ?_, hs', hcontent⟩, fun k hne => ?_⟩
    · rw [Registry.find_eq, hget, if_pos rfl]
    · rw [hget, if_neg hne]
  | false =>
    simp only [Bool.false_eq_true, if_false, List.map_map]
    exact delivers_deltas e.reporter.endpoint e.document.project e.reporter.owner _ hk.canonical hf hm.1
      hm.2 fun k _ => rfl

/-- Only the copy of one location has to be looked at if that of every other is as it was. -/
theorem Mirrored.update {s s' : Session} {r r' : Registry} (hm : s.Mirrored r) (location : String)
    (hothers : ∀ l e, l ≠ location → s'.editors.get? l = some e →
      s.editors.get? l = some e ∧ r'.find l = r.find l)
    (hown : ∀ e, s'.editors.get? location = some e →
      ∃ c, r'.find location = some c ∧ e.MirroredBy c)
    (htracked : ∀ k c, r'.copies.get? k = some c →
      (k = Path.clean location ∧ s'.isOpen location = true) ∨
        (∃ c', r.copies.get? k = some c') ∧
          ∀ l, s.isOpen l = true → Path.clean l = k → s'.isOpen l = true) : s'.Mirrored r' := by
  constructor
  · intro l e he
    by_cases hl : l = location
    · rw [hl] at he ⊢
      exact hown e he
    · obtain ⟨he', hfind⟩ := hothers l e hl he
      rw [hfind]
      exact hm.copies l e he'
  · intro k c hk
    rcases htracked k c hk with ⟨rfl, ho⟩ | ⟨⟨c', hk'⟩, hstays⟩
    · exact ⟨location, ho, rfl⟩
    · obtain ⟨l, hl, hkey⟩ := hm.tracked k c' hk'
      exact ⟨l, hstays l hl hkey, hkey⟩

theorem posted_of_effects (host : Host) (s : Session) (i : Input) (h : (s.react host i).2 = []) :
    s.posted host i = [] := by
  rw [posted, h]
  rfl

theorem posted_inbound (host : Host) (s : Session) (e : Envelope) : s.posted host (.inbound e) = [] :=
  posted_of_effects host s (.inbound e) (handleInbound_cases s e).1

variable {s : Session} {r : Registry} (hkept : s.Kept) (hapart : s.Apart) (hm : s.Mirrored r)

include hm in
/-- A document that is opened has no copy yet: it would be of an open document with the same key. -/
theorem find_eq_none_of_opened {s' : Session} {location : String} {e : OpenEditor}
    (hclosed : s.isOpen location = false) (hapart' : s'.Apart)
    (hget : ∀ k, s'.editors.get? k = if k = location then some e else s.editors.get? k) :
    r.find location = none := by
  obtain ⟨hopen, hstays⟩ := isOpen_set hget
  rw [Option.eq_none_iff_forall_ne_some]
  intro c hc
  obtain ⟨l, hl, hkey⟩ := hm.tracked _ c hc
  obtain rfl := hapart' l location (hstays l hl) hopen hkey
  exact absurd (hclosed.symm.trans hl) (by simp)

include hm in
theorem mirrored_opened (host : Host) (doc : Document)
    (hapart' : (s.react host (.host (.opened doc))).1.Apart) :
    Delivers env client (s.react host (.host (.opened doc))).1.Mirrored
      (s.posted host (.host (.opened doc))) r := by
  rcases openDocument_cases host s doc with ⟨-, hsess, heff⟩ | ⟨hclosed, hget, -, hsent⟩
  · rw [posted_of_effects host s (.host (.opened doc)) heff]
    simp only [react, handleEvent, hsess]
    exact hm
  · have hposted : s.posted host (.host (.opened doc)) =
        [⟨(OpenEditor.opened host s doc).reporter.started doc, some doc.contents⟩] := by
      rw [posted, react, handleEvent, hsent]
      rfl
    rw [hposted]
    generalize hs' : (s.react host (.host (.opened doc))).1 = s' at hapart' ⊢
    have hget' : ∀ k, s'.editors.get? k =
        if k = doc.location then some (.opened host s doc) else s.editors.get? k := by
      rw [← hs']
      exact hget
    obtain ⟨hopen, hstays⟩ := isOpen_set hget'
    intro source hreads
    have hsource := hreads _ doc.contents rfl rfl rfl
    obtain ⟨r', htakes, hcopies⟩ := takes_start env client source s.options.endpoint
      (o := { action := .start, path := doc.location, project := some doc.project }) rfl
      (find_eq_none_of_opened hm hclosed hapart' hget') hsource
    refine ⟨r', htakes, hm.update doc.location ?_ ?_ ?_⟩
    · intro l e hne he
      rw [hget', if_neg hne] at he
      refine ⟨he, ?_⟩
      rw [Registry.find_eq, hcopies, if_neg]
      · rfl
      · exact hapart'.clean_ne (hstays l (isOpen_of_get? he)) hopen hne
    · intro e he
      rw [hget', if_pos rfl] at he
      obtain rfl := Option.some.inj he
      refine ⟨.started doc.location (some doc.project) doc.contents, ?_, rfl, rfl⟩
      rw [Registry.find_eq, hcopies, if_pos rfl]
    · intro k c hk
      rw [hcopies] at hk
      split at hk
      · next hkey => exact Or.inl ⟨hkey, hopen⟩
      · exact Or.inr ⟨⟨c, hk⟩, fun l hl _ => hstays l hl⟩

include hkept hm in
theorem mirrored_changed (host : Host) (location : String) (edit : Edit) :
    Delivers env client (s.react host (.host (.changed location edit))).1.Mirrored
      (s.posted host (.host (.changed location edit))) r := by
  obtain ⟨heff, hcases⟩ := change_cases s location edit
  rw [posted_of_effects host s (.host (.changed location edit)) heff]
  rcases hcases with ⟨hsess, -⟩ | ⟨e, document, he, hc, hget, -⟩
  · simp only [react, handleEvent, hsess]
    exact hm
  · refine hm.update location ?_ ?_ ?_
    · intro l e' hne he'
      simp only [react, handleEvent, hget, if_neg hne] at he'
      exact ⟨he', rfl⟩
    · intro e' he'
      simp only [react, handleEvent, hget, if_pos] at he'
      obtain rfl := Option.some.inj he'
      obtain ⟨c, hf, hsync, happly⟩ := hm.copies location e he
      refine ⟨c, hf, hsync, ?_⟩
      have hqueue := (queue_onChange (hkept location e he).installed edit).1
      rw [OpenEditor.edited, hqueue, Delta.applyAll_append _ happly]
      exact (change_eq_ok hc).2
    · exact fun k c hk => Or.inr ⟨⟨c, hk⟩, fun l hl _ => (isOpen_set hget).2 l hl⟩

include hapart hm in
theorem mirrored_closed (host : Host) (location : String) :
    Delivers env client (s.react host (.host (.closed location))).1.Mirrored
      (s.posted host (.host (.closed location))) r := by
  rcases close_cases s location with ⟨-, hsess, heff⟩ | ⟨e, he, hget, -, hsent⟩
  · rw [posted_of_effects host s (.host (.closed location)) heff]
    simp only [react, handleEvent, hsess]
    exact hm
  · have hposted : s.posted host (.host (.closed location)) =
        [⟨e.reporter.stopped location, none⟩] := by
      rw [posted, react, handleEvent, hsent]
      rfl
    rw [hposted]
    intro source _
    refine ⟨_, takes_stop env client source r e.reporter.endpoint
      (o := { action := .stop, path := location }) rfl, hm.update location ?_ ?_ ?_⟩
    · intro l e' hne he'
      simp only [react, handleEvent, hget, if_neg hne] at he'
      refine ⟨he', ?_⟩
      rw [Registry.find_eq, Registry.get?_stop, if_neg]
      · rfl
      · exact hapart.clean_ne (isOpen_of_get? he') (isOpen_of_get? he) hne
    · intro e' he'
      simp only [react, handleEvent, hget, if_pos] at he'
      exact absurd he' (by simp)
    · intro k c hk
      rw [Registry.get?_stop] at hk
      split at hk
      · exact absurd hk (by simp)
      · next hkey =>
        refine Or.inr ⟨⟨c, hk⟩, fun l hl hclean => ?_⟩
        have hne : l ≠ location := fun h => hkey (by rw [← hclean, h])
        simp only [react, handleEvent, isOpen_eq, hget, if_neg hne]
        exact hl

namespace Moves

variable {s' : Session} {oldLocation newLocation : String} {e : OpenEditor}
  (h : Moves s s' oldLocation newLocation e)

include h

include hm in
/-- Both spellings mean one key, so the copy is found under either. -/
theorem mirrored_of_same_key (hsame : Path.clean oldLocation = Path.clean newLocation) :
    s'.Mirrored r := by
  obtain ⟨c, hf, hby⟩ := hm.copies oldLocation e h.found
  refine hm.update newLocation (fun l e' hne he' => ⟨(h.editor_other hne he').2, rfl⟩) ?_ ?_
  · intro e' he'
    rw [h.editor_new he']
    refine ⟨c, ?_, hby⟩
    rw [Registry.find_eq, ← hsame]
    exact hf
  · intro k c' hk
    by_cases hkey : k = Path.clean newLocation
    · exact Or.inl ⟨hkey, h.isOpen_new⟩
    · refine Or.inr ⟨⟨c', hk⟩, fun l hl hclean => h.isOpen_other hl fun hold => hkey ?_⟩
      rw [← hclean, hold, hsame]

include hapart hm in
/-- The copy goes with the document. No other document loses its copy by that. -/
theorem mirrored_of_other_key {r' : Registry} {c : WorkingCopy} {project : Option String}
    (hapart' : s'.Apart) (hf : r.find oldLocation = some c)
    (hcopies : ∀ k, r'.copies.get? k =
      if k = Path.clean newLocation then some (c.relocated newLocation project)
      else if k = Path.clean oldLocation then none else r.copies.get? k) : s'.Mirrored r' := by
  have holdOpen : s.isOpen oldLocation = true := isOpen_of_get? h.found
  refine hm.update newLocation ?_ ?_ ?_
  · intro l e' hne he'
    obtain ⟨hold, hl⟩ := h.editor_other hne he'
    refine ⟨hl, ?_⟩
    rw [Registry.find_eq, hcopies, if_neg, if_neg]
    · rfl
    · exact hapart.clean_ne (isOpen_of_get? hl) holdOpen hold
    · exact hapart'.clean_ne (isOpen_of_get? he') h.isOpen_new hne
  · intro e' he'
    obtain ⟨c', hf', hby⟩ := hm.copies oldLocation e h.found
    obtain rfl := Option.some.inj (hf.symm.trans hf')
    rw [h.editor_new he']
    refine ⟨c.relocated newLocation project, ?_, hby⟩
    rw [Registry.find_eq, hcopies, if_pos rfl]
  · intro k c' hk
    rw [hcopies] at hk
    split at hk
    · next hkey => exact Or.inl ⟨hkey, h.isOpen_new⟩
    · split at hk
      · exact absurd hk (by simp)
      · next hold =>
        refine Or.inr ⟨⟨c', hk⟩, fun l hl hclean => h.isOpen_other hl fun heq => hold ?_⟩
        rw [← hclean, heq]

end Moves

include hapart hm in
theorem mirrored_moved (host : Host) (oldLocation newLocation : String)
    (hapart' : (s.react host (.host (.moved oldLocation newLocation))).1.Apart) :
    Delivers env client (s.react host (.host (.moved oldLocation newLocation))).1.Mirrored
      (s.posted host (.host (.moved oldLocation newLocation))) r := by
  rcases move_cases s oldLocation newLocation with ⟨hsess, heff, -⟩ | ⟨e, -, hmoves, -, hsent⟩
  · rw [posted_of_effects host s (.host (.moved oldLocation newLocation)) heff]
    simp only [react, handleEvent, hsess]
    exact hm
  · have hposted : s.posted host (.host (.moved oldLocation newLocation)) =
        [⟨e.reporter.moved oldLocation (e.relocated newLocation).document, none⟩] := by
      rw [posted, react, handleEvent, hsent]
      rfl
    rw [hposted]
    obtain ⟨c, hf, -⟩ := hm.copies oldLocation e hmoves.found
    intro source _
    obtain ⟨r', htakes, hcopies⟩ := takes_move env client source e.reporter.endpoint
      (o := { FileOperation.moved oldLocation newLocation with project := some e.document.project })
      rfl rfl hf
    refine ⟨r', htakes, ?_⟩
    rcases hcopies with ⟨hsame, rfl⟩ | ⟨-, hcopies⟩
    · exact hmoves.mirrored_of_same_key hm hsame
    · exact hmoves.mirrored_of_other_key hapart hm hapart' hf hcopies

include hkept hapart hm in
/-- What a flush sends makes the copy of its document the document, and the queue is empty. -/
theorem mirrored_flushed {s' : Session} {location : String} {e : OpenEditor}
    (he : s.editors.get? location = some e)
    (hget : ∀ k, s'.editors.get? k =
      if k = location then some (flushEditor e).1 else s.editors.get? k) :
    Delivers env client s'.Mirrored
      (e.unsent.map fun change => ⟨e.reporter.message (.change change), none⟩) r := by
  obtain ⟨c, hf, hby⟩ := hm.copies location e he
  refine (delivers_unsent (hkept location e he) hf hby).mono ?_
  rintro r' ⟨⟨c', hf', hsync', hcontent'⟩, hothers⟩
  refine hm.update location ?_ ?_ ?_
  · intro l e' hne he'
    rw [hget, if_neg hne] at he'
    refine ⟨he', ?_⟩
    rw [Registry.find_eq, hothers]
    · rfl
    · exact hapart.clean_ne (isOpen_of_get? he') (isOpen_of_get? he) hne
  · intro e' he'
    rw [hget, if_pos rfl] at he'
    obtain rfl := Option.some.inj he'
    refine ⟨c', hf', hsync', ?_⟩
    rw [(flushed_flushEditor e).queue, Delta.applyAll_nil, hcontent', (flushed_flushEditor e).contents]
  · intro k c'' hk
    by_cases hkey : k = Path.clean location
    · exact Or.inl ⟨hkey, (isOpen_set hget).1⟩
    · rw [hothers k hkey] at hk
      exact Or.inr ⟨⟨c'', hk⟩, fun l hl _ => (isOpen_set hget).2 l hl⟩

include hkept hapart hm in
theorem mirrored_tick (host : Host) (t : Tick) :
    Delivers env client (s.react host (.tick t)).1.Mirrored (s.posted host (.tick t)) r := by
  by_cases ht : t ∈ s.scheduler.posted
  · rcases (deliver_of_mem ht).2 with ⟨heditors, heff, -⟩ | ⟨e, -, he, hget, hsent⟩
    · rw [posted_of_effects host s (.tick t) heff]
      refine hm.of_texts (funext fun l => ?_)
      rw [react, texts, heditors]
      rfl
    · rw [posted, react, hsent, List.map_map]
      exact mirrored_flushed hkept hapart hm he hget
  · rw [posted, react, deliver_of_notMem ht]
    exact hm

include hkept hapart hm in
theorem mirrored_react (host : Host) (i : Input) (hapart' : (s.react host i).1.Apart) :
    Delivers env client (s.react host i).1.Mirrored (s.posted host i) r := by
  cases i with
  | host event =>
    cases event with
    | opened doc => exact mirrored_opened hm host doc hapart'
    | changed location edit => exact mirrored_changed hkept hm host location edit
    | closed location => exact mirrored_closed hapart hm host location
    | moved oldLocation newLocation => exact mirrored_moved hapart hm host oldLocation newLocation hapart'
    | resolving state => exact hm.of_texts (texts_onResolving s state)
  | inbound e =>
    rw [posted_inbound]
    exact hm.of_texts (texts_handleInbound s e)
  | saving location set => exact hm.of_texts (texts_setSaving s location set)
  | pass ms => exact hm.of_texts rfl
  | ring t => exact hm.of_texts rfl
  | tick t => exact mirrored_tick hkept hapart hm host t

end Session
end EditSync
