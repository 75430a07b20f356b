import EditSync.Proofs.Link.Convergence
import EditSync.Proofs.Link.Orderly

/-! What the editors show. Each change, and each start and move of a document, leads to an analysis
whose result comes back, unless a later one is under way. So when nothing is, every editor shows what the
engine finds in its document. -/

namespace EditSync

open Service

/-- What the editor of a location shows is to be renewed, or it had nothing to send and shows what it did. -/
def OpenEditor.Renewed (location : String) (ps : List Parcel) (e e' : OpenEditor) : Prop :=
  e'.unsent ≠ [] ∨ e'.display.resolving = some .inProgress ∨
    (∃ p ∈ ps, p.asks (Path.clean location) = true) ∨ e.unsent = [] ∧ e'.display = e.display

theorem OpenEditor.Renewed.of_eq {location : String} {ps : List Parcel} {e e' : OpenEditor}
    (hunsent : e'.unsent = e.unsent) (hdisplay : e'.display = e.display) : Renewed location ps e e' := by
  by_cases hnone : e.unsent = []
  · exact Or.inr (Or.inr (Or.inr ⟨hnone, hdisplay⟩))
  · exact Or.inl (hunsent ▸ hnone)

/-- Whatever a flush sends asks for an analysis. -/
theorem OpenEditor.Kept.renewed_flush {location : String} {e : OpenEditor} (h : e.Kept location)
    (opening : Option String) :
    Renewed location ((e.unsent.map fun c => e.reporter.message (.change c)).map fun m => ⟨m, opening⟩) e
      (Session.flushEditor e).1 := by
  cases hunsent : e.unsent with
  | nil => exact Or.inr (Or.inr (Or.inr ⟨hunsent, (Session.flushed_flushEditor e).display⟩))
  | cons c cs =>
    have hc : c.location = location :=
      (OpenEditor.location_of_mem_unsent (hunsent ▸ List.mem_cons_self)).trans h.location
    exact Or.inr (Or.inr (Or.inl ⟨_, List.mem_cons_self, by simp [Parcel.asks, Reporter.message, hc]⟩))

theorem Parcel.not_rekeys_operation {reporter : Reporter} {o : FileOperation} {key : String}
    (opening : Option String) (h : o.touches key = false) :
    ∀ p ∈ [reporter.operation o].map fun m => (⟨m, opening⟩ : Parcel), p.rekeys key = false := by
  intro p hp
  obtain rfl := List.mem_singleton.1 hp
  exact h

/-- An open document is either new at its location, and its file is started there or moved there, or
nothing is sent that gives its key another copy. Then what its editor shows stays, or is to be renewed. -/
theorem Session.carried (host : Host) {s : Session} (hkept : s.Kept) (hapart : s.Apart) (i : Session.Input)
    (hapart' : (s.react host i).1.Apart) (hhost : ∀ envelope, i ≠ .inbound envelope) (location : String)
    (e' : OpenEditor) (he' : (s.react host i).1.editors.get? location = some e') :
    (∃ p, s.posted host i = [p] ∧ p.Places location) ∨
      ∃ e, s.editors.get? location = some e ∧
        (∀ p ∈ s.posted host i, p.rekeys (Path.clean location) = false) ∧
        e.Renewed location (s.posted host i) e' := by
  have hreacted := Session.reacted host s i
  rw [Session.posted]
  generalize (s.react host i).1 = s' at hapart' he' hreacted
  generalize messages (s.react host i).2 = ms at hreacted ⊢
  have hopen' := Session.isOpen_of_get? he'
  have hsilent : ∀ p ∈ ([] : List Message).map fun m => (⟨m, i.opening⟩ : Parcel),
      p.rekeys (Path.clean location) = false := fun p hp => absurd hp List.not_mem_nil
  cases hreacted with
  | rested autoSave editors =>
    rw [editors] at he'
    obtain ⟨e, he, rfl⟩ := Option.map_eq_some_iff.1 he'
    exact Or.inr ⟨e, he, hsilent, .of_eq rfl rfl⟩
  | shown r input editors =>
    obtain ⟨envelope, rfl⟩ := input
    exact absurd rfl (hhost envelope)
  | asked l input editors =>
    obtain ⟨envelope, rfl⟩ := input
    exact absurd rfl (hhost envelope)
  | told state editors =>
    rw [editors] at he'
    obtain ⟨e, he, rfl⟩ := Option.map_eq_some_iff.1 he'
    refine Or.inr ⟨e, he, hsilent, ?_⟩
    cases state with
    | inProgress => exact Or.inr (Or.inl rfl)
    | resolved => exact Or.inl (List.cons_ne_nil _ _)
  | opened doc input closed editors =>
    by_cases hl : location = doc.location
    · subst hl
      exact Or.inl ⟨_, rfl, _, rfl, rfl, rfl⟩
    · have hother := hapart'.clean_ne hopen' (Session.isOpen_set editors).1 hl
      rw [editors, if_neg hl] at he'
      refine Or.inr ⟨e', he', Parcel.not_rekeys_operation _ ?_, .of_eq rfl rfl⟩
      simp [FileOperation.touches, Ne.symm hother]
  | changed l e edit document found fits editors =>
    rw [editors] at he'
    split at he'
    · next hl =>
      obtain rfl := Option.some.inj he'
      refine Or.inr ⟨e, hl ▸ found, hsilent, Or.inl ?_⟩
      exact OpenEditor.unsent_edited_ne_nil (hkept l e found).installed document edit
    · exact Or.inr ⟨e', he', hsilent, .of_eq rfl rfl⟩
  | closed l e found editors =>
    rw [editors] at he'
    split at he'
    · exact absurd he' (by simp)
    · next hl =>
      have hother := hapart.clean_ne (Session.isOpen_of_get? he') (Session.isOpen_of_get? found) hl
      refine Or.inr ⟨e', he', Parcel.not_rekeys_operation _ ?_, .of_eq rfl rfl⟩
      simp [FileOperation.touches, Ne.symm hother]
  | moved oldLocation newLocation e input free moves =>
    by_cases hl : location = newLocation
    · subst hl
      exact Or.inl ⟨_, rfl, _, rfl, rfl, rfl⟩
    · obtain ⟨hold, he⟩ := moves.editor_other hl he'
      have hnew := hapart'.clean_ne hopen' moves.isOpen_new hl
      have hother := hapart.clean_ne (Session.isOpen_of_get? he) (Session.isOpen_of_get? moves.found) hold
      refine Or.inr ⟨e', he, Parcel.not_rekeys_operation _ ?_, .of_eq rfl rfl⟩
      simp [FileOperation.touches, FileOperation.moved, OpenEditor.relocated, Ne.symm hnew, Ne.symm hother]
  | flushed l e found editors =>
    have hrekeys : ∀ p ∈ (e.unsent.map fun c => e.reporter.message (.change c)).map
        fun m => (⟨m, i.opening⟩ : Parcel), p.rekeys (Path.clean location) = false := by
      simp [Parcel.rekeys, Reporter.message]
    rw [editors] at he'
    split at he'
    · next hl =>
      subst hl
      obtain rfl := Option.some.inj he'
      exact Or.inr ⟨e, found, hrekeys, (hkept location e found).renewed_flush i.opening⟩
    · exact Or.inr ⟨e', he', hrekeys, .of_eq rfl rfl⟩

namespace Service

variable {env : Setting} {client : String}

/-- A parcel on the way to the server touches a key if its copy may be another after it or changes. -/
theorem get?_of_takes {source : Source} {p : Parcel} {r r' : Registry} {k : String} (hfits : p.Fits r)
    (htakes : Takes env client source r p.message r') (hasks : p.asks k = false)
    (hrekeys : p.rekeys k = false) : r'.copies.get? k = r.copies.get? k := by
  have hr' := (htakes ({ registry := r }, []) rfl).1
  have hfile : ∀ (receiver : String) (o : FileOperation), p.message = ⟨receiver, .file o⟩ →
      r'.copies.get? k = r.copies.get? k := by
    intro receiver o hp
    rw [Parcel.rekeys, hp] at hrekeys
    rw [hp, take_file] at hr'
    rw [← hr']
    exact get?_onFileOperation_of_not_touches _ _ client hrekeys
  cases hfits with
  | change receiver c opening copy found =>
    have hne : k ≠ Path.clean c.location := by
      rintro rfl
      simp [Parcel.asks] at hasks
    rw [take_change, registry_onChange] at hr'
    rw [← hr', Registry.get?_apply, if_neg hne]
  | start receiver o contents action free => exact hfile receiver o rfl
  | stop receiver o opening action => exact hfile receiver o rfl
  | move receiver o opening oldPath copy action old other found => exact hfile receiver o rfl

theorem Parcel.exists_reads (p : Parcel) : ∃ source, p.Reads source := by
  refine ⟨fun _ => .ok (p.opening.getD ""), fun o contents _ _ hopening => ?_⟩
  rw [hopening]
  rfl

/-- What holds of all copies in the end holds now of those that nothing on the way touches. -/
theorem Delivers.exists_of_untouched {goal : Registry → Prop} {ps : List Parcel} {r : Registry} {k : String}
    (h : Delivers env client goal ps r) (horderly : Orderly env client ps r)
    (hnone : ∀ p ∈ ps, p.asks k = false ∧ p.rekeys k = false) :
    ∃ r', goal r' ∧ r'.copies.get? k = r.copies.get? k := by
  induction ps generalizing r with
  | nil => exact ⟨r, h, rfl⟩
  | cons p rest ih =>
    obtain ⟨source, hreads⟩ := Parcel.exists_reads p
    obtain ⟨r', htakes, hrest⟩ := h source hreads
    obtain ⟨hasks, hrekeys⟩ := hnone p List.mem_cons_self
    obtain ⟨final, hgoal, hfinal⟩ := ih hrest (horderly.2 source r' hreads htakes)
      fun q hq => hnone q (List.mem_cons_of_mem _ hq)
    exact ⟨final, hgoal, hfinal.trans (get?_of_takes horderly.1 htakes hasks hrekeys)⟩

end Service

namespace Link

variable {ends : Ends} {l : Link}

/-- The copy of a location is the one that its editor had started or moved there, or will be. -/
inductive Placed (location : String) (ps : List Parcel) (r : Registry) : Prop
  | coming (before : List Parcel) (p : Parcel) (after : List Parcel) (split : ps = before ++ p :: after)
      (places : p.Places location) (last : ∀ q ∈ after, q.rekeys (Path.clean location) = false)
  | standing (none : ∀ q ∈ ps, q.rekeys (Path.clean location) = false)
      (here : ∀ c, r.find location = some c → c.location = location)

theorem Placed.append {location : String} {ps qs : List Parcel} {r : Registry} (h : Placed location ps r)
    (hqs : ∀ q ∈ qs, q.rekeys (Path.clean location) = false) : Placed location (ps ++ qs) r := by
  cases h with
  | coming before p after split places last =>
    refine .coming before p (after ++ qs) (by rw [split]; simp) places fun q hq => ?_
    exact (List.mem_append.1 hq).elim (last q) (hqs q)
  | standing none here =>
    exact .standing (fun q hq => (List.mem_append.1 hq).elim (none q) (hqs q)) here

theorem Placed.served {location : String} {p : Parcel} {rest : List Parcel} {s s' : Service}
    (h : Placed location (p :: rest) s.registry) (hserved : Served p s s') :
    Placed location rest s'.registry := by
  cases h with
  | coming before p' after split places last =>
    cases before with
    | nil =>
      obtain ⟨rfl, rfl⟩ := List.cons.inj split
      refine .standing last fun c hc => ?_
      rcases hserved.copies _ c hc with ⟨hrekeys, -⟩ | ⟨other, hplaces, -, hlocation⟩
      · exact absurd (hrekeys.symm.trans places.rekeys) (by simp)
      · rw [hlocation]
        exact hplaces.unique places
    | cons q before =>
      obtain ⟨rfl, rfl⟩ := List.cons.inj split
      exact .coming before p' after rfl places last
  | standing none here =>
    refine .standing (fun q hq => none q (List.mem_cons_of_mem _ hq)) fun c' hc' => ?_
    rcases hserved.copies _ c' hc' with ⟨-, c, hc, hlocation⟩ | ⟨other, hplaces, hkey, -⟩
    · exact hlocation.trans (here c hc)
    · have hrekeys := hplaces.rekeys
      rw [hkey] at hrekeys
      exact absurd ((none p List.mem_cons_self).symm.trans hrekeys) (by simp)

/-- If no analysis is asked for, the copy stays the one that it is. -/
theorem Placed.untouched {location : String} {ps : List Parcel} {r : Registry} (h : Placed location ps r)
    (hasks : ∀ p ∈ ps, p.asks (Path.clean location) = false) :
    (∀ p ∈ ps, p.rekeys (Path.clean location) = false) ∧
      ∀ c, r.find location = some c → c.location = location := by
  cases h with
  | coming before p after split places last =>
    have hp : p ∈ ps := by rw [split]; simp
    exact absurd ((hasks p hp).symm.trans places.asks) (by simp)
  | standing none here => exact ⟨none, here⟩

def Names (location : String) (m : Message) : Prop :=
  ∃ r, m.payload = .result r ∧ r.owner = location

/-- The last of all analyses of a location that run, are on their way or are shown is of its copy as it
is now. -/
inductive Latest (env : Setting) (location : String) (copy : WorkingCopy) (shown : Display)
    (running : List RunningAnalysis) (toClient : List Message) : Prop
  | runs (before : List RunningAnalysis) (a : RunningAnalysis) (after : List RunningAnalysis)
      (split : running = before ++ a :: after) (key : a.key = Path.clean location)
      (last : ∀ b ∈ after, b.key ≠ Path.clean location) (content : a.copy.content = copy.content)
      (revision : a.copy.revision = copy.revision) (spelled : a.copy.location = location)
  | comes (idle : ∀ b ∈ running, b.key ≠ Path.clean location) (before : List Message)
      (receiver : String) (analysis : Analysis) (after : List Message)
      (split : toClient = before ++ ⟨receiver, .result ⟨analysis, location⟩⟩ :: after)
      (last : ∀ m ∈ after, ¬ Names location m)
      (engine : env.engine (Path.clean location) copy.content = .ok analysis)
  | arrived (idle : ∀ b ∈ running, b.key ≠ Path.clean location)
      (last : ∀ m ∈ toClient, ¬ Names location m) (analysis : Analysis)
      (engine : env.engine (Path.clean location) copy.content = .ok analysis)
      (analysed : shown.shown = analysis) (state : shown.state = .active (Severity.worst analysis.problems))

section Latest

variable {env : Setting} {location : String} {copy : WorkingCopy} {shown : Display}
  {running : List RunningAnalysis} {toClient : List Message}

theorem Latest.begin_other (h : Latest env location copy shown running toClient) {a : Option RunningAnalysis}
    (ha : ∀ b ∈ a, b.key ≠ Path.clean location) :
    Latest env location copy shown (running ++ a.toList) toClient := by
  have hnew : ∀ b ∈ a.toList, b.key ≠ Path.clean location := fun b hb => ha b (Option.mem_toList.1 hb)
  cases h with
  | runs before b after split key last content revision spelled =>
    refine .runs before b (after ++ a.toList) (by rw [split]; simp) key (fun c hc => ?_) content revision spelled
    exact (List.mem_append.1 hc).elim (last c) (hnew c)
  | comes idle before receiver analysis after split last engine =>
    exact .comes (fun c hc => (List.mem_append.1 hc).elim (idle c) (hnew c)) before receiver analysis after
      split last engine
  | arrived idle last analysis engine analysed state =>
    exact .arrived (fun c hc => (List.mem_append.1 hc).elim (idle c) (hnew c)) last analysis engine analysed
      state

/-- An analysis of another key says nothing of the location. -/
theorem Latest.complete_other (h : Latest env location copy shown running toClient) {a : RunningAnalysis}
    (ha : a.key ≠ Path.clean location) {ms : List Message} (hms : ∀ m ∈ ms, ¬ Names location m) :
    Latest env location copy shown (running.erase a) (toClient ++ ms) := by
  have hidle : (∀ b ∈ running, b.key ≠ Path.clean location) →
      ∀ b ∈ running.erase a, b.key ≠ Path.clean location := fun h b hb => h b (List.mem_of_mem_erase hb)
  cases h with
  | runs before b after split key last content revision spelled =>
    have hne : (b == a) = false := by
      rw [beq_eq_false_iff_ne]
      rintro rfl
      exact ha key
    by_cases hmem : a ∈ before
    · refine .runs (before.erase a) b after ?_ key last content revision spelled
      rw [split, List.erase_append_left _ hmem]
    · refine .runs before b (after.erase a) ?_ key (fun c hc => last c (List.mem_of_mem_erase hc)) content
        revision spelled
      rw [split, List.erase_append_right _ hmem, List.erase_cons, hne]
      rfl
  | comes idle before receiver analysis after split last engine =>
    refine .comes (hidle idle) before receiver analysis (after ++ ms) (by rw [split]; simp) (fun m hm => ?_)
      engine
    exact (List.mem_append.1 hm).elim (last m) (hms m)
  | arrived idle last analysis engine analysed state =>
    exact .arrived (hidle idle) (fun m hm => (List.mem_append.1 hm).elim (last m) (hms m)) analysis engine
      analysed state

/-- The first of the analyses of a key is completed. If it is the last, too, its result is of the copy as
it is. -/
theorem Latest.complete_first (h : Latest env location copy shown running toClient) {a : RunningAnalysis}
    (hfirst : running.find? (fun b => b.key = Path.clean location) = some a) {ms : List Message}
    (hms : a.copy.content = copy.content → a.copy.revision = copy.revision → a.copy.location = location →
      ∃ receiver analysis, env.engine (Path.clean location) copy.content = .ok analysis ∧
        ms = [⟨receiver, .result ⟨analysis, location⟩⟩]) :
    Latest env location copy shown (running.erase a) (toClient ++ ms) := by
  have hidle : ¬ ∀ b ∈ running, b.key ≠ Path.clean location := fun h =>
    h a (List.mem_of_find?_eq_some hfirst) (by simpa using List.find?_some hfirst)
  cases h with
  | runs before b after split key last content revision spelled =>
    by_cases hmem : a ∈ before
    · refine .runs (before.erase a) b after ?_ key last content revision spelled
      rw [split, List.erase_append_left _ hmem]
    · -- nothing of the key stands before `b`, so the first one is `b`
      have hbefore : before.find? (fun c => c.key = Path.clean location) = none := by
        rw [Option.eq_none_iff_forall_ne_some]
        intro c hc
        rw [split, List.find?_append, hc] at hfirst
        obtain rfl := Option.some.inj hfirst
        exact hmem (List.mem_of_find?_eq_some hc)
      rw [split, List.find?_append, hbefore, Option.none_or,
        List.find?_cons_of_pos (by simpa using key)] at hfirst
      obtain rfl := Option.some.inj hfirst
      obtain ⟨receiver, analysis, hengine, rfl⟩ := hms content revision spelled
      refine .comes (fun c hc => ?_) toClient receiver analysis [] rfl (fun m hm => absurd hm List.not_mem_nil)
        hengine
      rw [split, List.erase_append_right _ hmem, List.erase_cons_head] at hc
      refine (List.mem_append.1 hc).elim (fun hc => ?_) (last c)
      simpa using List.find?_eq_none.1 hbefore c hc
  | comes idle => exact absurd idle hidle
  | arrived idle => exact absurd idle hidle

/-- A result that the session takes is shown by the editor of its location. -/
theorem Latest.receive {r : ReconcileResult} {receiver : String}
    (h : Latest env location copy shown running (⟨receiver, .result r⟩ :: toClient))
    (hresolving : shown.resolving ≠ some .inProgress) :
    Latest env location copy (shown.route location r).1 running toClient := by
  cases h with
  | runs before b after split key last content revision spelled =>
    exact .runs before b after split key last content revision spelled
  | comes idle before receiver' analysis after split last engine =>
    cases before with
    | nil =>
      obtain ⟨hm, rfl⟩ := List.cons.inj split
      obtain rfl := Payload.result.inj (Message.mk.inj hm).2
      have hroute : (shown.route location ⟨analysis, location⟩).1 =
          { shown with state := .active (Severity.worst analysis.problems), shown := analysis } := by
        rw [Display.route, if_neg (fun h => h rfl), if_neg hresolving]
      rw [hroute]
      exact .arrived idle last analysis engine rfl rfl
    | cons m before =>
      obtain ⟨-, rfl⟩ := List.cons.inj split
      exact .comes idle before receiver' analysis after rfl last engine
  | arrived idle last analysis engine analysed state =>
    have howner : r.owner ≠ location := fun ho => last _ List.mem_cons_self ⟨r, rfl, ho⟩
    have hroute : (shown.route location r).1 = shown := by rw [Display.route, if_pos howner]
    rw [hroute]
    exact .arrived idle (fun m hm => last m (List.mem_cons_of_mem _ hm)) analysis engine analysed state

end Latest

/-- Why an editor shows the analysis of its document, or will. -/
inductive Due (ends : Ends) (l : Link) (location : String) (e : OpenEditor) : Prop
  | unsent (changes : e.unsent ≠ [])
  | resolving (news : e.display.resolving = some .inProgress)
  | coming (p : Parcel) (mem : p ∈ l.toServer) (asks : p.asks (Path.clean location) = true)
  | waits (q : AnalysisRequest) (mem : q ∈ l.service.waiting) (key : q.key = Path.clean location)
  | latest (copy : WorkingCopy) (found : l.service.registry.find location = some copy)
      (last : Latest ends.env location copy e.display l.service.running l.toClient)

structure Diagnosing (ends : Ends) (l : Link) : Prop where
  converging : Converging ends l
  sound : l.service.Sound
  orderly : Orderly ends.env ends.client l.toServer l.service.registry
  placed : ∀ location, l.session.isOpen location = true →
    Placed location l.toServer l.service.registry
  spelled : ∀ k c, l.service.registry.copies.get? k = some c → Path.clean c.location = k
  running : ∀ a ∈ l.service.running, Path.clean a.copy.location = a.key
  results : ∀ m ∈ l.toClient, ∃ r, m.payload = .result r
  due : ∀ location e, l.session.editors.get? location = some e → Due ends l location e

theorem diagnosing_start : Diagnosing ends (start ends) where
  converging := converging_start
  sound := Service.sound_start
  orderly := trivial
  placed := fun location ho => absurd ho (by simp [start, Session.start, Session.isOpen_eq])
  spelled := fun k c hk => absurd hk (by simp [start])
  running := fun a ha => absurd ha List.not_mem_nil
  results := fun m hm => absurd hm List.not_mem_nil
  due := fun location e he => absurd he (by simp [start, Session.start])

theorem diagnosing_input (h : Diagnosing ends l) (i : Session.Input) (hhost : ∀ envelope, i ≠ .inbound envelope)
    (haway : l.session.MovesAway i) (hapart : (l.input ends i).session.Apart) :
    Diagnosing ends (l.input ends i) := by
  have hcarried := Session.carried ends.host h.converging.kept h.converging.apart i hapart hhost
  refine ⟨converging_input h.converging i hapart, h.sound, ?_, ?_, h.spelled, h.running, h.results, ?_⟩
  · exact h.orderly.append h.converging.delivers fun r hm =>
      Session.orderly_posted ends.host h.converging.kept hm i hapart haway
  · intro location hopen
    obtain ⟨e', he'⟩ := Option.isSome_iff_exists.1 hopen
    rcases hcarried location e' he' with ⟨p, hp, hplaces⟩ | ⟨e, he, hrekeys, -⟩
    · exact .coming l.toServer p [] (by rw [input, hp]) hplaces fun q hq => absurd hq List.not_mem_nil
    · exact (h.placed location (Session.isOpen_of_get? he)).append hrekeys
  · intro location e' he'
    rcases hcarried location e' he' with ⟨p, hp, hplaces⟩ | ⟨e, he, -, hstirred⟩
    · exact .coming p (by rw [input, hp]; simp) hplaces.asks
    · rcases hstirred with hunsent | hresolving | ⟨p, hp, hasks⟩ | ⟨hnone, hdisplay⟩
      · exact .unsent hunsent
      · exact .resolving hresolving
      · exact .coming p (List.mem_append_right _ hp) hasks
      · cases h.due location e he with
        | unsent changes => exact absurd hnone changes
        | resolving news => exact .resolving (hdisplay ▸ news)
        | coming p mem asks => exact .coming p (List.mem_append_left _ mem) asks
        | waits q mem key => exact .waits q mem key
        | latest copy found last => exact .latest copy found (hdisplay ▸ last)

theorem diagnosing_serve (ha : ends.env.analyses = true) (h : Diagnosing ends l) (source : Source)
    (hreads : l.Reads (.serve source)) : Diagnosing ends (l.step ends (.serve source)) := by
  have hconverging := converging_serve h.converging source hreads
  rw [step] at hconverging ⊢
  split
  · exact h
  · next p rest hto =>
    rw [hto] at hconverging
    have hp : p.Reads source := hreads p (by rw [hto]; rfl)
    have hdelivers := h.converging.delivers
    have horderly := h.orderly
    rw [hto] at hdelivers horderly
    obtain ⟨r', htakes, -⟩ := hdelivers source hp
    obtain ⟨hregistry, hsent⟩ := htakes (l.service, l.toClient) rfl
    have hserved := served_take (x := (l.service, l.toClient)) h.sound ha horderly.1 hp hsent
    have hplaced : ∀ location, l.session.isOpen location = true →
        Placed location (p :: rest) l.service.registry := fun location ho => hto ▸ h.placed location ho
    refine ⟨hconverging, hserved.sound, ?_, fun location ho => (hplaced location ho).served hserved, ?_, ?_,
      ?_, ?_⟩
    · dsimp only
      rw [hregistry]
      exact horderly.2 source r' hp htakes
    · intro k c' hc'
      rcases hserved.copies k c' hc' with ⟨-, c, hc, hlocation⟩ | ⟨other, -, hkey, hlocation⟩
      · rw [hlocation]
        exact h.spelled k c hc
      · rw [hlocation]
        exact hkey
    · dsimp only
      rw [hserved.running]
      exact h.running
    · dsimp only
      rw [hsent]
      exact h.results
    · intro location e he
      cases hasks : p.asks (Path.clean location) with
      | true =>
        obtain ⟨q, hq, hkey⟩ := hserved.asked _ hasks
        exact .waits q hq hkey
      | false =>
        by_cases hcoming : ∃ p ∈ rest, p.asks (Path.clean location) = true
        · obtain ⟨p', hp', hasks'⟩ := hcoming
          exact .coming p' hp' hasks'
        · have hnone : ∀ q ∈ p :: rest, q.asks (Path.clean location) = false := by
            intro q hq
            rcases List.mem_cons.1 hq with rfl | hq
            · exact hasks
            · simpa using fun hq' => hcoming ⟨q, hq, hq'⟩
          have hrekeys := ((hplaced location (Session.isOpen_of_get? he)).untouched hnone).1
          cases h.due location e he with
          | unsent changes => exact .unsent changes
          | resolving news => exact .resolving news
          | coming p' mem asks =>
            exact absurd ((hnone p' (hto ▸ mem)).symm.trans asks) (by simp)
          | waits q mem key => exact .waits q (hserved.waiting q mem) key
          | latest copy found last =>
            refine .latest copy ?_ ?_
            · exact (hserved.others _ hasks (hrekeys p List.mem_cons_self)).trans found
            · dsimp only
              rw [hserved.running, hsent]
              exact last

/-- Unless an analysis is asked for, the copy of an open document is as it will be. -/
theorem Diagnosing.standing (h : Diagnosing ends l) {location : String} {e : OpenEditor}
    (he : l.session.editors.get? location = some e)
    (hnone : ∀ p ∈ l.toServer, p.asks (Path.clean location) = false) :
    ∃ c, l.service.registry.find location = some c ∧ e.MirroredBy c ∧ c.location = location := by
  obtain ⟨hrekeys, hhere⟩ := (h.placed location (Session.isOpen_of_get? he)).untouched hnone
  obtain ⟨r', hm, hsame⟩ := h.converging.delivers.exists_of_untouched h.orderly
    fun p hp => ⟨hnone p hp, hrekeys p hp⟩
  obtain ⟨c, hf, hby⟩ := hm.copies location e he
  have hfound : l.service.registry.find location = some c := hsame.symm.trans hf
  exact ⟨c, hfound, hby, hhere c hfound⟩

theorem diagnosing_begin (h : Diagnosing ends l) (q : AnalysisRequest) :
    Diagnosing ends (l.step ends (.begin q)) := by
  have hconverging := converging_step h.converging (.begin q) trivial (by
    rw [step]; split <;> exact h.converging.apart)
  rw [step] at hconverging ⊢
  split
  · next hq =>
    rw [if_pos hq] at hconverging
    have hclean : Path.clean q.key = q.key := h.sound.waiting q hq
    have hbegun : ∀ a ∈ l.service.begun q, a.key = q.key ∧ Path.clean a.copy.location = a.key := by
      intro a ha
      obtain ⟨copy, hf, -, rfl⟩ := begun_eq_some.1 ha
      exact ⟨rfl, (h.spelled _ copy hf).trans hclean⟩
    have hsound := h.sound.begin hq
    rw [begin_eq] at hconverging hsound ⊢
    refine ⟨hconverging, hsound, h.orderly, h.placed, h.spelled, ?_, h.results, ?_⟩
    · intro a ha
      rcases List.mem_append.1 ha with ha | ha
      · exact h.running a ha
      · exact (hbegun a (Option.mem_toList.1 ha)).2
    · intro location e he
      by_cases hcoming : ∃ p ∈ l.toServer, p.asks (Path.clean location) = true
      · obtain ⟨p, hp, hasks⟩ := hcoming
        exact .coming p hp hasks
      · obtain ⟨c, hf, hby, hlocation⟩ :=
          h.standing he fun p hp => by simpa using fun hp' => hcoming ⟨p, hp, hp'⟩
        by_cases hkey : q.key = Path.clean location
        · -- the analysis begins on the copy as it is
          have hfound : l.service.registry.find q.key = some c := by
            rw [Registry.find_eq, hclean, hkey]
            exact hf
          have hnew := begun_eq_some.2 ⟨c, hfound, hby.1, rfl⟩
          refine .latest c hf (.runs l.service.running ⟨q.key, c, c.endpoint.getD q.endpoint⟩ [] ?_ hkey
            (fun b hb => absurd hb List.not_mem_nil) rfl rfl hlocation)
          dsimp only
          rw [hnew]
          rfl
        · cases h.due location e he with
          | unsent changes => exact .unsent changes
          | resolving news => exact .resolving news
          | coming p mem asks => exact .coming p mem asks
          | waits q' mem key =>
            have hne : q' ≠ q := by
              rintro rfl
              exact hkey key
            exact .waits q' ((List.mem_erase_of_ne hne).2 mem) key
          | latest copy found last =>
            refine .latest copy found (last.begin_other fun b hb => ?_)
            rw [(hbegun b hb).1]
            exact hkey
  · exact h

theorem diagnosing_complete (hengine : ∀ key content, ∃ analysis, ends.env.engine key content = .ok analysis)
    (h : Diagnosing ends l) (a : RunningAnalysis)
    (hfirst : a ∈ l.service.running → l.service.running.find? (fun b => b.key = a.key) = some a) :
    Diagnosing ends (l.step ends (.complete a)) := by
  have hconverging := converging_step h.converging (.complete a) trivial (by
    rw [step]; split <;> exact h.converging.apart)
  rw [step] at hconverging ⊢
  split
  · next ha =>
    rw [if_pos ha] at hconverging
    have houtcome : ∀ m ∈ outcome ends.env l.service a, ∃ analysis,
        m = ⟨a.endpoint, .result ⟨analysis, a.copy.location⟩⟩ := by
      intro m hm
      obtain ⟨analysis, -, -, -, -, rfl⟩ := mem_outcome.1 hm
      exact ⟨analysis, rfl⟩
    refine ⟨hconverging, h.sound.complete ends.env a, h.orderly, h.placed, h.spelled, ?_, ?_, ?_⟩
    · exact fun b hb => h.running b (List.mem_of_mem_erase hb)
    · intro m hm
      rcases List.mem_append.1 hm with hm | hm
      · exact h.results m hm
      · obtain ⟨analysis, rfl⟩ := houtcome m hm
        exact ⟨_, rfl⟩
    · intro location e he
      cases h.due location e he with
      | unsent changes => exact .unsent changes
      | resolving news => exact .resolving news
      | coming p mem asks => exact .coming p mem asks
      | waits q mem key => exact .waits q mem key
      | latest copy found last =>
        refine .latest copy found ?_
        by_cases hkey : a.key = Path.clean location
        · refine last.complete_first (hkey ▸ hfirst ha) fun hcontent hrevision hlocation => ?_
          obtain ⟨analysis, hok⟩ := hengine (Path.clean location) copy.content
          refine ⟨a.endpoint, analysis, hok, ?_⟩
          have hfound : l.service.registry.find a.key = some copy := by
            rw [Registry.find_eq, h.sound.running a ha, hkey]
            exact found
          rw [Service.complete, outcome_eq (by rw [hkey, hcontent]; exact hok) hfound hrevision.symm, hlocation]
        · refine last.complete_other hkey fun m hm hnames => ?_
          obtain ⟨analysis, rfl⟩ := houtcome m hm
          obtain ⟨r, hr, howner⟩ := hnames
          obtain rfl := Payload.result.inj hr
          exact hkey ((h.running a ha).symm.trans (congrArg Path.clean howner))
  · exact h

theorem resolving_route (d : Display) (location : String) (r : ReconcileResult) :
    (d.route location r).1.resolving = d.resolving := by
  rw [Display.route]
  split
  · rfl
  · split <;> rfl

theorem diagnosing_receive (h : Diagnosing ends l) (hapart : (l.step ends .receive).session.Apart) :
    Diagnosing ends (l.step ends .receive) := by
  have hconverging := converging_step h.converging .receive trivial hapart
  rw [step] at hconverging ⊢
  split
  · exact h
  · next m rest hto =>
    rw [hto] at hconverging
    obtain ⟨r, hr⟩ := h.results m (by rw [hto]; exact List.mem_cons_self)
    obtain ⟨receiver, payload⟩ := m
    obtain rfl : payload = .result r := hr
    have hget := Session.get?_handleInbound_result l.session ends.options.endpoint receiver r
    simp only [input, Session.react, Session.posted_inbound, List.append_nil] at hconverging ⊢
    refine ⟨hconverging, h.sound, h.orderly, fun location ho => h.placed location ?_, h.spelled, h.running,
      fun m hm => h.results m (by rw [hto]; exact List.mem_cons_of_mem _ hm), fun location e' he' => ?_⟩
    · rw [Session.isOpen_of_texts (Session.texts_handleInbound _ _)] at ho
      exact ho
    · rw [hget] at he'
      obtain ⟨e, he, rfl⟩ := Option.map_eq_some_iff.1 he'
      by_cases hresolving : e.display.resolving = some .inProgress
      · exact .resolving ((resolving_route _ _ _).trans hresolving)
      · cases h.due location e he with
        | unsent changes => exact .unsent changes
        | resolving news => exact absurd news hresolving
        | coming p mem asks => exact .coming p mem asks
        | waits q mem key => exact .waits q mem key
        | latest copy found last =>
          rw [hto] at last
          exact .latest copy found (last.receive hresolving)

/-- Messages reach the session from the server only, a document that is moved gets another key, and the
analyses of a key are completed in the order in which they were begun. -/
def Proper (l : Link) : Action → Prop
  | .input i => (∀ envelope, i ≠ .inbound envelope) ∧ l.session.MovesAway i
  | .complete a =>
    a ∈ l.service.running → l.service.running.find? (fun b => b.key = a.key) = some a
  | _ => True

/-- The states of the runs of `Reachable` that keep to this. -/
inductive Steady (ends : Ends) : Link → Prop
  | start : Steady ends (start ends)
  | step {l : Link} (a : Action) (before : Steady ends l) (reads : l.Reads a) (proper : l.Proper a)
      (apart : (l.step ends a).session.Apart) : Steady ends (l.step ends a)

theorem Steady.diagnosing (ha : ends.env.analyses = true)
    (hengine : ∀ key content, ∃ analysis, ends.env.engine key content = .ok analysis)
    (h : Steady ends l) : Diagnosing ends l := by
  induction h with
  | start => exact diagnosing_start
  | step a _ reads proper apart ih =>
    cases a with
    | input i => exact diagnosing_input ih i proper.1 proper.2 apart
    | serve source => exact diagnosing_serve ha ih source reads
    | begin q => exact diagnosing_begin ih q
    | complete a => exact diagnosing_complete hengine ih a proper
    | receive => exact diagnosing_receive ih apart

/-- Once nothing is on its way and no analysis waits or runs, an editor that has nothing to send shows
what the engine finds in its document, unless the project is being resolved. -/
theorem diagnosis_at_rest (ends : Ends) (hanalyses : ends.env.analyses = true)
    (hengine : ∀ key content, ∃ analysis, ends.env.engine key content = .ok analysis) {l : Link}
    (h : Steady ends l) (hto : l.toServer = []) (hback : l.toClient = [])
    (hwaiting : l.service.waiting = []) (hrunning : l.service.running = []) {location : String}
    {e : OpenEditor} (he : l.session.editors.get? location = some e)
    (hqueue : e.capture.queue.deltas = []) (hresync : e.reporter.needsResync = false)
    (hresolving : e.display.resolving ≠ some .inProgress) :
    ∃ analysis, ends.env.engine (Path.clean location) e.document.contents = .ok analysis ∧
      e.display.shown = analysis ∧ e.display.state = .active (Severity.worst analysis.problems) := by
  have hd := h.diagnosing hanalyses hengine
  have hunsent : e.unsent = [] := by
    rw [OpenEditor.unsent, hresync, hqueue]
    rfl
  obtain ⟨c, hf, hby, -⟩ := hd.standing he (by rw [hto]; exact fun p hp => absurd hp List.not_mem_nil)
  have hcontent : c.content = e.document.contents := by
    have happly := hby.2
    rw [hqueue] at happly
    exact Except.ok.inj happly
  cases hd.due location e he with
  | unsent changes => exact absurd hunsent changes
  | resolving news => exact absurd news hresolving
  | coming p mem asks => exact absurd mem (by rw [hto]; exact List.not_mem_nil)
  | waits q mem key => exact absurd mem (by rw [hwaiting]; exact List.not_mem_nil)
  | latest copy found last =>
    obtain rfl := Option.some.inj (hf.symm.trans found)
    rw [hrunning, hback] at last
    cases last with
    | runs before a after split => exact absurd split (by simp)
    | comes idle before receiver analysis after split => exact absurd split (by simp)
    | arrived idle last analysis engine analysed state =>
      exact ⟨analysis, hcontent ▸ engine, analysed, state⟩

def lenient : Engine := fun path content =>
  match Markers.engine path content with
  | .ok analysis => .ok analysis
  | .error _ => .ok {}

def markedEnds : Ends where
  host := { owner := fun _ => "" }
  options := {}
  client := "client-1"
  env := { source := fun _ => .ok "", engine := lenient }

def markedCopy : WorkingCopy where
  location := "/p/./a"
  project := "/p"
  content := "WARN ab"
  revision := 1
  endpoint := some "client-1"

def marked : List Action :=
  [.input (.host (.opened ⟨"/p/./a", "/p", "ab", false⟩)),
    .input (.host (.changed "/p/./a" ⟨0, 0, some "WARN "⟩)), .input (.pass 1000),
    .input (.ring ⟨"/p/./a", 1, 1000⟩), .input (.tick ⟨"/p/./a", 1, 1000⟩), .serve fun _ => .ok "ab",
    .serve fun _ => .ok "ab", .begin ⟨"/p/a", "client-1"⟩, .complete ⟨"/p/a", markedCopy, "client-1"⟩,
    .receive]

def afterMarked : Link := marked.foldl (step markedEnds) (start markedEnds)

theorem steady_afterMarked : Steady markedEnds afterMarked := by
  have hinput : ∀ {l : Link} (i : Session.Input), Steady markedEnds l →
      (∀ envelope, i ≠ .inbound envelope) → (∀ o n, i ≠ .host (.moved o n)) →
      (l.input markedEnds i).session.Apart → Steady markedEnds (l.step markedEnds (.input i)) :=
    fun i h hhost hmoved hapart =>
      .step (.input i) h trivial ⟨hhost, fun o n hi => absurd hi (hmoved o n)⟩ hapart
  have h1 := hinput (.host (.opened ⟨"/p/./a", "/p", "ab", false⟩)) .start (by simp) (by simp)
    (apart_of_keys (by decide +kernel))
  have h2 := hinput (.host (.changed "/p/./a" ⟨0, 0, some "WARN "⟩)) h1 (by simp) (by simp)
    (apart_of_keys (by decide +kernel))
  have h3 := hinput (.pass 1000) h2 (by simp) (by simp) (apart_of_keys (by decide +kernel))
  have h4 := hinput (.ring ⟨"/p/./a", 1, 1000⟩) h3 (by simp) (by simp) (apart_of_keys (by decide +kernel))
  have h5 := hinput (.tick ⟨"/p/./a", 1, 1000⟩) h4 (by simp) (by simp) (apart_of_keys (by decide +kernel))
  have h6 := h5.step (.serve fun _ => .ok "ab") (reads_of_opening (by decide +kernel)) trivial
    (apart_of_keys (by decide +kernel))
  have h7 := h6.step (.serve fun _ => .ok "ab") (reads_of_opening (by decide +kernel)) trivial
    (apart_of_keys (by decide +kernel))
  have h8 := h7.step (.begin ⟨"/p/a", "client-1"⟩) trivial trivial (apart_of_keys (by decide +kernel))
  have h9 := h8.step (.complete ⟨"/p/a", markedCopy, "client-1"⟩) trivial (fun _ => by decide +kernel)
    (apart_of_keys (by decide +kernel))
  exact h9.step .receive trivial trivial (apart_of_keys (by decide +kernel))

theorem diagnosis_at_rest_afterMarked :
    ∃ e, afterMarked.session.editors.get? "/p/./a" = some e ∧ e.document.contents = "WARN ab" ∧
      e.display.shown = { problems := [.ofWarning "warning in /p/a" 0 4] } ∧
      e.display.state = .active .warning := by
  have hopen : (afterMarked.session.editors.get? "/p/./a").map (fun e =>
      (e.document.contents, e.capture.queue.deltas, e.reporter.needsResync, e.display.resolving)) =
        some ("WARN ab", [], false, none) := by decide +kernel
  obtain ⟨e, he, heq⟩ := Option.map_eq_some_iff.1 hopen
  obtain ⟨hcontents, heq⟩ := Prod.mk.inj heq
  obtain ⟨hqueue, heq⟩ := Prod.mk.inj heq
  obtain ⟨hresync, hresolving⟩ := Prod.mk.inj heq
  have hlenient : ∀ key content, ∃ analysis, lenient key content = .ok analysis := by
    intro key content
    unfold lenient
    cases Markers.engine key content with
    | ok analysis => exact ⟨analysis, rfl⟩
    | error f => exact ⟨{}, rfl⟩
  have hnothing : afterMarked.toServer.length = 0 ∧ afterMarked.toClient = [] ∧
      afterMarked.service.waiting = [] ∧ afterMarked.service.running = [] := by decide +kernel
  obtain ⟨hto, hback, hwaiting, hrunning⟩ := hnothing
  obtain ⟨analysis, hanalysis, hshown, hstate⟩ := diagnosis_at_rest markedEnds rfl hlenient
    steady_afterMarked (List.length_eq_zero_iff.1 hto) hback hwaiting hrunning he hqueue hresync
    (by rw [hresolving]; simp)
  have hfound : (lenient (Path.clean "/p/./a") "WARN ab").toOption =
      some { problems := [.ofWarning "warning in /p/a" 0 4] } := by decide +kernel
  rw [hcontents] at hanalysis
  rw [show lenient (Path.clean "/p/./a") "WARN ab" = .ok analysis from hanalysis] at hfound
  obtain rfl := Option.some.inj hfound
  exact ⟨e, he, hcontents, hshown, hstate⟩

end Link
end EditSync
