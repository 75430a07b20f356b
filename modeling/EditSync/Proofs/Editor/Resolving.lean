import EditSync.Proofs.Editor.Course

/-! What editors show while the project is being resolved. All that were open when the news came show
nothing until it is resolved, wherever they are moved and whatever arrives for them. An editor that is
opened later is told nothing, and shows a result as soon as one reaches it. -/

namespace EditSync

def Envelope.result? (e : Envelope) : Option ReconcileResult :=
  if e.method = Method.reconcileStateChanged then (e.decode ReconcileResult.ofJson?).toOption else none

namespace Display

def Shows (d : Display) : Prop :=
  (∃ severity, d.state = .active severity) ∨ d.shown.problems ≠ [] ∨ d.shown.highlights ≠ []

def silent : Display := { resolving := some .inProgress, state := .disabled }

def react (d : Display) (location : String) : Session.Input → Display
  | .host (.resolving state) => (d.onResolving state).1
  | .inbound e => match e.result? with
    | some r => (d.route location r).1
    | none => d
  | _ => d

theorem not_shows_silent : ¬ silent.Shows := by simp [Shows, silent]

theorem onResolving_inProgress (d : Display) : (d.onResolving .inProgress).1 = silent := rfl

theorem route_silent (location : String) (r : ReconcileResult) : (silent.route location r).1 = silent := by
  rw [route]
  split <;> rfl

/-- Only the news that the project is resolved ends the silence. -/
theorem react_silent (location : String) {i : Session.Input} (h : i ≠ .host (.resolving .resolved)) :
    silent.react location i = silent := by
  cases i with
  | host event =>
    cases event with
    | resolving state =>
      cases state with
      | inProgress => rfl
      | resolved => exact absurd rfl h
    | opened _ | changed _ _ | closed _ | moved _ _ => rfl
  | inbound e =>
    rw [react]
    split
    · exact route_silent location _
    · rfl
  | saving _ _ | pass _ | ring _ | tick _ => rfl

/-- An editor that was told nothing yet and has a severity to show. -/
structure Lively (d : Display) : Prop where
  untold : d.resolving = none
  active : ∃ severity, d.state = .active severity

theorem lively_route {d : Display} {location : String} {r : ReconcileResult} (h : d.resolving = none)
    (hr : r.owner = location) : (d.route location r).1.Lively := by
  rw [route, if_neg (fun hne => hne hr), if_neg (by simp [h])]
  exact ⟨h, _, rfl⟩

theorem route_of_ne {d : Display} {location : String} {r : ReconcileResult} (hr : r.owner ≠ location) :
    (d.route location r).1 = d := by rw [route, if_pos hr]

/-- Untold editors go on as they are, but for a result that is theirs. -/
theorem react_untold {d : Display} (location : String) {i : Session.Input} (h : d.resolving = none)
    (hi : ∀ state, i ≠ .host (.resolving state)) :
    d.react location i = d ∨
      (d.react location i).Lively ∧ ∃ e r, i = .inbound e ∧ e.result? = some r ∧ r.owner = location := by
  cases i with
  | host event =>
    cases event with
    | resolving state => exact absurd rfl (hi state)
    | opened _ | changed _ _ | closed _ | moved _ _ => exact Or.inl rfl
  | inbound e =>
    rw [react]
    split
    · next r hr =>
      by_cases howner : r.owner = location
      · exact Or.inr ⟨lively_route h howner, e, r, rfl, hr, howner⟩
      · exact Or.inl (route_of_ne howner)
    · exact Or.inl rfl
  | saving _ _ | pass _ | ring _ | tick _ => exact Or.inl rfl

theorem untold_react {d : Display} (location : String) {i : Session.Input} (h : d.resolving = none)
    (hi : ∀ state, i ≠ .host (.resolving state)) : (d.react location i).resolving = none := by
  rcases react_untold location h hi with hd | ⟨hd, -⟩
  · rw [hd]
    exact h
  · exact hd.untold

theorem lively_react {d : Display} (location : String) {i : Session.Input} (h : d.Lively)
    (hi : ∀ state, i ≠ .host (.resolving state)) : (d.react location i).Lively := by
  rcases react_untold location h.untold hi with hd | ⟨hd, -⟩
  · rw [hd]
    exact h
  · exact hd

end Display

namespace Session

variable {host : Host} {s : Session} {l l' k : String} {d d' : Display} {i : Input}
  {inputs before after : List Input}

/-- Where an input brings the editor of a location, unless it closes it. -/
def heading (s : Session) (l : String) : Input → Option String
  | .host (.closed location) => if l = location then none else some l
  | .host (.moved oldLocation newLocation) =>
    if l = oldLocation ∧ s.isOpen newLocation = false then some newLocation else some l
  | _ => some l

def follow (host : Host) (s : Session) (l : String) : List Input → Option String
  | [] => some l
  | i :: inputs => (s.heading l i).bind fun l' => follow host (s.react host i).1 l' inputs

def display? (s : Session) (l : String) : Option Display := (s.editors.get? l).map (·.display)

/-- An editor that was open before an input is at a location after it. -/
def Remains (s : Session) (i : Input) (l' : String) (d' : Display) : Prop :=
  ∃ l d, s.display? l = some d ∧ s.heading l i = some l' ∧ d' = d.react l i

def Appears (s : Session) (i : Input) (l' : String) (d' : Display) : Prop :=
  ∃ doc, i = .host (.opened doc) ∧ s.isOpen doc.location = false ∧ l' = doc.location ∧ d' = {}

theorem isOpen_of_display? (h : s.display? l = some d) : s.isOpen l = true := by
  obtain ⟨e, he, -⟩ := Option.map_eq_some_iff.1 h
  exact isOpen_of_get? he

theorem display?_handleInbound (s : Session) (e : Envelope) (l : String) :
    (s.handleInbound e).session.display? l = (s.display? l).map (·.react l (.inbound e)) := by
  have hsame : e.result? = none → (s.display? l).map (·.react l (.inbound e)) = s.display? l := by
    intro h
    simp [Display.react, h]
  rw [handleInbound]
  split
  · next hm =>
    split
    · next f hd => exact (hsame (by rw [Envelope.result?, if_pos hm, hd]; rfl)).symm
    · next r hd =>
      have hresult : e.result? = some r := by rw [Envelope.result?, if_pos hm, hd]; rfl
      simp only [display?, Table.get?_mapValues, Option.map_map, Function.comp_def, Display.react, hresult]
  · next hm =>
    rw [hsame (by rw [Envelope.result?, if_neg hm])]
    split
    · split
      · rfl
      · next r _ =>
        dsimp only
        split
        · rw [display?, get?_demandResync]
          split
          · next hl => rw [Option.map_map, hl]; rfl
          · rfl
        · rfl
    · rfl

/-- One editor is replaced by another that shows the same. -/
theorem display?_of_set {s' : Session} {location : String} {e e' : OpenEditor}
    (he : s.editors.get? location = some e)
    (hget : ∀ k, s'.editors.get? k = if k = location then some e' else s.editors.get? k)
    (hsame : e'.display = e.display) (l : String) : s'.display? l = s.display? l := by
  rw [display?, hget]
  split
  · next hl =>
    rw [hl, display?, he]
    exact congrArg some hsame
  · rfl

theorem display?_change (s : Session) (location : String) (edit : Text.Edit) (l : String) :
    (s.change location edit).session.display? l = s.display? l := by
  rcases (change_cases s location edit).2 with ⟨hsess, -⟩ | ⟨e, document, he, -, hget, -⟩
  · rw [hsess]
  · exact display?_of_set he hget rfl l

theorem display?_deliver (s : Session) (t : Tick) (l : String) :
    (s.deliver t).1.display? l = s.display? l := by
  by_cases ht : t ∈ s.scheduler.posted
  · rcases (deliver_of_mem ht).2 with ⟨heditors, -⟩ | ⟨e, -, he, hget, -⟩
    · rw [display?, heditors, display?]
    · exact display?_of_set he hget (flushed_flushEditor e).display l
  · rw [deliver_of_notMem ht]

theorem display?_setSaving (s : Session) (location : String) (set : AutoSave → AutoSave) (l : String) :
    (s.setSaving location set).display? l = s.display? l := by
  simp only [display?, setSaving, Table.get?_modify]
  split
  · next hl =>
    rw [Option.map_map, hl]
    rfl
  · rfl

theorem display?_onResolving (s : Session) (state : Resolving) (l : String) :
    (s.onResolving state).display? l = (s.display? l).map fun d => (d.onResolving state).1 := by
  rw [display?, get?_onResolving, Option.map_map, display?, Option.map_map]
  cases state <;> rfl

/-- The editors after an input that neither opens, closes nor moves one are those before it. -/
theorem remains_of_steady {s' : Session} (hdisplay : ∀ l, s'.display? l = (s.display? l).map (·.react l i))
    (hheading : ∀ l, s.heading l i = some l) : s'.display? l' = some d' ↔ s.Remains i l' d' := by
  rw [hdisplay, Option.map_eq_some_iff]
  constructor
  · rintro ⟨d, hd, rfl⟩
    exact ⟨l', d, hd, hheading l', rfl⟩
  · rintro ⟨l, d, hd, hl, rfl⟩
    obtain rfl := Option.some.inj ((hheading l).symm.trans hl)
    exact ⟨d, hd, rfl⟩

theorem remains_of_close {location : String} :
    (s.close location).session.display? l' = some d' ↔ s.Remains (.host (.closed location)) l' d' := by
  have hdisplay : (s.close location).session.display? l' =
      if l' = location then none else s.display? l' := by
    rcases close_cases s location with ⟨hclosed, hsess, -⟩ | ⟨e, -, hget, -⟩
    · rw [hsess]
      split
      · next hl => rw [hl, display?, get?_of_not_isOpen hclosed]; rfl
      · rfl
    · rw [display?, hget]
      split <;> rfl
  rw [hdisplay]
  constructor
  · intro h
    split at h
    · exact absurd h (by simp)
    · next hl => exact ⟨l', d', h, by rw [heading, if_neg hl], rfl⟩
  · rintro ⟨l, d, h, hl, rfl⟩
    rw [heading] at hl
    split at hl
    · exact absurd hl (by simp)
    · next hne =>
      obtain rfl := Option.some.inj hl
      rw [if_neg hne, h]

theorem display?_of_moves {s' : Session} {oldLocation newLocation : String} {e : OpenEditor}
    (hmoves : Moves s s' oldLocation newLocation e) (l : String) :
    s'.display? l = if l = newLocation then s.display? oldLocation
      else if l = oldLocation then none else s.display? l := by
  rw [display?, hmoves.editors]
  split
  · rw [display?, hmoves.found]; rfl
  · split <;> rfl

theorem remains_of_move {oldLocation newLocation : String} :
    (s.move oldLocation newLocation).session.display? l' = some d' ↔
      s.Remains (.host (.moved oldLocation newLocation)) l' d' := by
  rcases move_cases s oldLocation newLocation with ⟨hsess, -, hfixed⟩ | ⟨e, hfree, hmoves, -⟩
  · have hstays : ∀ l, s.isOpen l = true → s.heading l (.host (.moved oldLocation newLocation)) = some l := by
      intro l hl
      rw [heading, if_neg]
      rintro ⟨rfl, hfree⟩
      rcases hfixed with h | h
      · exact absurd (h.symm.trans hfree) (by decide)
      · exact absurd (hl.symm.trans h) (by decide)
    rw [hsess]
    constructor
    · exact fun h => ⟨l', d', h, hstays l' (isOpen_of_display? h), rfl⟩
    · rintro ⟨l, d, h, hl, rfl⟩
      obtain rfl := Option.some.inj ((hstays l (isOpen_of_display? h)).symm.trans hl)
      exact h
  · rw [display?_of_moves hmoves]
    constructor
    · intro h
      split at h
      · next hl => exact ⟨oldLocation, d', h, by rw [heading, if_pos ⟨rfl, hfree⟩, hl], rfl⟩
      · split at h
        · exact absurd h (by simp)
        · next hold => exact ⟨l', d', h, by rw [heading, if_neg fun hand => hold hand.1], rfl⟩
    · rintro ⟨l, d, h, hl, rfl⟩
      rw [heading] at hl
      split at hl
      · next hand => rw [if_pos (Option.some.inj hl).symm, ← hand.1]; exact h
      · next hand =>
        obtain rfl := Option.some.inj hl
        have hnew : l ≠ newLocation := by
          rintro rfl
          exact absurd (hfree.symm.trans (isOpen_of_display? h)) (by decide)
        rw [if_neg hnew, if_neg fun hold => hand ⟨hold, hfree⟩]
        exact h

theorem display?_openDocument_iff (host : Host) (s : Session) (doc : Document) :
    (s.openDocument host doc).session.display? l' = some d' ↔
      s.display? l' = some d' ∨ s.Appears (.host (.opened doc)) l' d' := by
  rcases openDocument_cases host s doc with ⟨hopen, hsess, -⟩ | ⟨hclosed, hget, -⟩
  · rw [hsess]
    refine (or_iff_left ?_).symm
    rintro ⟨doc', hdoc, hclosed, -⟩
    cases hdoc
    exact absurd (hopen.symm.trans hclosed) (by decide)
  · have hdisplay : (s.openDocument host doc).session.display? l' =
        if l' = doc.location then some {} else s.display? l' := by
      rw [display?, hget]
      split <;> rfl
    rw [hdisplay]
    constructor
    · intro h
      split at h
      · next hl => exact Or.inr ⟨doc, rfl, hclosed, hl, (Option.some.inj h).symm⟩
      · exact Or.inl h
    · rintro (h | ⟨doc', hdoc, -, rfl, rfl⟩)
      · rw [if_neg, h]
        rintro rfl
        exact absurd (hclosed.symm.trans (isOpen_of_display? h)) (by decide)
      · cases hdoc
        exact if_pos rfl

/-- An editor was there before, or is opened now. -/
theorem display?_react_iff :
    (s.react host i).1.display? l' = some d' ↔ s.Remains i l' d' ∨ s.Appears i l' d' := by
  -- what is left to show of an input that opens nothing
  have hunless : (∀ doc, i ≠ .host (.opened doc)) →
      ((s.react host i).1.display? l' = some d' ↔ s.Remains i l' d') →
      ((s.react host i).1.display? l' = some d' ↔ s.Remains i l' d' ∨ s.Appears i l' d') :=
    fun hi h => h.trans (or_iff_left fun ⟨doc, hdoc, _⟩ => hi doc hdoc).symm
  cases i with
  | host event =>
    cases event with
    | opened doc =>
      have hsteady : s.display? l' = some d' ↔ s.Remains (.host (.opened doc)) l' d' :=
        remains_of_steady (fun _ => Option.map_id'.symm) fun _ => rfl
      rw [← hsteady]
      exact display?_openDocument_iff host s doc
    | changed location edit =>
      exact hunless (by simp) (remains_of_steady
        (fun l => (display?_change s location edit l).trans Option.map_id'.symm) fun _ => rfl)
    | closed location => exact hunless (by simp) remains_of_close
    | moved oldLocation newLocation => exact hunless (by simp) remains_of_move
    | resolving state =>
      exact hunless (by simp) (remains_of_steady (display?_onResolving s state) fun _ => rfl)
  | inbound e =>
    exact hunless (by simp) (remains_of_steady (display?_handleInbound s e) fun _ => rfl)
  | saving location set =>
    exact hunless (by simp) (remains_of_steady
      (fun l => (display?_setSaving s location set l).trans Option.map_id'.symm) fun _ => rfl)
  | pass ms => exact hunless (by simp) (remains_of_steady (fun _ => Option.map_id'.symm) fun _ => rfl)
  | ring t => exact hunless (by simp) (remains_of_steady (fun _ => Option.map_id'.symm) fun _ => rfl)
  | tick t =>
    exact hunless (by simp) (remains_of_steady
      (fun l => (display?_deliver s t l).trans Option.map_id'.symm) fun _ => rfl)

theorem session_foldl (host : Host) (inputs : List Input) (s : Session) (effects : List Effect) :
    (inputs.foldl (runStep host) (s, effects)).1 = (run host s inputs).1 := by
  induction inputs generalizing s effects with
  | nil => rfl
  | cons i inputs ih => exact (ih _ _).trans (ih _ _).symm

theorem session_run_cons (host : Host) (s : Session) (i : Input) (inputs : List Input) :
    (run host s (i :: inputs)).1 = (run host (s.react host i).1 inputs).1 :=
  session_foldl host inputs (s.react host i).1 ([] ++ (s.react host i).2)

theorem session_run_append (host : Host) (s : Session) (before after : List Input) :
    (run host s (before ++ after)).1 = (run host (run host s before).1 after).1 := by
  rw [run, List.foldl_append]
  exact session_foldl _ _ _ _

theorem session_run_concat (host : Host) (s : Session) (inputs : List Input) (i : Input) :
    (run host s (inputs ++ [i])).1 = ((run host s inputs).1.react host i).1 :=
  session_run_append host s inputs [i]

theorem follow_append (host : Host) (s : Session) (l : String) (before after : List Input) :
    follow host s l (before ++ after) =
      (follow host s l before).bind fun l' => follow host (run host s before).1 l' after := by
  induction before generalizing s l with
  | nil => rfl
  | cons i before ih =>
    rw [List.cons_append, follow, follow, Option.bind_assoc]
    refine congrArg _ (funext fun l' => ?_)
    rw [ih, session_run_cons]

theorem follow_concat (h : follow host s l inputs = some l')
    (hi : (run host s inputs).1.heading l' i = some k) : follow host s l (inputs ++ [i]) = some k := by
  rw [follow_append, h, Option.bind_some, follow, hi]
  rfl

/-- An editor is found where it was followed to, with all of its display that the inputs keep. -/
theorem exists_display_of_follow {P : Display → Prop} (hP : ∀ i ∈ inputs, ∀ k d, P d → P (d.react k i))
    (hd : s.display? l = some d) (hpd : P d) (hl : follow host s l inputs = some l') :
    ∃ d', (run host s inputs).1.display? l' = some d' ∧ P d' := by
  induction inputs generalizing s l d with
  | nil =>
    obtain rfl := Option.some.inj hl
    exact ⟨d, hd, hpd⟩
  | cons i inputs ih =>
    obtain ⟨k, hk, hl⟩ := Option.bind_eq_some_iff.1 hl
    have hnext : (s.react host i).1.display? k = some (d.react l i) :=
      display?_react_iff.2 (Or.inl ⟨l, d, hd, hk, rfl⟩)
    rw [session_run_cons]
    exact ih (fun j hj => hP j (List.mem_cons_of_mem _ hj)) hnext (hP i List.mem_cons_self l d hpd) hl

def NoNews (inputs : List Input) : Prop := ∀ state, .host (.resolving state) ∉ inputs

/-- A document was opened, and its editor, told nothing since, is at a location now. -/
structure OpenedUntold (host : Host) (s : Session) (inputs early : List Input) (doc : Document)
    (rest : List Input) (l : String) : Prop where
  split : inputs = early ++ .host (.opened doc) :: rest
  closed : (run host s early).1.isOpen doc.location = false
  untold : NoNews rest
  follows : follow host (run host s (early ++ [.host (.opened doc)])).1 doc.location rest = some l

/-- An editor was opened, was told nothing since, and a result reached it at the location that it had
then. -/
def Reached (host : Host) (s : Session) (inputs : List Input) (l : String) : Prop :=
  ∃ early doc rest middle envelope late r, OpenedUntold host s inputs early doc rest l ∧
    rest = middle ++ .inbound envelope :: late ∧ envelope.result? = some r ∧
    follow host (run host s (early ++ [.host (.opened doc)])).1 doc.location middle = some r.owner

variable {early rest : List Input} {doc : Document}

theorem OpenedUntold.concat (h : OpenedUntold host s inputs early doc rest l)
    (hi : ∀ state, i ≠ .host (.resolving state)) (hl : (run host s inputs).1.heading l i = some l') :
    OpenedUntold host s (inputs ++ [i]) early doc (rest ++ [i]) l' := by
  refine ⟨by rw [h.split]; simp, h.closed, fun state hmem => ?_, ?_⟩
  · rcases List.mem_append.1 hmem with hmem | hmem
    · exact h.untold state hmem
    · exact hi state (List.mem_singleton.1 hmem).symm
  · refine follow_concat h.follows ?_
    rw [← session_run_append, List.append_assoc, List.singleton_append, ← h.split]
    exact hl

theorem Reached.concat (h : Reached host s inputs l) (hi : ∀ state, i ≠ .host (.resolving state))
    (hl : (run host s inputs).1.heading l i = some l') : Reached host s (inputs ++ [i]) l' := by
  obtain ⟨early, doc, rest, middle, envelope, late, r, hopened, rfl, hr, howner⟩ := h
  exact ⟨early, doc, _, middle, envelope, late ++ [i], r, hopened.concat hi hl, by simp, hr, howner⟩

/-- In the run after the news an editor is silent, or it was opened since and has a result or has none. -/
theorem display?_cases (hquiet : ∀ l d, s.display? l = some d → d = .silent)
    (hphase : .host (.resolving .resolved) ∉ inputs) (hd : (run host s inputs).1.display? l = some d) :
    d = .silent ∨ (d = {} ∧ ∃ early doc rest, OpenedUntold host s inputs early doc rest l) ∨
      d.Lively ∧ Reached host s inputs l := by
  induction inputs using List.reverseRecOn generalizing l d with
  | nil => exact Or.inl (hquiet l d hd)
  | append_singleton inputs i ih =>
    rw [session_run_concat] at hd
    rw [List.mem_append, not_or, List.mem_singleton] at hphase
    rcases display?_react_iff.1 hd with ⟨k, d, hk, hl, rfl⟩ | ⟨doc, rfl, hclosed, rfl, rfl⟩
    · by_cases hnews : ∃ state, i = .host (.resolving state)
      · obtain ⟨state, rfl⟩ := hnews
        cases state with
        | inProgress => exact Or.inl d.onResolving_inProgress
        | resolved => exact absurd rfl hphase.2
      · have hi : ∀ state, i ≠ .host (.resolving state) := fun state h => hnews ⟨state, h⟩
        rcases ih hphase.1 hk with rfl | ⟨rfl, early, doc, rest, hopened⟩ | ⟨hlively, hreached⟩
        · exact Or.inl (Display.react_silent k (hi .resolved))
        · refine Or.inr ?_
          rcases Display.react_untold (d := {}) k rfl hi with hd | ⟨hlively, e, r, rfl, hr, howner⟩
          · exact Or.inl ⟨hd, early, doc, rest ++ [i], hopened.concat hi hl⟩
          · refine Or.inr ⟨hlively, early, doc, _, rest, e, [], r, hopened.concat hi hl, rfl, hr, ?_⟩
            rw [howner]
            exact hopened.follows
        · exact Or.inr (Or.inr ⟨Display.lively_react k hlively hi, hreached.concat hi hl⟩)
    · exact Or.inr (Or.inl ⟨rfl, inputs, doc, [], rfl, hclosed, fun _ => List.not_mem_nil, rfl⟩)

theorem lively_of_reached (h : Reached host s inputs l) :
    ∃ d, (run host s inputs).1.display? l = some d ∧ d.Lively := by
  obtain ⟨early, doc, rest, middle, envelope, late, r, hopened, rfl, hr, howner⟩ := h
  obtain ⟨rfl, hclosed, huntold, hfollows⟩ := hopened
  have hopen : (run host s (early ++ [.host (.opened doc)])).1.display? doc.location = some {} := by
    rw [session_run_concat]
    exact display?_react_iff.2 (Or.inr ⟨doc, rfl, hclosed, rfl, rfl⟩)
  have hstep : ∀ i ∈ middle ++ .inbound envelope :: late, ∀ state, i ≠ .host (.resolving state) := by
    rintro i hi state rfl
    exact huntold state hi
  obtain ⟨d, hd, hnone⟩ := exists_display_of_follow (P := fun d => d.resolving = none)
    (fun i hi k d hd => Display.untold_react k hd (hstep i (List.mem_append_left _ hi))) hopen rfl howner
  rw [follow_append, howner, Option.bind_some] at hfollows
  have hlively : (d.react r.owner (.inbound envelope)).Lively := by
    simp only [Display.react, hr]
    exact Display.lively_route hnone rfl
  have hnext : ((run host (run host s (early ++ [.host (.opened doc)])).1 middle).1.react host
      (.inbound envelope)).1.display? r.owner = some (d.react r.owner (.inbound envelope)) :=
    display?_react_iff.2 (Or.inl ⟨r.owner, d, hd, rfl, rfl⟩)
  obtain ⟨d', hd', hlively'⟩ := exists_display_of_follow (P := Display.Lively)
    (fun i hi k d hd => Display.lively_react k hd
      (hstep i (List.mem_append_right _ (List.mem_cons_of_mem _ hi)))) hnext hlively hfollows
  refine ⟨d', ?_, hlively'⟩
  rw [← hd', ← session_run_cons, ← session_run_append, ← session_run_append]
  simp

/-- From the news that the project is being resolved until the news that it is resolved: an editor that
was open at first shows nothing wherever it is moved. Any editor shows something exactly if it was opened
since the latest news and a result has reached it. -/
theorem shows_while_resolving_iff (host : Host) (s : Session) (inputs : List Input)
    (hphase : .host (.resolving .resolved) ∉ inputs) :
    (∀ l l', s.isOpen l = true → follow host (s.onResolving .inProgress) l inputs = some l' →
        (run host (s.onResolving .inProgress) inputs).1.display? l' = some .silent) ∧
      ∀ l d, (run host (s.onResolving .inProgress) inputs).1.display? l = some d →
        (d.Shows ↔ Reached host (s.onResolving .inProgress) inputs l) := by
  constructor
  · intro l l' hopen hl
    obtain ⟨e, he⟩ := Option.isSome_iff_exists.1 hopen
    have hd : (s.onResolving .inProgress).display? l = some .silent := by
      rw [display?_onResolving, display?, he]
      rfl
    obtain ⟨d, hd, rfl⟩ := exists_display_of_follow (P := fun d => d = .silent)
      (fun i hi k d hd => by
        rw [hd]
        exact Display.react_silent k fun h => hphase (h ▸ hi)) hd rfl hl
    exact hd
  · intro l d hd
    have hquiet : ∀ l d, (s.onResolving .inProgress).display? l = some d → d = .silent := by
      intro l d hd
      rw [display?_onResolving] at hd
      obtain ⟨d', -, rfl⟩ := Option.map_eq_some_iff.1 hd
      rfl
    constructor
    · intro hshows
      rcases display?_cases hquiet hphase hd with rfl | ⟨rfl, -⟩ | ⟨-, hreached⟩
      · exact absurd hshows Display.not_shows_silent
      · exact absurd hshows (by simp [Display.Shows])
      · exact hreached
    · intro hreached
      obtain ⟨d', hd', hlively⟩ := lively_of_reached hreached
      obtain rfl := Option.some.inj (hd'.symm.trans hd)
      exact Or.inl hlively.active

def openedMeanwhile : List Input :=
  [.host (.opened ⟨"/p/b", "/p", "", false⟩),
    .inbound (Message.envelope ⟨"client", .result { owner := "/p/a" }⟩ "server"),
    .inbound (Message.envelope ⟨"client", .result { owner := "/p/b" }⟩ "server"),
    .host (.moved "/p/b" "/p/c"), .inbound (Message.envelope ⟨"client", .result { owner := "/p/b" }⟩ "server")]

def oneOpen : Session :=
  (run { owner := fun _ => "" } (start {}) [.host (.opened ⟨"/p/a", "/p", "", false⟩)]).1

theorem shows_while_resolving_iff_openedMeanwhile :
    .host (.resolving .resolved) ∉ openedMeanwhile ∧
      (run { owner := fun _ => "" } (oneOpen.onResolving .inProgress) openedMeanwhile).1.display? "/p/a" =
        some .silent ∧
      Reached { owner := fun _ => "" } (oneOpen.onResolving .inProgress) openedMeanwhile "/p/c" := by
  have hphase : .host (.resolving .resolved) ∉ openedMeanwhile := by simp [openedMeanwhile]
  obtain ⟨hsilent, hshows⟩ := shows_while_resolving_iff { owner := fun _ => "" } oneOpen openedMeanwhile hphase
  refine ⟨hphase, hsilent "/p/a" "/p/a" (by decide +kernel) (by decide +kernel), ?_⟩
  exact (hshows "/p/c" { state := .active .clean } (by decide +kernel)).1 (Or.inl ⟨_, rfl⟩)

/-- So not every editor is silent in that time. -/
theorem shown_though_resolving :
    ¬ ∀ (host : Host) (options : SessionOptions) (before after : List Input),
      .host (.resolving .resolved) ∉ after → ∀ l d,
        (run host (start options) (before ++ .host (.resolving .inProgress) :: after)).1.display? l = some d →
        ¬ d.Shows := by
  intro h
  exact h { owner := fun _ => "" } {} [] [.host (.opened ⟨"/p/a", "/p", "", false⟩),
    .inbound (Message.envelope ⟨"client", .result { owner := "/p/a" }⟩ "server")] (by simp) "/p/a"
    { state := .active .clean } (by decide +kernel) (Or.inl ⟨_, rfl⟩)

end Session
end EditSync
