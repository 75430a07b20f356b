import EditSync.Proofs.Editor.Course

/-! No edit is stranded: whatever a document has to tell the server, a flush of it is coming, because
its timer runs or the tick that it posted will be claimed. This holds exactly as long as no timer that
posted its tick is given up for being one of too many. Timers are given up whenever one is started
while more than `Debounce.crowded` are known, and the cleaning does not ask whether their documents are
still open. -/

namespace EditSync

open Text

/-- Deltas are queued, or the whole content was asked for. -/
def OpenEditor.Behind (e : OpenEditor) : Prop :=
  e.capture.queue.deltas ≠ [] ∨ e.reporter.needsResync = true

namespace Session

/-- The timer of a document runs, or it posted a tick that leads to a flush. -/
def FlushComing (s : Session) (location : String) : Prop :=
  ∃ t : Tick, t.key = location ∧ s.scheduler.current.get? location = some t.generation ∧
    (t ∈ s.scheduler.running ∨ t ∈ s.scheduler.posted ∧ (s.handleTick t).result.isSome = true)

def NoneStranded (s : Session) : Prop :=
  ∀ l e, s.editors.get? l = some e → e.Behind → s.FlushComing l

/-- The document whose timer an input starts anew, with the timers that are known just before. News
about the project are left out: they start all timers anew. -/
def restarts (s : Session) : Input → Option (Debounce × String)
  | .host (.opened doc) =>
    if s.isOpen doc.location = false ∧ s.options.resyncOnInstall = true then
      some (s.scheduler, doc.location)
    else none
  | .host (.changed location edit) =>
    match s.editors.get? location with
    | none => none
    | some e =>
      match e.document.change edit with
      | .ok _ => some (s.scheduler, location)
      | .error _ => none
  | .host (.moved oldLocation newLocation) =>
    if s.isOpen newLocation = false ∧ s.isOpen oldLocation = true ∧
        s.hasPendingFlush oldLocation = true then
      some ((s.scheduler.cancel oldLocation).1, newLocation)
    else none
  | .inbound e =>
    if e.method = Method.resyncRequired then
      match e.decode ResyncRequest.ofJson? with
      | .ok r => if s.isOpen r.location = true then some (s.scheduler, r.location) else none
      | .error _ => none
    else none
  | _ => none

/-- An input starts a timer anew among too many, and another document that is behind has posted its
tick. -/
def Forgets (s : Session) (i : Input) : Prop :=
  ∃ d key, s.restarts i = some (d, key) ∧ Debounce.crowded < d.current.size ∧
    ∃ l e g, l ≠ key ∧ s.editors.get? l = some e ∧ e.Behind ∧
      d.current.get? l = some g ∧ d.isRunning g = false

theorem hasPendingFlush_eq (s : Session) (l : String) :
    s.hasPendingFlush l = (s.scheduler.current.get? l).isSome := rfl

/-- The entry of an open document is as good as a flush. -/
theorem flushComing_iff {s : Session} (hs : s.scheduler.Sound) {l : String} {e : OpenEditor}
    (he : s.editors.get? l = some e) : s.FlushComing l ↔ s.hasPendingFlush l = true := by
  constructor
  · rintro ⟨t, -, hc, -⟩
    rw [hasPendingFlush_eq, hc]
    rfl
  · intro h
    obtain ⟨g, hg⟩ := Option.isSome_iff_exists.1 h
    obtain ⟨t, ht, hk, rfl⟩ := hs.ticking l g hg
    subst hk
    exact ⟨t, rfl, hg, (Debounce.mem_pool.1 ht).imp_right fun hp =>
      ⟨hp, (isSome_handleTick s t).2 ⟨hg, isOpen_of_get? he⟩⟩⟩

theorem noneStranded_iff {s : Session} (hs : s.scheduler.Sound) :
    s.NoneStranded ↔ ∀ l e, s.editors.get? l = some e → e.Behind → s.hasPendingFlush l = true :=
  ⟨fun h l e he hb => (flushComing_iff hs he).1 (h l e he hb),
    fun h l e he hb => (flushComing_iff hs he).2 (h l e he hb)⟩

/-- After a timer was started anew, the documents that are stranded are those given up by it. -/
theorem noneStranded_iff_not_forgets {s s' : Session} {i : Input} {d : Debounce} {key : String}
    (hr : s.restarts i = some (d, key)) (hd : d.Sound) (hs' : s'.scheduler = (d.schedule key).1)
    (heq : ∀ l, l ≠ key → d.hasPending l = true → s'.editors.get? l = s.editors.get? l)
    (hp : ∀ l e, l ≠ key → s'.editors.get? l = some e → e.Behind → d.hasPending l = true) :
    s'.NoneStranded ↔ ¬ s.Forgets i := by
  have hsound : s'.scheduler.Sound := by rw [hs']; exact hd.schedule key
  rw [noneStranded_iff hsound]
  constructor
  · rintro h ⟨d', key', hr', hcrowd, l, e, g, hne, he, hb, hg, hrun⟩
    obtain ⟨rfl, rfl⟩ := Prod.mk.inj (Option.some.inj (hr.symm.trans hr'))
    have hpend : d.hasPending l = true := by
      rw [Debounce.hasPending, Table.contains_eq, hg]; rfl
    have := h l e ((heq l hne hpend).trans he) hb
    rw [hasPendingFlush_eq, hs', Debounce.get?_schedule, if_neg hne, Debounce.get?_prune,
      if_pos hcrowd, hg] at this
    simp [Option.filter, hrun] at this
  · intro h l e he hb
    rw [hasPendingFlush_eq, hs', Debounce.get?_schedule]
    split
    · rfl
    · next hne =>
      have hpend := hp l e hne he hb
      obtain ⟨g, hg⟩ := Option.isSome_iff_exists.1 hpend
      rw [Debounce.get?_prune]
      split
      · next hcrowd =>
        cases hrun : d.isRunning g with
        | true => simp [hg, Option.filter, hrun]
        | false =>
          have he' := (heq l hne hpend).symm.trans he
          exact absurd ⟨d, key, hr, hcrowd, l, e, g, hne, he', hb, hg, hrun⟩ h
      · exact hpend

theorem not_forgets_of_restarts {s : Session} {i : Input} (h : s.restarts i = none) :
    ¬ s.Forgets i := by
  rintro ⟨d, key, hr, -⟩
  rw [h] at hr
  exact absurd hr (by simp)

/-- Where nothing is started anew, nothing is forgotten. -/
theorem noneStranded_of_restarts_none {s s' : Session} {i : Input} (h : s'.NoneStranded)
    (hr : s.restarts i = none) : s'.NoneStranded ↔ ¬ s.Forgets i :=
  iff_of_true h (not_forgets_of_restarts hr)

/-- Nothing is stranded if entries only went for documents that are not behind any more. -/
theorem NoneStranded.mono {s s' : Session} (hs : s.scheduler.Sound) (hs' : s'.scheduler.Sound)
    (h : s.NoneStranded)
    (hkeep : ∀ l e', s'.editors.get? l = some e' → e'.Behind →
      (∃ e, s.editors.get? l = some e ∧ e.Behind) ∧
        (s.hasPendingFlush l = true → s'.hasPendingFlush l = true)) : s'.NoneStranded := by
  rw [noneStranded_iff hs] at h
  rw [noneStranded_iff hs']
  intro l e' he' hb'
  obtain ⟨⟨e, he, hb⟩, hpend⟩ := hkeep l e' he' hb'
  exact hpend (h l e he hb)

theorem not_behind_flushEditor (e : OpenEditor) : ¬ (flushEditor e).1.Behind := by
  rintro (h | h)
  · exact h (flushed_flushEditor e).queue
  · rw [(flushed_flushEditor e).reporter] at h
    exact absurd h (by simp)

theorem not_behind_opened {host : Host} {s : Session} {doc : Document}
    (h : s.options.resyncOnInstall = false) : ¬ (OpenEditor.opened host s doc).Behind := by
  rintro (hq | hr)
  · exact hq rfl
  · exact absurd (h.symm.trans hr) (by simp)

section

variable {s : Session} (hs : s.scheduler.Sound) (h : s.NoneStranded)

include hs h

theorem noneStranded_openDocument (host : Host) (doc : Document) :
    (s.openDocument host doc).session.NoneStranded ↔ ¬ s.Forgets (.host (.opened doc)) := by
  have hpend := (noneStranded_iff hs).1 h
  rcases openDocument_cases host s doc with ⟨ho, hsess, -⟩ | ⟨ho, hget, hsched, -⟩
  · rw [hsess]
    exact noneStranded_of_restarts_none h (by simp [restarts, ho])
  · cases hr : s.options.resyncOnInstall with
    | true =>
      rw [hr, if_pos rfl] at hsched
      refine noneStranded_iff_not_forgets (by simp [restarts, ho, hr]) hs hsched ?_ ?_
      · intro l hne _
        rw [hget, if_neg hne]
      · intro l e hne he hb
        rw [hget, if_neg hne] at he
        exact hpend l e he hb
    | false =>
      rw [hr] at hsched
      simp only [Bool.false_eq_true, if_false] at hsched
      refine noneStranded_of_restarts_none (h.mono hs (by rw [hsched]; exact hs) ?_)
        (by simp [restarts, ho, hr])
      intro l e he hb
      rw [hget] at he
      split at he
      · exact absurd (Option.some.inj he ▸ hb) (not_behind_opened hr)
      · exact ⟨⟨e, he, hb⟩, fun hp => by rw [hasPendingFlush_eq, hsched]; exact hp⟩

theorem noneStranded_change (location : String) (edit : Edit) :
    (s.change location edit).session.NoneStranded ↔ ¬ s.Forgets (.host (.changed location edit)) := by
  have hpend := (noneStranded_iff hs).1 h
  rcases (change_cases s location edit).2 with ⟨hsess, hno⟩ | ⟨e, document, he, hc, hget, hsched⟩
  · rw [hsess]
    refine noneStranded_of_restarts_none h ?_
    cases he : s.editors.get? location with
    | none => simp [restarts, he]
    | some e =>
      obtain ⟨f, hf⟩ := hno e he
      simp [restarts, he, hf]
  · refine noneStranded_iff_not_forgets (by simp [restarts, he, hc]) hs hsched ?_ ?_
    · intro l hne _
      rw [hget, if_neg hne]
    · intro l e hne he hb
      rw [hget, if_neg hne] at he
      exact hpend l e he hb

theorem noneStranded_close (location : String) :
    (s.close location).session.NoneStranded := by
  rcases close_cases s location with ⟨-, hsess, -⟩ | ⟨e, he, hget, hsched, -⟩
  · rw [hsess]; exact h
  · refine h.mono hs (by rw [hsched]; exact hs.cancel location) ?_
    intro l e he hb
    rw [hget] at he
    split at he
    · exact absurd he (by simp)
    · next hne =>
      refine ⟨⟨e, he, hb⟩, fun hp => ?_⟩
      rw [hasPendingFlush_eq, hsched, Debounce.get?_cancel, if_neg hne]
      exact hp

/-- The timer of a document that moves is started anew under its new location. -/
theorem noneStranded_of_moves_pending {s' : Session} {oldLocation newLocation : String} {e : OpenEditor}
    (hmoves : Moves s s' oldLocation newLocation e) (hn : s.isOpen newLocation = false)
    (hp : s.hasPendingFlush oldLocation = true)
    (hsched : s'.scheduler = ((s.scheduler.cancel oldLocation).1.schedule newLocation).1) :
    s'.NoneStranded ↔ ¬ s.Forgets (.host (.moved oldLocation newLocation)) := by
  have ho : s.isOpen oldLocation = true := isOpen_of_get? hmoves.found
  refine noneStranded_iff_not_forgets (by simp [restarts, hn, ho, hp]) (hs.cancel oldLocation) hsched
    ?_ ?_
  · intro l hne hl
    have hne' : l ≠ oldLocation := by
      rintro rfl
      simp [Debounce.hasPending, Table.contains_eq, Debounce.get?_cancel] at hl
    rw [hmoves.editors, if_neg hne, if_neg hne']
  · intro l e' hne he' hb
    obtain ⟨hne', he''⟩ := hmoves.editor_other hne he'
    rw [Debounce.hasPending, Table.contains_eq, Debounce.get?_cancel, if_neg hne']
    exact (noneStranded_iff hs).1 h l e' he'' hb

/-- A document that moves without a timer is not behind. -/
theorem noneStranded_of_moves_idle {s' : Session} {oldLocation newLocation : String} {e : OpenEditor}
    (hmoves : Moves s s' oldLocation newLocation e) (hp : s.hasPendingFlush oldLocation = false)
    (hsched : s'.scheduler = (s.scheduler.cancel oldLocation).1) : s'.NoneStranded := by
  have hpend := (noneStranded_iff hs).1 h
  rw [noneStranded_iff (by rw [hsched]; exact hs.cancel oldLocation)]
  intro l e' he' hb
  by_cases hne : l = newLocation
  · subst hne
    obtain rfl := hmoves.editor_new he'
    exact absurd (hpend oldLocation e hmoves.found hb) (by simp [hp])
  · obtain ⟨hne', he''⟩ := hmoves.editor_other hne he'
    rw [hasPendingFlush_eq, hsched, Debounce.get?_cancel, if_neg hne']
    exact hpend l e' he'' hb

theorem noneStranded_move (oldLocation newLocation : String) :
    (s.move oldLocation newLocation).session.NoneStranded ↔
      ¬ s.Forgets (.host (.moved oldLocation newLocation)) := by
  rcases move_cases s oldLocation newLocation with ⟨hsess, -, hno⟩ | ⟨e, hn, hmoves, hsched, -⟩
  · rw [hsess]
    refine noneStranded_of_restarts_none h ?_
    rcases hno with ho | ho <;> simp [restarts, ho]
  · cases hp : s.hasPendingFlush oldLocation with
    | true =>
      rw [hp, if_pos rfl] at hsched
      exact noneStranded_of_moves_pending hs h hmoves hn hp hsched
    | false =>
      rw [hp, if_neg Bool.false_ne_true] at hsched
      refine noneStranded_of_restarts_none (noneStranded_of_moves_idle hs h hmoves hp hsched) ?_
      simp [restarts, hp]

end

def Running (s : Session) (l : String) : Prop :=
  ∃ g, s.scheduler.current.get? l = some g ∧ s.scheduler.isRunning g = true

theorem Running.hasPendingFlush {s : Session} {l : String} (h : s.Running l) :
    s.hasPendingFlush l = true := by
  obtain ⟨g, hg, -⟩ := h
  rw [hasPendingFlush_eq, hg]
  rfl

theorem isOpen_resolveEditor (state : Resolving) (s : Session) (location l : String) :
    (resolveEditor state s location).isOpen l = s.isOpen l := by
  rw [isOpen_eq, get?_resolveEditor, isOpen_eq]
  split
  · next hl => rw [hl, Option.isSome_map]
  · rfl

theorem sound_resolveEditor (state : Resolving) {s : Session} (hs : s.scheduler.Sound)
    (location : String) : (resolveEditor state s location).scheduler.Sound := by
  rw [scheduler_resolveEditor]
  split
  · exact hs.schedule location
  · exact hs

theorem running_resolveEditor {s : Session} (hs : s.scheduler.Sound) {location l : String}
    (ho : s.isOpen l = true) (h : l = location ∨ s.Running l) :
    (resolveEditor .resolved s location).Running l := by
  by_cases hl : l = location
  · subst hl
    refine ⟨s.scheduler.generation + 1, ?_, ?_⟩
    · rw [scheduler_resolveEditor, if_pos ⟨ho, rfl⟩, Debounce.get?_schedule, if_pos rfl]
    · rw [scheduler_resolveEditor, if_pos ⟨ho, rfl⟩]
      exact Debounce.isRunning_schedule_self _ _
  · obtain ⟨g, hg, hr⟩ := h.resolve_left hl
    rw [Running, scheduler_resolveEditor]
    split
    · exact ⟨g, hs.running_schedule hl hg hr⟩
    · exact ⟨g, hg, hr⟩

theorem sound_foldl_resolveEditor (state : Resolving) (ks : List String) {s : Session}
    (hs : s.scheduler.Sound) : (ks.foldl (resolveEditor state) s).scheduler.Sound := by
  induction ks generalizing s with
  | nil => exact hs
  | cons k ks ih => exact ih (sound_resolveEditor state hs k)

theorem running_foldl_resolveEditor (ks : List String) {s : Session} (hs : s.scheduler.Sound)
    {l : String} (ho : s.isOpen l = true) (h : l ∈ ks ∨ s.Running l) :
    (ks.foldl (resolveEditor .resolved) s).Running l := by
  induction ks generalizing s with
  | nil => exact h.resolve_left List.not_mem_nil
  | cons k ks ih =>
    have ho' : (resolveEditor .resolved s k).isOpen l = true := by
      rw [isOpen_resolveEditor]; exact ho
    refine ih (sound_resolveEditor _ hs k) ho' ?_
    rcases h with h | h
    · rcases List.mem_cons.1 h with rfl | h
      · exact Or.inr (running_resolveEditor hs ho (Or.inl rfl))
      · exact Or.inl h
    · exact Or.inr (running_resolveEditor hs ho (Or.inr h))

theorem scheduler_onResolving_inProgress (s : Session) :
    (s.onResolving .inProgress).scheduler = s.scheduler := by
  rw [onResolving]
  generalize s.editors.keys = ks
  induction ks generalizing s with
  | nil => rfl
  | cons k ks ih => rw [List.foldl_cons, ih, scheduler_resolveEditor, if_neg (by simp)]

theorem noneStranded_onResolving {s : Session} (hs : s.scheduler.Sound) (h : s.NoneStranded)
    (state : Resolving) : (s.onResolving state).NoneStranded := by
  have hs' : (s.onResolving state).scheduler.Sound := sound_foldl_resolveEditor state _ hs
  cases state with
  | inProgress =>
    refine h.mono hs hs' ?_
    intro l e' he' hb'
    rw [get?_onResolving, Option.map_eq_some_iff] at he'
    obtain ⟨e, he, rfl⟩ := he'
    refine ⟨⟨e, he, hb'⟩, fun hp => ?_⟩
    rw [hasPendingFlush_eq, scheduler_onResolving_inProgress]
    exact hp
  | resolved =>
    -- whoever is behind now, the timers of all open documents have just been started
    rw [noneStranded_iff hs']
    intro l e' he' _
    rw [get?_onResolving, Option.map_eq_some_iff] at he'
    obtain ⟨e, he, -⟩ := he'
    have hl : (s.editors.get? l).isSome = true := by rw [he]; rfl
    exact (running_foldl_resolveEditor _ hs hl (Or.inl ((s.editors.mem_keys l).2 hl))).hasPendingFlush

theorem noneStranded_handleInbound {s : Session} (hs : s.scheduler.Sound) (h : s.NoneStranded)
    (e : Envelope) : (s.handleInbound e).session.NoneStranded ↔ ¬ s.Forgets (.inbound e) := by
  have hpend := (noneStranded_iff hs).1 h
  rcases (handleInbound_cases s e).2 with ⟨r, hm, hsess⟩ | ⟨r, hm, hd, ho, hsess⟩ | ⟨hsess, hno⟩
  · rw [hsess]
    refine noneStranded_of_restarts_none (h.mono hs hs ?_) ?_
    · intro l e' he' hb'
      rw [Table.get?_mapValues, Option.map_eq_some_iff] at he'
      obtain ⟨e, he, rfl⟩ := he'
      exact ⟨⟨e, he, hb'⟩, id⟩
    · have hne : e.method ≠ Method.resyncRequired := by rw [hm]; decide
      simp [restarts, hne]
  · have hsched : (s.handleInbound e).session.scheduler = (s.scheduler.schedule r.location).1 := by
      rw [hsess, scheduler_demandResync]
    refine noneStranded_iff_not_forgets (by simp [restarts, hm, hd, ho]) hs hsched ?_ ?_
    · intro l hne _
      rw [hsess, get?_demandResync, if_neg hne]
    · intro l e' hne he' hb
      rw [hsess, get?_demandResync, if_neg hne] at he'
      exact hpend l e' he' hb
  · rw [hsess]
    refine noneStranded_of_restarts_none h ?_
    by_cases hm : e.method = Method.resyncRequired
    · cases hd : e.decode ResyncRequest.ofJson? with
      | error f => simp [restarts, hd]
      | ok r => simp [restarts, hd, hno r hm hd]
    · simp [restarts, hm]

theorem sound_deliver {s : Session} (hs : s.scheduler.Sound) (t : Tick) :
    (s.deliver t).1.scheduler.Sound := by
  by_cases ht : t ∈ s.scheduler.posted
  · rw [(deliver_of_mem ht).1]
    exact hs.take_claim t
  · rw [deliver_of_notMem ht]; exact hs

theorem noneStranded_deliver {s : Session} (hs : s.scheduler.Sound) (h : s.NoneStranded) (t : Tick) :
    (s.deliver t).1.NoneStranded := by
  by_cases ht : t ∈ s.scheduler.posted
  · obtain ⟨hsched, hcases⟩ := deliver_of_mem ht
    refine h.mono hs (sound_deliver hs t) fun l e' he' hb' => ?_
    -- only the entry of the tick goes, and that only if its document is flushed or not open
    have hentry : ¬ (s.scheduler.current.get? t.key = some t.generation ∧ l = t.key) →
        s.hasPendingFlush l = true → (s.deliver t).1.hasPendingFlush l = true := by
      intro hne hp
      rw [hasPendingFlush_eq, hsched, Debounce.get?_claim]
      exact (if_neg hne).symm ▸ hp
    rcases hcases with ⟨heditors, -, hclosed⟩ | ⟨e, -, -, hget, -⟩
    · rw [heditors] at he'
      refine ⟨⟨e', he', hb'⟩, hentry ?_⟩
      rintro ⟨hc, rfl⟩
      exact absurd (get?_of_not_isOpen (hclosed hc)) (by rw [he']; simp)
    · rw [hget] at he'
      split at he'
      · exact absurd (Option.some.inj he' ▸ hb') (not_behind_flushEditor e)
      · next hne => exact ⟨⟨e', he', hb'⟩, hentry fun hk => hne hk.2⟩
  · rw [deliver_of_notMem ht]; exact h

theorem noneStranded_setSaving {s : Session} (hs : s.scheduler.Sound) (h : s.NoneStranded)
    (location : String) (set : AutoSave → AutoSave) : (s.setSaving location set).NoneStranded := by
  refine h.mono hs hs ?_
  intro l e' he' hb'
  refine ⟨?_, id⟩
  simp only [setSaving, Table.get?_modify] at he'
  split at he'
  · next hl =>
    obtain ⟨e, he, rfl⟩ := Option.map_eq_some_iff.1 he'
    exact ⟨e, hl ▸ he, hb'⟩
  · exact ⟨e', he', hb'⟩

theorem NoneStranded.of_current {s : Session} (hs : s.scheduler.Sound) (h : s.NoneStranded)
    {d : Debounce} (hd : d.Sound) (hc : d.current = s.scheduler.current) :
    NoneStranded { s with scheduler := d } := by
  refine h.mono hs hd ?_
  intro l e he hb
  refine ⟨⟨e, he, hb⟩, fun hp => ?_⟩
  rw [hasPendingFlush_eq, hc]
  exact hp

theorem sound_react (host : Host) {s : Session} (hs : s.scheduler.Sound) (i : Input) :
    (s.react host i).1.scheduler.Sound := by
  cases i with
  | host e =>
    cases e with
    | opened doc =>
      rcases openDocument_cases host s doc with ⟨-, hsess, -⟩ | ⟨-, -, hsched, -⟩
      · simp only [react, handleEvent, hsess]; exact hs
      · simp only [react, handleEvent, hsched]
        split
        · exact hs.schedule doc.location
        · exact hs
    | changed location edit =>
      rcases (change_cases s location edit).2 with ⟨hsess, -⟩ | ⟨-, -, -, -, -, hsched⟩
      · simp only [react, handleEvent, hsess]; exact hs
      · simp only [react, handleEvent, hsched]; exact hs.schedule location
    | closed location =>
      rcases close_cases s location with ⟨-, hsess, -⟩ | ⟨-, -, -, hsched, -⟩
      · simp only [react, handleEvent, hsess]; exact hs
      · simp only [react, handleEvent, hsched]; exact hs.cancel location
    | moved oldLocation newLocation =>
      rcases move_cases s oldLocation newLocation with ⟨hsess, -⟩ | ⟨-, -, -, hsched, -⟩
      · simp only [react, handleEvent, hsess]; exact hs
      · simp only [react, handleEvent, hsched]
        split
        · exact (hs.cancel oldLocation).schedule newLocation
        · exact hs.cancel oldLocation
    | resolving state => exact sound_foldl_resolveEditor state _ hs
  | inbound e =>
    rcases (handleInbound_cases s e).2 with ⟨r, -, hsess⟩ | ⟨r, -, -, -, hsess⟩ | ⟨hsess, -⟩
    · simp only [react, hsess]; exact hs
    · simp only [react, hsess, scheduler_demandResync]; exact hs.schedule r.location
    · simp only [react, hsess]; exact hs
  | saving location set => exact hs
  | pass ms => exact hs.pass ms
  | ring t => exact hs.ring t
  | tick t => exact sound_deliver hs t

/-- One input strands a document exactly if it forgets one. -/
theorem noneStranded_react (host : Host) {s : Session} (hs : s.scheduler.Sound) (h : s.NoneStranded)
    (i : Input) : (s.react host i).1.NoneStranded ↔ ¬ s.Forgets i := by
  cases i with
  | host e =>
    cases e with
    | opened doc => exact noneStranded_openDocument hs h host doc
    | changed location edit => exact noneStranded_change hs h location edit
    | closed location => exact noneStranded_of_restarts_none (noneStranded_close hs h location) rfl
    | moved oldLocation newLocation => exact noneStranded_move hs h oldLocation newLocation
    | resolving state => exact noneStranded_of_restarts_none (noneStranded_onResolving hs h state) rfl
  | inbound e => exact noneStranded_handleInbound hs h e
  | saving location set =>
    exact noneStranded_of_restarts_none (noneStranded_setSaving hs h location set) rfl
  | pass ms => exact noneStranded_of_restarts_none (h.of_current hs (hs.pass ms) rfl) rfl
  | ring t =>
    refine noneStranded_of_restarts_none (h.of_current hs (hs.ring t) ?_) rfl
    exact (Debounce.ring_frame _ t).1
  | tick t => exact noneStranded_of_restarts_none (noneStranded_deliver hs h t) rfl

theorem sound_run (host : Host) (options : SessionOptions) (inputs : List Input) :
    (run host (start options) inputs).1.scheduler.Sound := by
  induction inputs using List.reverseRecOn with
  | nil => exact Debounce.sound_start _
  | append_singleton inputs i ih =>
    rw [run_concat]
    exact sound_react host ih i

theorem noneStranded_start (options : SessionOptions) : (start options).NoneStranded :=
  fun l e he => absurd he (by simp [start])

/-- In a course whose inputs forget no document, no document is stranded. -/
theorem noneStranded_run (host : Host) (options : SessionOptions) (inputs : List Input)
    (h : ∀ before i after, inputs = before ++ i :: after →
      ¬ (run host (start options) before).1.Forgets i) :
    (run host (start options) inputs).1.NoneStranded := by
  induction inputs using List.reverseRecOn with
  | nil => exact noneStranded_start options
  | append_singleton inputs i ih =>
    rw [run_concat]
    refine (noneStranded_react host (sound_run host options inputs) (ih ?_) i).2 (h inputs i [] rfl)
    intro before j after heq
    exact h before j (after ++ [i]) (by rw [heq]; simp)

/-- No edit is stranded at any time of a course exactly if no input forgets a document that has posted
its tick. -/
theorem noneStranded_throughout_iff (host : Host) (options : SessionOptions) (inputs : List Input) :
    (∀ before after, inputs = before ++ after →
        (run host (start options) before).1.NoneStranded) ↔
      ∀ before i after, inputs = before ++ i :: after →
        ¬ (run host (start options) before).1.Forgets i := by
  constructor
  · intro h before i after heq
    have hbefore := h before (i :: after) heq
    have hafter := h (before ++ [i]) after (by rw [heq]; simp)
    rw [run_concat] at hafter
    exact (noneStranded_react host (sound_run host options before) hbefore i).1 hafter
  · intro h before after heq
    refine noneStranded_run host options before fun b i a hb => h b i (a ++ after) ?_
    rw [heq, hb]
    simp

def crowd : List Input :=
  let location (n : Nat) : String := s!"/p/{n}.txt"
  let documents := (List.range 34).map fun n => .host (.opened ⟨location n, "/p", "abc", false⟩)
  let edits := (List.range 33).map fun n => .host (.changed (location n) ⟨0, 0, some "x"⟩)
  let rings := (List.range 33).map fun n => .ring ⟨location n, n + 1, 1000⟩
  documents ++ edits ++ .pass 1000 :: rings ++ [.host (.changed (location 33) ⟨0, 0, some "x"⟩)]

theorem stranded_in_crowd :
    ¬ ∀ before after, crowd = before ++ after →
      (run { owner := fun _ => "" } (start {}) before).1.NoneStranded := by
  intro h
  have hall := h crowd [] (List.append_nil _).symm
  generalize hs : (run { owner := fun _ => "" } (start {}) crowd).1 = s at hall
  have hqueue : (s.editors.get? "/p/0.txt").map (·.capture.queue.deltas) = some [.insert 0 "x"] := by
    rw [← hs]
    decide +kernel
  have hentry : s.scheduler.current.get? "/p/0.txt" = none := by
    rw [← hs]
    decide +kernel
  obtain ⟨e, he, hdeltas⟩ := Option.map_eq_some_iff.1 hqueue
  have hbehind : e.Behind := Or.inl (by rw [hdeltas]; simp)
  obtain ⟨t, -, hcur, -⟩ := hall "/p/0.txt" e he hbehind
  exact absurd (hentry.symm.trans hcur) (by simp)

end Session
end EditSync
