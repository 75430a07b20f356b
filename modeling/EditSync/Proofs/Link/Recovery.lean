import EditSync.Proofs.Editor.Reports
import EditSync.Proofs.Workspace.Course

/-! Recovery. Whatever became of a server's copy of a document, the whole content that its editor sends
sets it right, and then it follows the document for as long as nothing else touches it. -/

namespace EditSync

open Text

namespace Course

def Input.touches (key : String) : Input → Bool
  | .change _ c => Path.clean c.location = key
  | .file _ o => o.touches key
  | _ => false

variable {env : Setting}

theorem get?_step_of_not_touches {c : Course} {key : String} {i : Input}
    (h : i.touches key = false) :
    (c.step env i).service.registry.copies.get? key = c.service.registry.copies.get? key := by
  cases i with
  | change endpoint change =>
    have hne : key ≠ Path.clean change.location := by
      rintro rfl
      simp [Input.touches] at h
    rw [step, changed, Service.registry_onChange, Registry.get?_apply, if_neg hne]
  | file endpoint o => exact Service.get?_onFileOperation_of_not_touches _ _ endpoint h
  | schedule path endpoint => rw [step, Service.registry_schedule]
  | begin q =>
    rw [step]
    split
    · rw [Service.begin_eq]
    · rfl
  | complete a =>
    rw [step]
    split <;> rfl
  | saved source => rfl

theorem shows_runFrom_of_not_touches {c : Course} {location content : String} {inputs : List Input}
    (h : ∀ i ∈ inputs, i.touches (Path.clean location) = false)
    (hshows : c.service.registry.Shows location content) :
    (runFrom env c inputs).service.registry.Shows location content := by
  induction inputs generalizing c with
  | nil => exact hshows
  | cons i inputs ih =>
    rw [runFrom_cons]
    refine ih (fun j hj => h j (List.mem_cons_of_mem _ hj)) ?_
    obtain ⟨copy, hf, hcopy⟩ := hshows
    refine ⟨copy, ?_, hcopy⟩
    rw [Registry.find_eq, get?_step_of_not_touches (h i List.mem_cons_self)]
    exact hf

/-- The copy of a location after a change of it. -/
theorem find_step_change (env : Setting) (c : Course) (client : String) (change : TextChange) :
    (c.step env (.change client change)).service.registry.find change.location =
      some (Registry.changeCopy (c.service.registry.target c.source change client) change).1 := by
  rw [step, changed, Service.registry_onChange, Registry.find_eq, Registry.get?_apply, if_pos rfl]
  rfl

theorem shows_step_content (c : Course) (client content location project owner : String) :
    (c.step env (.change client (.ofContent content location project owner))).service.registry.Shows
      location content :=
  ⟨_, find_step_change env c client (.ofContent content location project owner), rfl, rfl⟩

theorem shows_step_delta {c : Course} {location content next : String} {d : Delta}
    (hshows : c.service.registry.Shows location content) (hc : d.Canonical)
    (hd : d.apply content = .ok next) (client project owner : String) :
    (c.step env (.change client (.ofDelta d location project owner))).service.registry.Shows
      location next := by
  obtain ⟨copy, hf, hsync, rfl⟩ := hshows
  have hchanged := Registry.changeCopy_ofDelta (c := copy.noteSender client owner) hsync hc hd location
    project owner
  have hfind := find_step_change env c client (.ofDelta d location project owner)
  rw [Registry.target_of_find c.source (.ofDelta d location project owner) client hf] at hfind
  refine ⟨_, hfind, ?_, ?_⟩
  · rw [show (TextChange.ofDelta d location project owner).owner = owner from rfl, hchanged]
    exact hsync
  · rw [show (TextChange.ofDelta d location project owner).owner = owner from rfl, hchanged]

/-- The last change that was delivered is followed by nothing that touches its key. -/
theorem split_at_last_change {key client : String} {inputs : List Input} {earlier : List TextChange}
    {change : TextChange} (h : inputs.filter (Input.touches key) = (earlier ++ [change]).map (.change client)) :
    ∃ before after, inputs = before ++ .change client change :: after ∧
      before.filter (Input.touches key) = earlier.map (.change client) ∧
      ∀ i ∈ after, i.touches key = false := by
  rw [List.map_append, List.filter_eq_append_iff] at h
  obtain ⟨before, rest, rfl, hbefore, hrest⟩ := h
  obtain ⟨between, after, rfl, hbetween, -, hafter⟩ := List.filter_eq_cons_iff.1 hrest
  refine ⟨before ++ between, after, by simp, ?_, ?_⟩
  · rw [List.filter_append, hbefore, List.filter_eq_nil_iff.2 hbetween, List.append_nil]
  · simpa using List.filter_eq_nil_iff.1 hafter

/-- Whatever a server made of a location: once the changes have come to it in their order, and nothing
else that touches the key, its copy is synchronized and is the content. -/
def Recovers (location : String) (changes : List TextChange) (content : String) : Prop :=
  ∀ (env : Setting) (c : Course) (client : String) (inputs : List Input),
    inputs.filter (Input.touches (Path.clean location)) = changes.map (.change client) →
    (runFrom env c inputs).service.registry.Shows location content

theorem recovers_of_restores {location content : String} {changes : List TextChange}
    (h : Restores location changes content) : Recovers location changes content := by
  intro env c client inputs hdelivered
  induction h generalizing inputs with
  | whole earlier content project owner =>
    obtain ⟨before, after, rfl, -, hafter⟩ := split_at_last_change hdelivered
    rw [runFrom, List.foldl_append, List.foldl_cons]
    exact shows_runFrom_of_not_touches hafter (shows_step_content _ client content location project owner)
  | delta project owner _ canonical fits ih =>
    obtain ⟨before, after, rfl, hbefore, hafter⟩ := split_at_last_change hdelivered
    rw [runFrom, List.foldl_append, List.foldl_cons]
    exact shows_runFrom_of_not_touches hafter
      (shows_step_delta (ih before hbefore) canonical fits client project owner)

end Course

namespace Session

/-- A flush of the document at a location: by itself, or by a tick that is claimed. -/
inductive Flushes (s : Session) (location : String) : Step (Option FlushReport) → Prop
  | flush : Flushes s location (s.flush location)
  | tick (t : Tick) (key : t.key = location) (claimed : (s.handleTick t).result.isSome = true) :
      Flushes s location (s.handleTick t)

theorem Flushes.flushed {s : Session} {location : String} {r : Step (Option FlushReport)}
    (h : s.Flushes location r) {e : OpenEditor} (he : s.editors.get? location = some e) :
    ∃ e', r.session.editors.get? location = some e' ∧ Flushed e e' r.effects := by
  have hat : ∃ e₀, s.FlushedAt location r e₀ := by
    cases h with
    | flush =>
      rcases (flush_cases s location).2 with ⟨-, -, -, hclosed⟩ | hflushed
      · exact absurd (hclosed.symm.trans (isOpen_of_get? he)) Bool.false_ne_true
      · exact hflushed
    | tick t key claimed =>
      subst key
      rcases (handleTick_cases s t).2 with ⟨-, -, hnone, -⟩ | ⟨e₀, -, hflushed⟩
      · rw [hnone] at claimed
        exact absurd claimed Bool.false_ne_true
      · exact ⟨e₀, hflushed⟩
  obtain ⟨e₀, hflushed⟩ := hat
  obtain rfl := Option.some.inj (he.symm.trans hflushed.found)
  exact ⟨_, (hflushed.editors location).trans (if_pos rfl), hflushed.effects ▸ flushed_flushEditor e⟩

/-- Whatever the server makes of a document whose editor is to send its whole content, and whatever is
queued of it: while the editor keeps its location, what it sent and what a flush then sends make the
server's copy the document, at the first flush and at each later one, and nothing is left to be sent. As
long as nothing is queued again, what was sent is enough. -/
theorem mirror_recovers (host : Host) (options : SessionOptions) (before after : List Input)
    {location : String} {e : OpenEditor}
    (he : (run host (start options) before).1.editors.get? location = some e)
    (hpending : e.reporter.needsResync = true)
    (hstays : ∀ m ∈ messages (run host (run host (start options) before).1 after).2,
      m.operates location = false) :
    let s := (run host (run host (start options) before).1 after).1
    let sent := changesOf location (messages (run host (run host (start options) before).1 after).2)
    ∃ e', s.editors.get? location = some e' ∧
      (∀ r, s.Flushes location r → ∃ flushed, r.session.editors.get? location = some flushed ∧
        flushed.document.contents = e'.document.contents ∧
        flushed.capture.queue.deltas = [] ∧ flushed.reporter.needsResync = false ∧
        Course.Recovers location (sent ++ changesOf location (messages r.effects))
          flushed.document.contents) ∧
      (e'.capture.queue.deltas = [] → e'.reporter.needsResync = false →
        Course.Recovers location sent e'.document.contents) := by
  intro s sent
  obtain ⟨hkept, e', he', hacc⟩ :=
    accountedBy_run after (kept_run host options before) he (Or.inl hpending) hstays
  have hlocation := hkept location e' he'
  have hrecovers := Course.recovers_of_restores (OpenEditor.restores_unsent hlocation hacc)
  refine ⟨e', he', fun r hr => ?_, fun hqueue hresync => ?_⟩
  · obtain ⟨flushed, hget, hflushed⟩ := hr.flushed he'
    have hsent : changesOf location (messages r.effects) = e'.unsent := by
      rw [hflushed.messages, changesOf_unsent, if_pos hlocation.location]
    refine ⟨flushed, hget, hflushed.contents, hflushed.queue, by rw [hflushed.reporter], ?_⟩
    rw [hsent, hflushed.contents]
    exact hrecovers
  · rw [OpenEditor.unsent_eq_nil.2 ⟨hqueue, hresync⟩, List.append_nil] at hrecovers
    exact hrecovers

def recoveryHost : Host := { owner := fun _ => "o" }

def awaitingFlush : Session :=
  (run recoveryHost (start {})
    [.host (.opened ⟨"/p/./a", "/p", "abc", false⟩), .host (.resolving .resolved),
      .host (.changed "/p/./a" ⟨0, 0, some "x"⟩)]).1

def flushedTwice : List Input :=
  [.pass 1000, .ring ⟨"/p/./a", 2, 1000⟩, .tick ⟨"/p/./a", 2, 1000⟩,
    .host (.changed "/p/./a" ⟨1, 2, some "yz"⟩), .pass 1000, .ring ⟨"/p/./a", 3, 2000⟩,
    .tick ⟨"/p/./a", 3, 2000⟩]

def diverged : Course where
  source := fun _ => .ok ""
  service.registry.copies :=
    .ofList [("/p/a", { location := "/p/a", project := "", content := "?", synchronized := false })]

def reported : List TextChange :=
  [.ofContent "xabc" "/p/./a" "/p" "o", .ofDelta (.remove 1 2) "/p/./a" "/p" "o",
    .ofDelta (.insert 1 "yz") "/p/./a" "/p" "o"]

/-- The second flush by its tick, and the state after both flushes. -/
theorem mirror_recovers_diverged :
    let delivered : List Course.Input :=
      .file "client-2" { action := .start, path := "/p/b" } :: reported.map (.change "client-1")
    let registry := (Course.runFrom { source := fun _ => .ok "" } diverged delivered).service.registry
    let s := (run recoveryHost awaitingFlush (flushedTwice.take 6)).1
    (∃ e, (s.handleTick ⟨"/p/./a", 3, 2000⟩).session.editors.get? "/p/./a" = some e ∧
        registry.Shows "/p/./a" e.document.contents) ∧
      ∃ e, (run recoveryHost awaitingFlush flushedTwice).1.editors.get? "/p/./a" = some e ∧
        e.document.contents = "xyzc" ∧ registry.Shows "/p/./a" e.document.contents := by
  intro delivered registry s
  have hpending : (awaitingFlush.editors.get? "/p/./a").map (·.reporter.needsResync) = some true := by
    decide +kernel
  obtain ⟨e, he, hresync⟩ := Option.map_eq_some_iff.1 hpending
  have hdelivered : delivered.filter (Course.Input.touches (Path.clean "/p/./a")) =
      reported.map (.change "client-1") := by
    have hothers : (Course.Input.file "client-2" { action := .start, path := "/p/b" }).touches
        (Path.clean "/p/./a") = false := by decide +kernel
    have hreported : ∀ c ∈ reported, (Course.Input.change "client-1" c).touches
        (Path.clean "/p/./a") = true := by decide +kernel
    rw [List.filter_cons_of_neg (by simp [hothers])]
    exact List.filter_eq_self.2 (List.forall_mem_map.2 hreported)
  constructor
  · obtain ⟨_, -, hflushes, -⟩ :=
      mirror_recovers recoveryHost {} _ (flushedTwice.take 6) he hresync (by decide +kernel)
    obtain ⟨flushed, hget, -, -, -, hrecovers⟩ :=
      hflushes _ (.tick ⟨"/p/./a", 3, 2000⟩ rfl (by decide +kernel))
    have hsent : changesOf "/p/./a" (messages (run recoveryHost awaitingFlush (flushedTwice.take 6)).2) ++
        changesOf "/p/./a" (messages (s.handleTick ⟨"/p/./a", 3, 2000⟩).effects) = reported := by
      decide +kernel
    exact ⟨flushed, hget, hrecovers _ _ "client-1" _ (hdelivered.trans (by rw [← hsent]; rfl))⟩
  · obtain ⟨e', he', -, hrecovers⟩ :=
      mirror_recovers recoveryHost {} _ flushedTwice he hresync (by decide +kernel)
    have hlast : ((run recoveryHost awaitingFlush flushedTwice).1.editors.get? "/p/./a").map
        (fun e => (e.document.contents, e.capture.queue.deltas, e.reporter.needsResync)) =
          some ("xyzc", [], false) := by decide +kernel
    have hsent : changesOf "/p/./a" (messages (run recoveryHost awaitingFlush flushedTwice).2) =
        reported := by decide +kernel
    rw [show (run recoveryHost awaitingFlush flushedTwice).1.editors.get? "/p/./a" = some e' from he']
      at hlast
    obtain ⟨hcontents, hrest⟩ := Prod.mk.inj (Option.some.inj hlast)
    obtain ⟨hqueue, hnone⟩ := Prod.mk.inj hrest
    exact ⟨e', he', hcontents,
      hrecovers hqueue hnone _ _ "client-1" _ (hdelivered.trans (by rw [← hsent]; rfl))⟩

end Session
end EditSync
