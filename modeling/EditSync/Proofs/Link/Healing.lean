import EditSync.Proofs.Editor.Pending
import EditSync.Proofs.Link.Mending

/-! The copies of new documents, whose files cannot be read, are right whenever nothing is under way, apart from
those of documents that missed the request for their contents. These stay unsynchronized until they are
edited again. -/

namespace EditSync

namespace Link

variable {ends : Ends}

/-- Whatever the two ends did and in whatever order: once nothing is on its way and no flush of a document is to
come, the copy of a document that has sent a change is synchronized and is the document, except if the document
was moved while it was to be asked for under its old location, and has since neither been asked for nor sent
a change. -/
theorem healed_iff (ends : Ends) {past : List Action} (h : Unread ends past)
    (hto : (after ends past).toServer = []) (hback : (after ends past).toClient = []) {location : String}
    {e : OpenEditor} (he : (after ends past).session.editors.get? location = some e)
    (hidle : (after ends past).session.hasPendingFlush location = false)
    (hcoming : e.Behind → (after ends past).session.FlushComing location)
    (hspoke : Spoke ends past location) :
    (after ends past).service.registry.Shows location e.document.contents ↔
      ¬ Missed ends past location := by
  have hbehind : ¬ e.Behind := by
    intro hbehind
    obtain ⟨t, -, hcurrent, -⟩ := hcoming hbehind
    rw [Session.hasPendingFlush_eq, hcurrent] at hidle
    exact absurd hidle (by simp)
  have hqueue : e.capture.queue.deltas = [] := not_not.1 fun hqueue => hbehind (Or.inl hqueue)
  have hresync : e.reporter.needsResync = false := by simpa using fun hresync => hbehind (Or.inr hresync)
  have hm := h.mending.mends location e he
  have harrived : arrived ends (after ends past) = ((after ends past).service.registry, []) := by
    rw [arrived, hto, hback]
    rfl
  rw [harrived] at hm
  constructor
  · rintro ⟨c, hc, hs, -⟩ hmissed
    obtain ⟨-, c', hc', hlost⟩ := hm.missed hmissed
    obtain rfl := Option.some.inj (hc.symm.trans hc')
    exact absurd (hs.symm.trans hlost) (by simp)
  · intro hmissed
    obtain ⟨c, hc⟩ := hm.spoken hspoke
    have hs : c.synchronized = true := by
      rw [← Bool.not_eq_false]
      intro hlost
      rcases hm.lost c hc hlost with hr | ⟨m, hm, -⟩ | hm
      · exact absurd (hr.symm.trans hresync) (by simp)
      · exact absurd hm List.not_mem_nil
      · exact hmissed hm
    have happly := (hm.mirrored c hc hs).2
    rw [hqueue, Text.Delta.applyAll_nil] at happly
    exact ⟨c, hc, hs, Except.ok.inj happly⟩

theorem unread_of_tails {past : List Action} (hdark : ∀ l, ∀ a ∈ past, Dark l a)
    (hapart : ∀ t ∈ past.tails, ∀ k ∈ (after ends t).session.editors.keys,
      ∀ l ∈ (after ends t).session.editors.keys, Path.clean k = Path.clean l → k = l) : Unread ends past := by
  induction past with
  | nil => exact .start
  | cons a past ih =>
    refine .step a (ih (fun l b hb => hdark l b (List.mem_cons_of_mem _ hb)) fun t ht => ?_)
      (hdark _ a List.mem_cons_self) (apart_of_keys (hapart _ (by simp)))
    exact hapart t (by simp [ht])

/-- A new document is edited, and the server asks for it. It is moved when the session has the request, and
flushed. -/
def movedLater : List Action :=
  [.serve .dark, .serve .dark, .input (.tick ⟨"/p/b", 3, 2000⟩), .input (.ring ⟨"/p/b", 3, 2000⟩),
    .input (.pass 1000), .input (.host (.moved "/p/a" "/p/b")), .receive, .serve .dark, .serve .dark,
    .input (.tick ⟨"/p/a", 1, 1000⟩), .input (.ring ⟨"/p/a", 1, 1000⟩), .input (.pass 1000),
    .input (.host (.changed "/p/a" ⟨0, 0, some "x"⟩)), .input (.host (.opened ⟨"/p/a", "/p", "abc", false⟩))]

theorem healed_iff_movedLater :
    ∃ e, (after brieflyEnds movedLater).session.editors.get? "/p/b" = some e ∧ e.document.contents = "xabc" ∧
      (after brieflyEnds movedLater).service.registry.Shows "/p/b" e.document.contents := by
  have hopen : ((after brieflyEnds movedLater).session.editors.get? "/p/b").map (fun e =>
      (e.document.contents, e.capture.queue.deltas, e.reporter.needsResync)) =
        some ("xabc", [], false) := by decide +kernel
  obtain ⟨e, he, heq⟩ := Option.map_eq_some_iff.1 hopen
  obtain ⟨hcontents, hrest⟩ := Prod.mk.inj heq
  obtain ⟨hqueue, hresync⟩ := Prod.mk.inj hrest
  have hunread : Unread brieflyEnds movedLater :=
    unread_of_tails (by simp [movedLater, Dark, Parcel.unreadable_dark]) (by decide +kernel)
  have hnothing : (after brieflyEnds movedLater).toServer.length = 0 ∧
      (after brieflyEnds movedLater).toClient = [] ∧
      (after brieflyEnds movedLater).session.hasPendingFlush "/p/b" = false := by decide +kernel
  obtain ⟨hto, hback, hidle⟩ := hnothing
  have hstays : ∀ n ≤ 2, (after brieflyEnds (movedLater.drop n)).session.isOpen "/p/b" = true := by
    decide +kernel
  have hflushed : changesOf "/p/b" ((after brieflyEnds (movedLater.drop 3)).sent brieflyEnds
      (.input (.tick ⟨"/p/b", 3, 2000⟩))) ≠ [] := by decide +kernel
  have hspoke : Spoke brieflyEnds movedLater "/p/b" :=
    .later (.later (Or.inl hflushed) (hstays 2 (by decide))) (hstays 1 (by decide))
  have hmissed : ¬ Missed brieflyEnds movedLater "/p/b" := fun hmissed =>
    hflushed ((hmissed.earlier (hstays 1 (by decide))).earlier (hstays 2 (by decide))).2.1
  have hbehind : ¬ e.Behind := by
    rintro (h | h)
    · exact h hqueue
    · exact absurd (h.symm.trans hresync) (by simp)
  exact ⟨e, he, hcontents, (healed_iff brieflyEnds hunread (List.length_eq_zero_iff.1 hto) hback he hidle
    (fun h => absurd h hbehind) hspoke).2 hmissed⟩

/-- It is moved before the server has even got its edit. -/
def movedEarlier : List Action :=
  [.receive, .serve .dark, .serve .dark, .serve .dark, .input (.host (.moved "/p/a" "/p/b")),
    .input (.tick ⟨"/p/a", 1, 1000⟩), .input (.ring ⟨"/p/a", 1, 1000⟩), .input (.pass 1000),
    .input (.host (.changed "/p/a" ⟨0, 0, some "x"⟩)), .input (.host (.opened ⟨"/p/a", "/p", "abc", false⟩))]

/-- Then nobody answers the request of the server, and its copy stays as it is. -/
theorem unhealed_movedEarlier :
    ¬ ∀ (ends : Ends) (past : List Action), Unread ends past → (after ends past).toServer = [] →
      (after ends past).toClient = [] → (after ends past).session.scheduler.pool = [] →
      (∀ location, (after ends past).session.hasPendingFlush location = false) →
      (∀ location e, (after ends past).session.editors.get? location = some e →
        e.capture.queue.deltas = []) →
      ∀ location e, (after ends past).session.editors.get? location = some e → Spoke ends past location →
        (after ends past).service.registry.Shows location e.document.contents := by
  intro hheals
  have hopen : ((after brieflyEnds movedEarlier).session.editors.get? "/p/b").map (fun e =>
      e.capture.queue.deltas) = some [] := by decide +kernel
  obtain ⟨e, he, hqueue⟩ := Option.map_eq_some_iff.1 hopen
  have hunread : Unread brieflyEnds movedEarlier :=
    unread_of_tails (by simp [movedEarlier, Dark, Parcel.unreadable_dark]) (by decide +kernel)
  have hnothing : (after brieflyEnds movedEarlier).toServer.length = 0 ∧
      (after brieflyEnds movedEarlier).toClient = [] ∧
      (after brieflyEnds movedEarlier).session.scheduler.pool = [] ∧
      (after brieflyEnds movedEarlier).session.scheduler.current.keys = [] ∧
      (after brieflyEnds movedEarlier).session.editors.keys = ["/p/b"] := by decide +kernel
  obtain ⟨hto, hback, hpool, hcurrent, hkeys⟩ := hnothing
  have hidle : ∀ location, (after brieflyEnds movedEarlier).session.hasPendingFlush location = false := by
    intro location
    rw [Session.hasPendingFlush_eq, ← Bool.not_eq_true]
    exact fun hpending => absurd ((Table.mem_keys _ location).2 hpending) (by simp [hcurrent])
  have hqueues : ∀ location e, (after brieflyEnds movedEarlier).session.editors.get? location = some e →
      e.capture.queue.deltas = [] := by
    intro location e' he'
    have hlocation : location = "/p/b" := by
      simpa [hkeys] using (Table.mem_keys _ location).2 (Option.isSome_of_eq_some he')
    subst hlocation
    obtain rfl := Option.some.inj (he.symm.trans he')
    exact hqueue
  have hflushed : changesOf "/p/a" ((after brieflyEnds (movedEarlier.drop 6)).sent brieflyEnds
      (.input (.tick ⟨"/p/a", 1, 1000⟩))) ≠ [] := by decide +kernel
  have horigin : (after brieflyEnds (movedEarlier.drop 5)).origin
      (.input (.host (.moved "/p/a" "/p/b"))) "/p/b" = some "/p/a" := by decide +kernel
  have hstays : ∀ n ≤ 4, (after brieflyEnds (movedEarlier.drop n)).session.isOpen "/p/b" = true := by
    decide +kernel
  have hmoved : Spoke brieflyEnds (movedEarlier.drop 4) "/p/b" := Or.inr ⟨"/p/a", horigin, Or.inl hflushed⟩
  have hspoke : Spoke brieflyEnds movedEarlier "/p/b" :=
    (((hmoved.later (hstays 4 (by decide))).later (hstays 3 (by decide))).later (hstays 2 (by decide))).later
      (hstays 1 (by decide))
  obtain ⟨c, hc, hs, -⟩ := hheals brieflyEnds movedEarlier hunread (List.length_eq_zero_iff.1 hto) hback hpool
    hidle hqueues "/p/b" e he hspoke
  have hlost : ((after brieflyEnds movedEarlier).service.registry.find "/p/b").map (·.synchronized) =
      some false := by decide +kernel
  rw [hc] at hlost
  exact absurd (hs.symm.trans (Option.some.inj hlost)) (by simp)

end Link
end EditSync
