import EditSync.Proofs.Link.Convergence

/-! To whom a server sends. It answers nobody but those who sent it something, so with one client all its
messages are for that client, and a channel back needs no addresses. -/

namespace EditSync

namespace Service

variable {p : String → Prop} {s : Service}

/-- All whom the server may still have to answer satisfy `p`. -/
structure Answers (p : String → Prop) (s : Service) : Prop where
  copies : ∀ k c, s.registry.copies.get? k = some c → ∀ endpoint, c.endpoint = some endpoint → p endpoint
  waiting : ∀ q ∈ s.waiting, p q.endpoint
  running : ∀ a ∈ s.running, p a.endpoint

theorem Answers.schedule (h : s.Answers p) {endpoint : String} (hp : p endpoint) (env : Setting)
    (path : String) : (schedule env s path endpoint).Answers p := by
  refine ⟨by rw [registry_schedule]; exact h.copies, ?_, by rw [running_schedule]; exact h.running⟩
  rcases schedule_cases env s path endpoint with ⟨hs, -⟩ | hs
  · rw [hs]
    exact h.waiting
  · rw [hs]
    intro q hq
    rcases List.mem_append.1 hq with hq | hq
    · exact h.waiting q hq
    · rw [List.mem_singleton.1 hq]
      exact hp

theorem Answers.onChange (h : s.Answers p) {endpoint : String} (hp : p endpoint) (env : Setting)
    (change : TextChange) :
    (onChange env s endpoint change).service.Answers p ∧
      ∀ m ∈ (onChange env s endpoint change).sent, p m.receiver := by
  have happly : Answers p { s with registry := (s.registry.apply env.source change endpoint).1 } := by
    refine ⟨fun k c hk sender hsender => ?_, h.waiting, h.running⟩
    rw [Registry.get?_apply] at hk
    split at hk
    · obtain ⟨content, revision, synchronized, hframe⟩ :=
        Registry.changeCopy_frame (s.registry.target env.source change endpoint) change
      rw [← Option.some.inj hk, hframe] at hsender
      exact Option.some.inj hsender ▸ hp
    · exact h.copies k c hk sender hsender
  rcases onChange_cases env s endpoint change with ⟨n, -, hr⟩ | ⟨e, -, hr⟩
  · rw [hr]
    exact ⟨happly.schedule hp env _, fun m hm => absurd hm List.not_mem_nil⟩
  · rw [hr]
    refine ⟨happly, fun m hm => ?_⟩
    split at hm
    · rw [List.mem_singleton.1 hm]
      exact hp
    · exact absurd hm List.not_mem_nil

theorem Answers.of_copies (h : s.Answers p) {r : Registry}
    (hcopies : ∀ k c', r.copies.get? k = some c' →
      c'.endpoint = none ∨ ∃ k c, s.registry.copies.get? k = some c ∧ c'.endpoint = c.endpoint) :
    Answers p { s with registry := r } := by
  refine ⟨fun k c' hk endpoint hendpoint => ?_, h.waiting, h.running⟩
  rcases hcopies k c' hk with hnone | ⟨k, c, hc, hsame⟩
  · exact absurd (hnone.symm.trans hendpoint) (by simp)
  · exact h.copies k c hc endpoint (hsame ▸ hendpoint)

theorem Answers.onFileOperation (h : s.Answers p) {endpoint : String} (hp : p endpoint) (env : Setting)
    (o : FileOperation) : (Service.onFileOperation env s endpoint o).service.Answers p := by
  have hop := operated env s endpoint o
  generalize Service.onFileOperation env s endpoint o = reaction at hop ⊢
  cases hop with
  | refused e => exact h
  | tracked copy action found => exact h.schedule hp env _
  | started content r action found read copies =>
    refine (h.of_copies fun k c' hk => ?_).schedule hp env _
    rw [copies] at hk
    split at hk
    · exact Or.inl (by rw [← Option.some.inj hk]; rfl)
    · exact Or.inr ⟨k, c', hk, rfl⟩
  | stopped action =>
    refine h.of_copies fun k c' hk => ?_
    rw [Registry.get?_stop] at hk
    split at hk
    · exact absurd hk (by simp)
    · exact Or.inr ⟨k, c', hk, rfl⟩
  | stated state copy r action found copies =>
    refine h.of_copies fun k c' hk => ?_
    rw [copies] at hk
    split at hk
    · exact Or.inr ⟨_, copy, found, by rw [← Option.some.inj hk]⟩
    · exact Or.inr ⟨k, c', hk, rfl⟩
  | stayed oldPath action old same => exact h.schedule hp env _
  | moved oldPath copy r action old other found copies =>
    refine (h.of_copies fun k c' hk => ?_).schedule hp env _
    rw [copies] at hk
    split at hk
    · exact Or.inr ⟨_, copy, found, by rw [← Option.some.inj hk]; rfl⟩
    · split at hk
      · exact absurd hk (by simp)
      · exact Or.inr ⟨k, c', hk, rfl⟩

theorem Answers.begin (h : s.Answers p) {q : AnalysisRequest} (hq : q ∈ s.waiting) :
    (s.begin q).Answers p := by
  rw [begin_eq]
  refine ⟨h.copies, fun r hr => h.waiting r (List.mem_of_mem_erase hr), fun a ha => ?_⟩
  rcases List.mem_append.1 ha with ha | ha
  · exact h.running a ha
  · obtain ⟨copy, found, -, rfl⟩ := begun_eq_some.1 (Option.mem_toList.1 ha)
    dsimp only
    cases hendpoint : copy.endpoint with
    | none => exact h.waiting q hq
    | some endpoint => exact h.copies _ copy found endpoint hendpoint

theorem Answers.complete (h : s.Answers p) (env : Setting) {a : RunningAnalysis} (ha : a ∈ s.running) :
    (complete env s a).1.Answers p ∧ ∀ m ∈ outcome env s a, p m.receiver := by
  refine ⟨⟨h.copies, h.waiting, fun b hb => h.running b (List.mem_of_mem_erase hb)⟩, fun m hm => ?_⟩
  obtain ⟨-, -, -, -, -, rfl⟩ := mem_outcome.1 hm
  exact h.running a ha

end Service

namespace Link

open Service

/-- Everything that is on its way to the client, or will be, is for it. -/
structure Addressed (ends : Ends) (l : Link) : Prop where
  answers : l.service.Answers (· = ends.client)
  toClient : ∀ m ∈ l.toClient, m.receiver = ends.client

variable {ends : Ends} {l : Link}

theorem Addressed.serve (h : Addressed ends l) (source : Source) :
    Addressed ends (l.step ends (.serve source)) := by
  rw [step]
  split
  · exact h
  · next parcel rest hto =>
    obtain ⟨⟨receiver, payload⟩, opening⟩ := parcel
    dsimp only
    cases payload with
    | change c =>
      obtain ⟨hanswers, hsent⟩ := h.answers.onChange rfl { ends.env with source } c
      rw [take_change]
      refine ⟨hanswers, fun m hm => ?_⟩
      rcases List.mem_append.1 hm with hm | hm
      · exact h.toClient m hm
      · exact hsent m hm
    | file o =>
      rw [take_file, sent_onFileOperation, List.append_nil]
      exact ⟨h.answers.onFileOperation rfl { ends.env with source } o, h.toClient⟩
    | result r => exact ⟨h.answers, h.toClient⟩
    | resync r => exact ⟨h.answers, h.toClient⟩

theorem Addressed.step (h : Addressed ends l) (a : Action) : Addressed ends (l.step ends a) := by
  cases a with
  | input i => exact ⟨h.answers, h.toClient⟩
  | serve source => exact h.serve source
  | begin q =>
    rw [Link.step]
    split
    · next hq => exact ⟨h.answers.begin hq, h.toClient⟩
    · exact h
  | complete a =>
    rw [Link.step]
    split
    · next ha =>
      obtain ⟨hanswers, hsent⟩ := h.answers.complete ends.env ha
      refine ⟨hanswers, fun m hm => ?_⟩
      rcases List.mem_append.1 hm with hm | hm
      · exact h.toClient m hm
      · exact hsent m hm
    · exact h
  | receive =>
    rw [Link.step]
    split
    · exact h
    · next m rest hto =>
      exact ⟨h.answers, fun n hn => h.toClient n (by rw [hto]; exact List.mem_cons_of_mem _ hn)⟩

/-- Whatever happens on a link, the server sends to its client only. -/
theorem addressed (ends : Ends) (actions : List Action) :
    Addressed ends (actions.foldl (Link.step ends) (start ends)) := by
  suffices h : ∀ l, Addressed ends l → Addressed ends (actions.foldl (Link.step ends) l) by
    refine h _ ⟨⟨fun k c hk => ?_, fun q hq => ?_, fun a ha => ?_⟩, fun m hm => ?_⟩
    · exact absurd hk (by simp [start])
    · exact absurd hq List.not_mem_nil
    · exact absurd ha List.not_mem_nil
    · exact absurd hm List.not_mem_nil
  induction actions with
  | nil => exact fun l h => h
  | cons a actions ih => exact fun l h => ih _ (h.step a)

end Link

end EditSync
