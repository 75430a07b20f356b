import EditSync.Proofs.Workspace.Naming

/-! Who gets the reply. A message that is accepted asks for an analysis of the file that it names. Once
the service is at rest, the request that waited then was begun, and what was begun is completed. If
nothing named the file since, the result is about the copy of that moment. It goes to whoever changed
that copy last, and where nobody has, to whoever asked. -/

namespace EditSync

namespace Course

variable {env : Setting} {c : Course} {key : String} {i : Input}

/-- What ends only with a certain input holds when that input comes, if it has ended. -/
theorem exists_of_ended (holds : Course → Prop) {j : Input}
    (hstep : ∀ c, holds c → ∀ i, i = j ∨ holds (c.step env i)) (inputs : List Input) (hc : holds c)
    (hend : ¬ holds (runFrom env c inputs)) :
    ∃ before after, inputs = before ++ j :: after ∧ holds (runFrom env c before) := by
  induction inputs generalizing c with
  | nil => exact absurd hc hend
  | cons i inputs ih =>
    rcases hstep c hc i with rfl | hnext
    · exact ⟨[], inputs, rfl, hc⟩
    · obtain ⟨before, after, rfl, hbefore⟩ := ih hnext hend
      exact ⟨i :: before, after, rfl, hbefore⟩

theorem notes_runFrom (env : Setting) (c : Course) (inputs : List Input) :
    ∃ later, (runFrom env c inputs).notes = c.notes ++ later := by
  induction inputs generalizing c with
  | nil => exact ⟨[], (List.append_nil _).symm⟩
  | cons i inputs ih =>
    obtain ⟨later, hlater⟩ := ih (c.step env i)
    have hstep : ∃ news, (c.step env i).notes = c.notes ++ news := by
      cases hn : naming? env "" c i with
      | some n => exact ⟨_, (step_of_naming hn).2.1⟩
      | none =>
        obtain ⟨news, hnews, -⟩ := notes_of_unnamed hn
        exact ⟨news, hnews⟩
    obtain ⟨news, hnews⟩ := hstep
    exact ⟨news ++ later, by rw [runFrom_cons, hlater, hnews, List.append_assoc]⟩

variable {copy : WorkingCopy} {analysis : Analysis}

/-- At rest, an analysis that ran has had its result handed over, if the revision still is the one that
was analysed and nothing named the copy. -/
theorem handed_of_running {a : RunningAnalysis} (hs : c.service.Sound) (ha : a ∈ c.service.running)
    (inputs : List Input) (hn : lastTold env (naming? env a.key) c inputs = none)
    (hrest : (runFrom env c inputs).service.running = [])
    (hget : (runFrom env c inputs).service.registry.copies.get? a.key = some copy)
    (hsync : copy.synchronized = true) (hrevision : copy.revision = a.copy.revision)
    (hengine : env.engine a.key a.copy.content = .ok analysis) :
    ∃ later, (runFrom env c inputs).notes = c.notes ++ later ∧
      .handed a ⟨a.endpoint, .result ⟨analysis, a.copy.location⟩⟩ ∈ later := by
  obtain ⟨before, after, rfl, hrunning⟩ :=
    exists_of_ended (fun c => a ∈ c.service.running) (fun c => running_stays) inputs ha
      (by rw [hrest]; exact List.not_mem_nil)
  rw [lastTold_append, Option.or_eq_none_iff] at hn
  rw [runFrom_append] at hget ⊢
  obtain ⟨there, hthere, heq⟩ := copy_of_unnamed_runFrom _ hn.1 hget hsync
  have hout : (⟨a.endpoint, .result ⟨analysis, a.copy.location⟩⟩ : Message) ∈
      ((runFrom env c before).service.complete ((runFrom env c before).setting env) a).2 := by
    refine Service.mem_outcome.2 ⟨analysis, there, hengine, ?_, ?_, rfl⟩
    · rw [Registry.find_eq, hs.running a ha]
      exact hthere
    · rw [heq] at hrevision
      exact hrevision
  have hstep : ((runFrom env c before).step env (.complete a)).notes = (runFrom env c before).notes ++
      (((runFrom env c before).service.complete ((runFrom env c before).setting env) a).2).map
        (.handed a) := by
    rw [step, if_pos hrunning]
  obtain ⟨earlier, hearlier⟩ := notes_runFrom env c before
  obtain ⟨later, hlater⟩ := notes_runFrom env ((runFrom env c before).step env (.complete a)) after
  refine ⟨earlier ++ (_ ++ later), ?_,
    List.mem_append_right _ (List.mem_append_left _ (List.mem_map_of_mem hout))⟩
  rw [runFrom_cons, hlater, hstep, hearlier, List.append_assoc, List.append_assoc]

/-- At rest, a request that waited has had its result handed over. -/
theorem handed_of_waiting {q : AnalysisRequest} (hs : c.service.Sound) (hq : q ∈ c.service.waiting)
    (inputs : List Input) (hn : lastTold env (naming? env q.key) c inputs = none)
    (hwaiting : (runFrom env c inputs).service.waiting = [])
    (hrunning : (runFrom env c inputs).service.running = [])
    (hget : (runFrom env c inputs).service.registry.copies.get? q.key = some copy)
    (hsync : copy.synchronized = true) (hengine : env.engine q.key copy.content = .ok analysis) :
    ∃ later a, (runFrom env c inputs).notes = c.notes ++ later ∧ a.key = q.key ∧
      a.copy.content = copy.content ∧
      .handed a ⟨copy.endpoint.getD q.endpoint, .result ⟨analysis, copy.location⟩⟩ ∈ later := by
  obtain ⟨before, after, rfl, hq'⟩ :=
    exists_of_ended (fun c => q ∈ c.service.waiting) (fun c => waiting_step) inputs hq
      (by rw [hwaiting]; exact List.not_mem_nil)
  rw [lastTold_append, Option.or_eq_none_iff] at hn
  rw [runFrom_append] at hget hrunning ⊢
  -- the analysis begins on the copy that is still there at the end
  obtain ⟨there, hthere, heq⟩ := copy_of_unnamed_runFrom _ hn.1 hget hsync
  have hsound : (runFrom env c before).service.Sound := sound_runFrom env hs before
  let a : RunningAnalysis := ⟨q.key, there, there.endpoint.getD q.endpoint⟩
  have hbegun : (runFrom env c before).service.begun q = some a := by
    refine Service.begun_eq_some.2 ⟨there, ?_, ?_, rfl⟩
    · rw [Registry.find_eq, hs.waiting q hq]
      exact hthere
    · rw [heq] at hsync
      exact hsync
  have ha : a ∈ ((runFrom env c before).step env (.begin q)).service.running := by
    rw [step, if_pos hq', Service.begin_eq, hbegun]
    exact List.mem_append_right _ (List.mem_singleton_self a)
  rw [lastTold, Option.or_eq_none_iff] at hn
  obtain ⟨later, hlater, hhanded⟩ := handed_of_running (sound_step env hsound (.begin q)) ha after hn.1.1
    hrunning hget hsync (by rw [heq]) (by rw [heq] at hengine; exact hengine)
  obtain ⟨earlier, hearlier⟩ := notes_runFrom env c before
  have hstep : ((runFrom env c before).step env (.begin q)).notes = (runFrom env c before).notes := by
    rw [step, if_pos hq']
  refine ⟨earlier ++ later, a, ?_, rfl, by rw [heq], List.mem_append_right _ ?_⟩
  · rw [runFrom_cons, hlater, hstep, hearlier, List.append_assoc]
  · rw [heq]
    exact hhanded

/-- Who gets the result that a message asks for, of which it leaves this copy. -/
inductive Addressee (c : Course) (key : String) (copy : WorkingCopy) : Input → String → Prop
  | changer (endpoint : String) (change : TextChange) :
      Addressee c key copy (.change endpoint change) endpoint
  /-- A file that is moved keeps whoever changed it last. -/
  | lastChanger (endpoint last : String) (o : FileOperation) (action : o.action = .move)
      (noted : copy.endpoint = some last) : Addressee c key copy (.file endpoint o) last
  | changedBefore (endpoint : String) (o : FileOperation) (noted : copy.endpoint = some endpoint) :
      Addressee c key copy (.file endpoint o) endpoint
  /-- Nobody has changed the file, and nobody else has asked about it. -/
  | asker (endpoint : String) (o : FileOperation) (noted : copy.endpoint = none)
      (alone : ∀ q ∈ c.service.waiting, q.key = key → q.endpoint = endpoint) :
      Addressee c key copy (.file endpoint o) endpoint

theorem endpoint_step_change {endpoint : String} {change : TextChange}
    (hget : (c.step env (.change endpoint change)).service.registry.copies.get?
      (Path.clean change.location) = some copy) : copy.endpoint = some endpoint := by
  rw [step, changed, Service.registry_onChange, Registry.get?_apply, if_pos rfl] at hget
  obtain rfl := Option.some.inj hget
  rw [Registry.endpoint_changeCopy]
  rfl

/-- Once the service is at rest, the result for a key was handed over for its addressee after the last
message that was accepted and named the key. -/
theorem reply_at_rest (env : Setting) (ha : env.analyses = true) (before after : List Input) (i : Input)
    (key : String) (n : Naming) (hn : naming? env key (run env before) i = some n)
    (hlast : lastTold env (naming? env key) (run env (before ++ [i])) after = none)
    (hwaiting : (run env (before ++ i :: after)).service.waiting = [])
    (hrunning : (run env (before ++ i :: after)).service.running = []) (copy : WorkingCopy)
    (hget : (run env (before ++ i :: after)).service.registry.copies.get? key = some copy)
    (hsync : copy.synchronized = true) (analysis : Analysis)
    (hengine : env.engine key copy.content = .ok analysis) (receiver : String)
    (hto : (run env before).Addressee key copy i receiver) :
    ∃ later a, (run env (before ++ i :: after)).notes = (run env (before ++ [i])).notes ++ later ∧
      a.key = key ∧ a.copy.content = copy.content ∧
      .handed a ⟨receiver, .result ⟨analysis, copy.location⟩⟩ ∈ later := by
  have hrun : run env (before ++ i :: after) = runFrom env (run env (before ++ [i])) after := by
    rw [← run_append, List.append_assoc]
    rfl
  rw [hrun] at hwaiting hrunning hget ⊢
  obtain ⟨q, hq, hkey, hwho⟩ := waiting_of_naming ha (sound_run env before) hn
  rw [← run_concat] at hq
  subst hkey
  obtain ⟨later, a, hnotes, hakey, hcontent, hhanded⟩ :=
    handed_of_waiting (sound_run env _) hq after hlast hwaiting hrunning hget hsync hengine
  have hreceiver : copy.endpoint.getD q.endpoint = receiver := by
    cases hto with
    | changer endpoint change =>
      obtain ⟨there, hthere, heq⟩ := copy_of_unnamed_runFrom after hlast hget hsync
      rw [run_concat, ← (step_of_naming hn).1, eq_of_naming_change hn] at hthere
      rw [heq, endpoint_step_change hthere, Option.getD_some]
    | lastChanger endpoint last o action noted => rw [noted, Option.getD_some]
    | changedBefore endpoint o noted => rw [noted, Option.getD_some]
    | asker endpoint o noted alone =>
      rw [noted, Option.getD_none]
      rcases hwho with h | h
      · exact alone q h rfl
      · rw [h, eq_of_naming_file hn]
  exact ⟨later, a, hnotes, hakey, hcontent, hreceiver ▸ hhanded⟩

def edited : List Input :=
  [.file "client-1" { action := .start, path := "/p/a", project := some "/p" },
    .change "client-1" (.ofDelta (.insert 0 "x") "/p/a" "/p" "o"), .begin ⟨"/p/a", "client-1"⟩]

def movedByOther : Input := .file "client-2" (.moved "/p/a" "/p/b")

def movedCopy : WorkingCopy where
  location := "/p/b"
  project := "/p"
  content := "xab"
  revision := 1
  owner := some "o"
  endpoint := some "client-1"

def analysedAfterMove : List Input := [.begin ⟨"/p/b", "client-2"⟩,
  .complete ⟨"/p/a", { movedCopy with location := "/p/a" }, "client-1"⟩,
  .complete ⟨"/p/b", movedCopy, "client-1"⟩]

theorem reply_at_rest_moved :
    ∃ later a, (run { source := fun _ => .ok "ab" } (edited ++ movedByOther :: analysedAfterMove)).notes =
        (run { source := fun _ => .ok "ab" } (edited ++ [movedByOther])).notes ++ later ∧
      a.key = "/p/b" ∧ a.copy.content = "xab" ∧
      .handed a ⟨"client-1", .result ⟨{}, "/p/b"⟩⟩ ∈ later :=
  reply_at_rest { source := fun _ => .ok "ab" } rfl edited analysedAfterMove movedByOther "/p/b"
    ⟨"client-2", "/p/b"⟩ (by decide +kernel) (by decide +kernel) (by decide +kernel) (by decide +kernel)
    movedCopy (by decide +kernel) rfl {} rfl "client-1" (.lastChanger "client-2" "client-1" _ rfl rfl)

/-- Who moves a file that another has changed gets no result. -/
theorem mover_not_answered :
    ¬ ∀ (env : Setting) (before after : List Input) (i : Input) (key : String) (n : Naming)
      (copy : WorkingCopy) (analysis : Analysis), env.analyses = true →
      naming? env key (run env before) i = some n →
      lastTold env (naming? env key) (run env (before ++ [i])) after = none →
      (run env (before ++ i :: after)).service.waiting = [] →
      (run env (before ++ i :: after)).service.running = [] →
      (run env (before ++ i :: after)).service.registry.copies.get? key = some copy →
      copy.synchronized = true → env.engine key copy.content = .ok analysis →
      ∃ later a m, (run env (before ++ i :: after)).notes = (run env (before ++ [i])).notes ++ later ∧
        a.key = key ∧ m.receiver = n.endpoint ∧ .handed a m ∈ later := by
  intro h
  obtain ⟨later, a, m, hnotes, -, hreceiver, hhanded⟩ := h { source := fun _ => .ok "ab" } edited
    analysedAfterMove movedByOther "/p/b" ⟨"client-2", "/p/b"⟩ movedCopy {} rfl (by decide +kernel)
    (by decide +kernel) (by decide +kernel) (by decide +kernel) (by decide +kernel) rfl rfl
  have hsent : ∀ m ∈ (run { source := fun _ => .ok "ab" }
      (edited ++ movedByOther :: analysedAfterMove)).sent, m.receiver = "client-1" := by decide +kernel
  have hm := hsent m (List.mem_filterMap.2
    ⟨.handed a m, by rw [hnotes]; exact List.mem_append_right _ hhanded, rfl⟩)
  exact absurd (hreceiver.symm.trans hm) (by decide)

end Course
end EditSync
