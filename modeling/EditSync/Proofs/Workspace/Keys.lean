import EditSync.Proofs.Workspace.Freshness
import EditSync.Proofs.Workspace.Frozen

/-! Keys and locations. Whatever is asked of a server, by whichever spellings, every copy is found under
the clean form of its own location. So no file has two copies, and a result says which file was
analysed. -/

namespace EditSync

namespace Registry

def Keyed (r : Registry) : Prop := ∀ k copy, r.copies.get? k = some copy → Path.clean copy.location = k

variable {r : Registry} {k k' : String} {copy copy' : WorkingCopy}

theorem keyed_empty : Keyed {} := fun _ _ h => absurd h (by simp)

theorem Keyed.clean_key (hr : r.Keyed) (hk : r.copies.get? k = some copy) : Path.clean k = k := by
  rw [← hr k copy hk, Path.clean_clean]

/-- Two copies of one file are one. -/
theorem Keyed.unique (hr : r.Keyed) (hk : r.copies.get? k = some copy) (hk' : r.copies.get? k' = some copy')
    (same : Path.clean copy.location = Path.clean copy'.location) : k = k' :=
  calc k = Path.clean copy.location := (hr k copy hk).symm
    _ = Path.clean copy'.location := same
    _ = k' := hr k' copy' hk'

theorem location_act {source : Source} {q : FileRequest}
    (before : ∀ c ∈ r.copies.get? q.key, Path.clean c.location = q.key)
    (after : (q.act source (r.copies.get? q.key)).1 = some copy) : Path.clean copy.location = q.key := by
  generalize r.copies.get? q.key = there at before after
  cases q with
  | start path project =>
    cases there with
    | some c =>
      obtain rfl := Option.some.inj after
      exact before c rfl
    | none =>
      rw [FileRequest.act] at after
      cases hread : source (Path.clean path) with
      | ok content =>
        rw [hread] at after
        obtain rfl := Option.some.inj after
        rfl
      | error e =>
        rw [hread] at after
        cases after
  | stop path => cases after
  | setState path state =>
    cases there with
    | some c =>
      obtain rfl := Option.some.inj after
      exact before c rfl
    | none => cases after
  | change endpoint change =>
    have hcopy : (changeCopy ((there.getD (fresh source (Path.clean change.location) change.location
        change.project)).noteSender endpoint change.owner) change).1 = copy := Option.some.inj after
    rw [← hcopy, location_changeCopy]
    cases there with
    | some c => exact before c rfl
    | none => exact congrArg Path.clean (location_fresh source (Path.clean change.location) _ _)

theorem Keyed.perform (hr : r.Keyed) (source : Source) (op : RegistryOp) : (r.perform source op).Keyed := by
  intro k copy hk
  cases op with
  | ask q =>
    rw [Registry.perform, (r.serve_spec source q).2] at hk
    split at hk
    · next hkey => rw [hkey, location_act (fun c hc => hr q.key c hc) hk]
    · exact hr k copy hk
  | move oldPath newPath project =>
    rw [Registry.perform] at hk
    rcases r.move_cases oldPath newPath project with
      ⟨-, hmove⟩ | ⟨there, r', -, -, hmove, copies⟩ | ⟨e, -, -, hmove⟩
    · rw [hmove] at hk
      exact hr k copy hk
    · rw [hmove] at hk
      simp only [copies] at hk
      split at hk
      · next hkey =>
        obtain rfl := Option.some.inj hk
        exact hkey.symm
      · split at hk
        · cases hk
        · exact hr k copy hk
    · rw [hmove] at hk
      exact hr k copy hk

end Registry

namespace Course

/-- All copies are keyed, and every analysis that runs and every result that was handed over names the
file of its key. -/
structure Keyed (env : Setting) (c : Course) : Prop where
  sound : c.service.Sound
  registry : c.service.registry.Keyed
  running : ∀ a ∈ c.service.running, Path.clean a.copy.location = a.key
  handed : ∀ a m, .handed a m ∈ c.notes →
    ∃ analysis location, env.engine a.key a.copy.content = .ok analysis ∧
      m = ⟨a.endpoint, .result ⟨analysis, location⟩⟩ ∧ Path.clean location = a.key

variable {env : Setting} {c : Course}

theorem keyed_start (env : Setting) : Keyed env { source := env.source } :=
  ⟨Service.sound_start, Registry.keyed_empty, fun _ ha => absurd ha List.not_mem_nil,
    fun _ _ h => absurd h List.not_mem_nil⟩

theorem handed_notMem_accepting (a : RunningAnalysis) (m : Message) (result : Except SyncError Unit)
    (path : String) : .handed a m ∉ accepting result path := by
  cases result <;> simp [accepting]

/-- Only a completion hands over a result, that of its analysis. -/
theorem handed_step {a : RunningAnalysis} {m : Message} {i : Input}
    (h : .handed a m ∈ (c.step env i).notes) :
    .handed a m ∈ c.notes ∨
      a ∈ c.service.running ∧ m ∈ (c.service.complete (c.setting env) a).2 := by
  cases i with
  | change endpoint change =>
    exact (List.mem_append.1 h).imp_right fun h => absurd h (handed_notMem_accepting a m _ _)
  | file endpoint o =>
    refine (List.mem_append.1 h).imp_right fun h => ?_
    split at h
    · exact absurd h (handed_notMem_accepting a m _ _)
    · exact absurd h List.not_mem_nil
  | schedule path endpoint => exact Or.inl h
  | begin q =>
    rw [step] at h
    split at h <;> exact Or.inl h
  | complete b =>
    rw [step] at h
    split at h
    · next hb =>
      refine (List.mem_append.1 h).imp_right fun h => ?_
      obtain ⟨m', hm, heq⟩ := List.mem_map.1 h
      obtain ⟨rfl, rfl⟩ := Note.handed.inj heq
      exact ⟨hb, hm⟩
    · exact Or.inl h
  | saved source => exact Or.inl h

theorem Keyed.step (hc : Keyed env c) (i : Input) : Keyed env (c.step env i) := by
  refine ⟨sound_step env hc.sound i, ?_, fun a ha => ?_, fun a m h => ?_⟩
  · have hregistry := registry_act env c (.serve i)
    rw [act] at hregistry
    rw [hregistry]
    cases Action.registryOp (.serve i) with
    | none => exact hc.registry
    | some op => exact hc.registry.perform c.source op
  · rcases running_step ha with ha | ⟨q, -, hq, hb⟩
    · exact hc.running a ha
    · obtain ⟨copy, hfind, -, rfl⟩ := Service.begun_eq_some.1 hb
      exact (hc.registry _ copy hfind).trans (hc.sound.waiting q hq)
  · rcases handed_step h with h | ⟨ha, hm⟩
    · exact hc.handed a m h
    · obtain ⟨analysis, -, hengine, -, -, rfl⟩ := Service.mem_outcome.1 hm
      exact ⟨analysis, a.copy.location, hengine, rfl, hc.running a ha⟩

theorem Keyed.act (hc : Keyed env c) (a : Action) : Keyed env (c.act env a) := by
  cases a with
  | serve i => exact hc.step i
  | perform op => exact ⟨hc.sound.of_registry _, hc.registry.perform c.source op, hc.running, hc.handed⟩

theorem Keyed.actAll (hc : Keyed env c) (actions : List Action) : Keyed env (c.actAll env actions) := by
  induction actions generalizing c with
  | nil => exact hc
  | cons a actions ih => exact ih (hc.act a)

/-- At any time, every key is its own clean form and the clean form of the location of its copy. So no
file has two copies; and the location that a result carries is one of the file that was analysed. -/
theorem keys_consistent (env : Setting) (actions : List Action) :
    let c := actAll env { source := env.source } actions
    (∀ k copy, c.service.registry.copies.get? k = some copy →
      Path.clean k = k ∧ Path.clean copy.location = k) ∧
    (∀ k k' copy copy', c.service.registry.copies.get? k = some copy →
      c.service.registry.copies.get? k' = some copy' →
      Path.clean copy.location = Path.clean copy'.location → k = k') ∧
    ∀ a m, .handed a m ∈ c.notes →
      ∃ analysis location, env.engine a.key a.copy.content = .ok analysis ∧
        m = ⟨a.endpoint, .result ⟨analysis, location⟩⟩ ∧ Path.clean location = a.key := by
  intro c
  have hc : Keyed env c := (keyed_start env).actAll actions
  exact ⟨fun k copy hk => ⟨hc.registry.clean_key hk, hc.registry k copy hk⟩,
    fun k k' copy copy' hk hk' => hc.registry.unique hk hk', hc.handed⟩

def spelled : List Action :=
  [.serve (.file "client-1" { action := .start, path := "/p/./a" }),
    .serve (.begin ⟨"/p/a", "client-1"⟩),
    .serve (.complete ⟨"/p/a", .started "/p/./a" none "ab", "client-1"⟩),
    .serve (.change "client-2" (.ofContent "text" "/p//b" "" "o")),
    .perform (.move "/p/a/" "/p/c/../b" (some "/q")),
    .serve (.file "client-1" { action := .move, path := "/p/b/.", oldPath := some "/p/b" }),
    .perform (.ask (.start "q/../../c" none))]

theorem keys_consistent_spelled :
    let c := actAll { source := fun _ => .ok "ab" } { source := fun _ => .ok "ab" } spelled
    ∃ copy copy' a, c.service.registry.copies.get? "/p/b" = some copy ∧
      copy.location = "/p/c/../b" ∧ Path.clean copy.location = "/p/b" ∧
      c.service.registry.copies.get? "../c" = some copy' ∧ Path.clean "../c" = "../c" ∧
      Path.clean copy.location ≠ Path.clean copy'.location ∧
      .handed a ⟨"client-1", .result ⟨{}, "/p/./a"⟩⟩ ∈ c.notes ∧ Path.clean "/p/./a" = a.key := by
  intro c
  obtain ⟨hkeys, hunique, hhanded⟩ := keys_consistent { source := fun _ => .ok "ab" } spelled
  have hb : c.service.registry.copies.get? "/p/b" =
      some { location := "/p/c/../b", project := "/q", content := "ab" } := by decide +kernel
  have hc : c.service.registry.copies.get? "../c" =
      some { location := "q/../../c", project := "/..", content := "ab" } := by decide +kernel
  have hsent : (⟨"client-1", .result ⟨{}, "/p/./a"⟩⟩ : Message) ∈ c.sent := by decide +kernel
  obtain ⟨note, hnote, hmessage⟩ := List.mem_filterMap.1 hsent
  obtain ⟨a, rfl⟩ : ∃ a, note = .handed a ⟨"client-1", .result ⟨{}, "/p/./a"⟩⟩ := by
    cases note with
    | accepted key => cases hmessage
    | handed a m => exact ⟨a, by rw [Option.some.inj hmessage]⟩
  obtain ⟨analysis, location, -, hm, hkey⟩ := hhanded a _ hnote
  refine ⟨_, _, a, hb, rfl, (hkeys _ _ hb).2, hc, (hkeys _ _ hc).1, fun h => ?_, hnote, ?_⟩
  · exact absurd (hunique _ _ _ _ hb hc h) (by decide)
  · obtain ⟨-, rfl⟩ := ReconcileResult.mk.inj (Payload.result.inj (Message.mk.inj hm).2)
    exact hkey

end Course
end EditSync
