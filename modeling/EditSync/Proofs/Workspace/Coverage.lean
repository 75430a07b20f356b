import EditSync.Proofs.Workspace.Naming

/-! No analysis is lost: once nothing waits and nothing runs, the result for each synchronized copy was
handed over after the last message that was accepted for its key, unless the engine fails on its
content. Requests are dropped while one waits, and results if the revision is another; both times
something newer is still to come. -/

namespace EditSync

namespace Course

/-- The result for a copy is to come, or will never be, or is among some notes. -/
inductive Owed (env : Setting) (c : Course) (k : String) (copy : WorkingCopy) (later : List Note) : Prop
  | waits (q : AnalysisRequest) (mem : q ∈ c.service.waiting) (key : q.key = k)
  | runs (a : RunningAnalysis) (mem : a ∈ c.service.running) (key : a.key = k)
      (content : a.copy.content = copy.content) (revision : a.copy.revision = copy.revision)
  | failed (e : SyncError) (engine : env.engine k copy.content = .error e)
  | handed (a : RunningAnalysis) (analysis : Analysis) (key : a.key = k)
      (content : a.copy.content = copy.content) (engine : env.engine k copy.content = .ok analysis)
      (mem : .handed a ⟨a.endpoint, .result ⟨analysis, a.copy.location⟩⟩ ∈ later)

/-- Every synchronized copy is owed its result since the last accepted message that names its key. -/
def Covered (env : Setting) (c : Course) : Prop :=
  ∀ k copy, c.service.registry.copies.get? k = some copy → copy.synchronized = true →
    ∃ earlier later, c.notes = earlier ++ .accepted k :: later ∧ .accepted k ∉ later ∧
      c.Owed env k copy later

variable {env : Setting} {c : Course}

/-- Without an analysis that begins or completes, a synchronized copy is one that was named and waits, or
one as it was. -/
theorem Covered.kept (ha : env.analyses = true) (hs : c.service.Sound) (hc : c.Covered env) (i : Input)
    (hwait : ∀ q ∈ c.service.waiting, q ∈ (c.step env i).service.waiting)
    (hrun : ∀ a ∈ c.service.running, a ∈ (c.step env i).service.running) :
    (c.step env i).Covered env := by
  intro k copy' hget' hsync'
  cases hn : naming? env k c i with
  | some n =>
    obtain ⟨q, hq, hkey, -⟩ := waiting_of_naming ha hs hn
    exact ⟨c.notes, [], (step_of_naming hn).2.1, List.not_mem_nil, .waits q hq hkey⟩
  | none =>
    obtain ⟨news, hnews, hnone⟩ := notes_of_unnamed hn
    obtain ⟨copy, hget, heq⟩ := copy_of_unnamed hn hget' hsync'
    obtain ⟨hsync, hcontent, hrevision⟩ : copy.synchronized = true ∧ copy'.content = copy.content ∧
        copy'.revision = copy.revision := by
      rw [heq] at hsync' ⊢
      exact ⟨hsync', rfl, rfl⟩
    obtain ⟨earlier, later, hnotes, hlast, howed⟩ := hc k copy hget hsync
    refine ⟨earlier, later ++ news, ?_, ?_, ?_⟩
    · rw [hnews, hnotes, List.append_assoc, List.cons_append]
    · rw [List.mem_append, not_or]
      exact ⟨hlast, hnone⟩
    · cases howed with
      | waits q mem key => exact .waits q (hwait q mem) key
      | runs a mem key content revision =>
        exact .runs a (hrun a mem) key (content.trans hcontent.symm) (revision.trans hrevision.symm)
      | failed e engine => exact .failed e (hcontent ▸ engine)
      | handed a analysis key content engine mem =>
        exact .handed a analysis key (content.trans hcontent.symm) (hcontent ▸ engine)
          (List.mem_append_left _ mem)

theorem covered_begin (hs : c.service.Sound) (hc : c.Covered env) (q : AnalysisRequest) :
    (c.step env (.begin q)).Covered env := by
  rw [step]
  split
  · next hq =>
    rw [Service.begin_eq]
    intro k copy hget hsync
    obtain ⟨earlier, later, heq, hlast, howed⟩ := hc k copy hget hsync
    refine ⟨earlier, later, heq, hlast, ?_⟩
    cases howed with
    | waits p mem key =>
      by_cases hp : p = q
      · -- it begins on the copy as it is now
        have hfind : c.service.registry.find q.key = some copy := by
          rw [Registry.find_eq, hs.waiting q hq, ← hp, key]
          exact hget
        have hbegun := Service.begun_eq_some.2 ⟨copy, hfind, hsync, rfl⟩
        exact .runs _ (List.mem_append_right _ (by rw [hbegun]; exact List.mem_singleton_self _))
          (hp ▸ key) rfl rfl
      · exact .waits p ((List.mem_erase_of_ne hp).2 mem) key
    | runs a mem key content revision =>
      exact .runs a (List.mem_append_left _ mem) key content revision
    | failed e engine => exact .failed e engine
    | handed a analysis key content engine mem => exact .handed a analysis key content engine mem
  · exact hc

theorem covered_complete (hs : c.service.Sound) (hc : c.Covered env) (a : RunningAnalysis) :
    (c.step env (.complete a)).Covered env := by
  rw [step]
  split
  · next ha =>
    intro k copy hget hsync
    obtain ⟨earlier, later, heq, hlast, howed⟩ := hc k copy hget hsync
    refine ⟨earlier, later ++ ((c.service.complete (c.setting env) a).2).map (.handed a), ?_, ?_, ?_⟩
    · simp [heq]
    · rw [List.mem_append, not_or]
      exact ⟨hlast, by simp⟩
    · cases howed with
      | waits q mem key => exact .waits q mem key
      | runs b mem key content revision =>
        by_cases hb : b = a
        · subst hb
          cases hengine : env.engine k copy.content with
          | error e => exact .failed e hengine
          | ok analysis =>
            have hfind : c.service.registry.find b.key = some copy := by
              rw [Registry.find_eq, hs.running b ha, key]
              exact hget
            have hout : (⟨b.endpoint, .result ⟨analysis, b.copy.location⟩⟩ : Message) ∈
                (c.service.complete (c.setting env) b).2 :=
              Service.mem_outcome.2
                ⟨analysis, copy, by rw [key, content]; exact hengine, hfind, revision.symm, rfl⟩
            exact .handed b analysis key content hengine
              (List.mem_append_right _ (List.mem_map_of_mem hout))
        · exact .runs b ((List.mem_erase_of_ne hb).2 mem) key content revision
      | failed e engine => exact .failed e engine
      | handed b analysis key content engine mem =>
        exact .handed b analysis key content engine (List.mem_append_left _ mem)
  · exact hc

theorem covered_step (ha : env.analyses = true) (hs : c.service.Sound) (hc : c.Covered env)
    (i : Input) : (c.step env i).Covered env := by
  have hkept : (∀ q, i ≠ .begin q) → (∀ a, i ≠ .complete a) → (c.step env i).Covered env :=
    fun hb hd => hc.kept ha hs i (fun q hq => (waiting_step hq i).resolve_left (hb q))
      fun a ha => (running_stays ha i).resolve_left (hd a)
  cases i with
  | begin q => exact covered_begin hs hc q
  | complete a => exact covered_complete hs hc a
  | change endpoint change => exact hkept nofun nofun
  | file endpoint o => exact hkept nofun nofun
  | schedule path endpoint => exact hkept nofun nofun
  | saved source => exact hkept nofun nofun

theorem covered_run (ha : env.analyses = true) (inputs : List Input) : (run env inputs).Covered env := by
  induction inputs using List.reverseRecOn with
  | nil => exact fun k copy hget => absurd hget (by simp [run])
  | append_singleton inputs i ih =>
    rw [run_concat]
    exact covered_step ha (sound_run env inputs) ih i

/-- Once the service is at rest, each synchronized copy whose content can be analysed has had its result
handed over since the last accepted message that names its key. -/
theorem result_handed_at_rest (env : Setting) (ha : env.analyses = true) (inputs : List Input)
    (hwaiting : (run env inputs).service.waiting = []) (hrunning : (run env inputs).service.running = [])
    (path : String) (copy : WorkingCopy)
    (hfind : (run env inputs).service.registry.find path = some copy)
    (hsync : copy.synchronized = true) (analysis : Analysis)
    (hengine : env.engine (Path.clean path) copy.content = .ok analysis) :
    ∃ earlier later a,
      (run env inputs).notes = earlier ++ .accepted (Path.clean path) :: later ∧
        .accepted (Path.clean path) ∉ later ∧
        a.key = Path.clean path ∧ a.copy.content = copy.content ∧
        .handed a ⟨a.endpoint, .result ⟨analysis, a.copy.location⟩⟩ ∈ later := by
  obtain ⟨earlier, later, heq, hlast, howed⟩ := covered_run ha inputs (Path.clean path) copy hfind hsync
  cases howed with
  | waits q mem key =>
    rw [hwaiting] at mem
    exact absurd mem List.not_mem_nil
  | runs a mem key content revision =>
    rw [hrunning] at mem
    exact absurd mem List.not_mem_nil
  | failed e engine => exact absurd (engine.symm.trans hengine) (by simp)
  | handed a result key content engine mem =>
    obtain rfl := Except.ok.inj (engine.symm.trans hengine)
    exact ⟨earlier, later, a, heq, hlast, key, content, mem⟩

def editedMeanwhile : List Input :=
  let started : WorkingCopy := { location := "/p/./a", project := "/p", content := "ab" }
  let edited : WorkingCopy :=
    { started with content := "TODO ab", revision := 1, owner := some "o", endpoint := some "two" }
  [.file "one" { action := .start, path := "/p/./a", project := some "/p" }, .begin ⟨"/p/a", "one"⟩,
    .change "two" (.ofDelta (.insert 0 "TODO ") "/p/a" "/p" "o"), .begin ⟨"/p/a", "two"⟩,
    .complete ⟨"/p/a", started, "one"⟩, .complete ⟨"/p/a", edited, "two"⟩]

theorem result_handed_after_edit :
    ∃ earlier later a,
      (run { source := fun _ => .ok "ab", engine := Markers.engine } editedMeanwhile).notes =
          earlier ++ .accepted (Path.clean "/p/a") :: later ∧
        .accepted (Path.clean "/p/a") ∉ later ∧
        a.key = Path.clean "/p/a" ∧ a.copy.content = "TODO ab" ∧
        .handed a ⟨a.endpoint, .result ⟨{ highlights := [⟨0, 4, "todo"⟩] }, a.copy.location⟩⟩ ∈ later :=
  result_handed_at_rest { source := fun _ => .ok "ab", engine := Markers.engine } rfl editedMeanwhile
    (by decide +kernel) (by decide +kernel) "/p/a"
    { location := "/p/./a"
      project := "/p"
      content := "TODO ab"
      revision := 1
      owner := some "o"
      endpoint := some "two" }
    (by decide +kernel) rfl { highlights := [⟨0, 4, "todo"⟩] } (by decide +kernel)

end Course
end EditSync
