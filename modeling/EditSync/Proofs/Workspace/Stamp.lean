import EditSync.Proofs.Workspace.Freshness
import EditSync.Proofs.Workspace.Naming

/-! Which spelling of a path a result carries back. It is that of the message that put the copy under its
key, by a start, by a move from another key, or by a change where there was no copy. A later message that
spells the path in another way names the same copy and leaves its location as it is. -/

namespace EditSync

namespace Course

/-- A start brings a copy where there is none, a move brings one from another key. -/
def Brings (c : Course) (key : String) (o : FileOperation) : Prop :=
  (o.action = .start ∧ c.service.registry.copies.get? key = none) ∨
    (o.action = .move ∧ o.oldPath.map Path.clean ≠ some key)

instance (c : Course) (key : String) (o : FileOperation) : Decidable (c.Brings key o) :=
  inferInstanceAs (Decidable (_ ∨ _))

/-- The location that a message gives to the copy that it puts under a key. -/
def placing? (env : Setting) (key : String) (c : Course) : Input → Option String
  | .change _ change =>
    if Path.clean change.location = key ∧ c.service.registry.copies.get? key = none then
      some change.location
    else none
  | .file endpoint o =>
    if Path.clean o.path = key ∧ (c.operated env endpoint o).result = .ok () ∧ c.Brings key o then
      some o.path
    else none
  | _ => none

variable {env : Setting} {c : Course} {key : String} {i : Input} {copy' : WorkingCopy}

theorem location_step_change {endpoint : String} {change : TextChange}
    (hget : (c.step env (.change endpoint change)).service.registry.copies.get? key = some copy') :
    (placing? env key c (.change endpoint change)).or
      ((c.service.registry.copies.get? key).map (·.location)) = some copy'.location := by
  rw [step, changed, Service.registry_onChange, Registry.get?_apply] at hget
  rw [placing?]
  by_cases hkey : key = Path.clean change.location
  · rw [if_pos hkey] at hget
    obtain rfl := Option.some.inj hget
    rw [Registry.location_changeCopy, Registry.target, Registry.find_eq, ← hkey]
    cases c.service.registry.copies.get? key with
    | none =>
      rw [if_pos ⟨rfl, rfl⟩]
      exact congrArg some (Registry.location_fresh c.source key change.location change.project).symm
    | some copy =>
      rw [if_neg (by simp)]
      rfl
  · rw [if_neg hkey] at hget
    rw [if_neg fun h => hkey h.1.symm, hget]
    rfl

/-- What an accepted operation brings to a key has the location that it says; any other copy is where it
was, and keeps its location. -/
theorem location_operated {endpoint : String} {o : FileOperation} {reaction : Service.Reaction}
    (h : Service.Operated (c.setting env) c.service endpoint o reaction)
    (hget : reaction.service.registry.copies.get? key = some copy') :
    (Path.clean o.path = key ∧ reaction.result = .ok () ∧ c.Brings key o ∧ copy'.location = o.path) ∨
      ¬ (Path.clean o.path = key ∧ reaction.result = .ok () ∧ c.Brings key o) ∧
        ∃ copy, c.service.registry.copies.get? key = some copy ∧ copy.location = copy'.location := by
  cases h with
  | refused e => exact Or.inr ⟨by simp, copy', hget, rfl⟩
  | tracked copy action found =>
    rw [Service.registry_schedule] at hget
    refine Or.inr ⟨?_, copy', hget, rfl⟩
    rintro ⟨rfl, -, ⟨-, hnone⟩ | ⟨hmove, -⟩⟩
    · exact absurd (hnone.symm.trans hget) (by simp)
    · exact absurd (action.symm.trans hmove) (by decide)
  | started content r action found read copies =>
    rw [Service.registry_schedule, copies] at hget
    split at hget
    · next hkey =>
      obtain rfl := Option.some.inj hget
      exact Or.inl ⟨hkey.symm, rfl, Or.inl ⟨action, hkey ▸ found⟩, rfl⟩
    · next hkey => exact Or.inr ⟨fun h => hkey h.1.symm, copy', hget, rfl⟩
  | stopped action =>
    rw [Registry.get?_stop] at hget
    split at hget
    · cases hget
    · next hkey => exact Or.inr ⟨fun h => hkey h.1.symm, copy', hget, rfl⟩
  | stated state copy r action found copies =>
    rw [copies] at hget
    refine Or.inr ⟨?_, ?_⟩
    · rintro ⟨-, -, ⟨hstart, -⟩ | ⟨hmove, -⟩⟩ <;> rcases action with action | action
      · exact absurd (action.symm.trans hstart) (by decide)
      · exact absurd (action.symm.trans hstart) (by decide)
      · exact absurd (action.symm.trans hmove) (by decide)
      · exact absurd (action.symm.trans hmove) (by decide)
    · split at hget
      · next hkey =>
        obtain rfl := Option.some.inj hget
        exact ⟨copy, hkey ▸ found, rfl⟩
      · exact ⟨copy', hget, rfl⟩
  | stayed oldPath action old same =>
    rw [Service.registry_schedule] at hget
    refine Or.inr ⟨?_, copy', hget, rfl⟩
    rintro ⟨rfl, -, ⟨hstart, -⟩ | ⟨-, hold⟩⟩
    · exact absurd (action.symm.trans hstart) (by decide)
    · exact hold (by rw [old, Option.map_some, same])
  | moved oldPath copy r action old other found copies =>
    rw [Service.registry_schedule, copies] at hget
    split at hget
    · next hkey =>
      obtain rfl := Option.some.inj hget
      refine Or.inl ⟨hkey.symm, rfl, Or.inr ⟨action, ?_⟩, rfl⟩
      rw [old, Option.map_some, hkey]
      exact fun h => other (Option.some.inj h)
    · next hkey =>
      split at hget
      · cases hget
      · exact Or.inr ⟨fun h => hkey h.1.symm, copy', hget, rfl⟩

/-- The location of a copy is from the message that put it under its key, now or before. -/
theorem location_step (i : Input)
    (hget : (c.step env i).service.registry.copies.get? key = some copy') :
    (placing? env key c i).or ((c.service.registry.copies.get? key).map (·.location)) =
      some copy'.location := by
  have hsame : c.service.registry.copies.get? key = some copy' →
      (none : Option String).or ((c.service.registry.copies.get? key).map (·.location)) =
        some copy'.location := fun h => by rw [h]; rfl
  cases i with
  | change endpoint change => exact location_step_change hget
  | file endpoint o =>
    rw [placing?, operated]
    rcases location_operated (Service.operated (c.setting env) c.service endpoint o) hget with
      ⟨hkey, hok, hbrings, hlocation⟩ | ⟨hnot, copy, hcopy, hlocation⟩
    · rw [if_pos ⟨hkey, hok, hbrings⟩, hlocation]
      rfl
    · rw [if_neg hnot, hcopy, ← hlocation]
      rfl
  | schedule path endpoint =>
    rw [step, Service.registry_schedule] at hget
    exact hsame hget
  | begin q =>
    rw [step] at hget
    split at hget
    · rw [Service.begin_eq] at hget
      exact hsame hget
    · exact hsame hget
  | complete a =>
    rw [step] at hget
    split at hget <;> exact hsame hget
  | saved source => exact hsame hget

theorem location_run (inputs : List Input)
    (hget : (run env inputs).service.registry.copies.get? key = some copy') :
    lastTold env (placing? env key) { source := env.source } inputs = some copy'.location := by
  induction inputs using List.reverseRecOn generalizing copy' with
  | nil => cases hget
  | append_singleton inputs i ih =>
    rw [run_concat] at hget
    have hlocation := location_step i hget
    rw [lastTold_concat, ← run]
    cases hplacing : placing? env key (run env inputs) i with
    | some location =>
      rw [hplacing] at hlocation
      exact hlocation
    | none =>
      rw [hplacing, Option.none_or] at hlocation
      obtain ⟨copy, hcopy, hsame⟩ := Option.map_eq_some_iff.1 hlocation
      rw [Option.none_or, ih hcopy, hsame]

theorem named_run (inputs : List Input)
    (hget : (run env inputs).service.registry.copies.get? key = some copy')
    (hsync : copy'.synchronized = true) :
    ∃ n, lastTold env (naming? env key) { source := env.source } inputs = some n := by
  cases hn : lastTold env (naming? env key) { source := env.source } inputs with
  | some n => exact ⟨n, rfl⟩
  | none =>
    obtain ⟨copy, hcopy, -⟩ := copy_of_unnamed_runFrom inputs hn hget hsync
    cases hcopy

/-- A result carries the location of the message that had put the copy under its key when the analysis
began. That is the spelling of the message that named the key last only if both spell it alike. -/
theorem result_stamped (env : Setting) (inputs : List Input) (a : RunningAnalysis)
    (ha : a ∈ (run env inputs).service.running) (m : Message)
    (hm : m ∈ ((run env inputs).service.complete ((run env inputs).setting env) a).2) :
    ∃ before q after analysis placed n, inputs = before ++ .begin q :: after ∧
      q ∈ (run env before).service.waiting ∧ (run env before).service.begun q = some a ∧
      m = ⟨a.endpoint, .result ⟨analysis, placed⟩⟩ ∧
      lastTold env (placing? env a.key) { source := env.source } before = some placed ∧
      lastTold env (naming? env a.key) { source := env.source } before = some n := by
  obtain ⟨before, q, after, heq, hq, hb⟩ := exists_begun inputs ha
  obtain ⟨analysis, -, -, -, -, rfl⟩ := Service.mem_outcome.1 hm
  obtain ⟨copy, hfind, hsync, rfl⟩ := Service.begun_eq_some.1 hb
  rw [Registry.find_eq, (sound_run env before).waiting q hq] at hfind
  obtain ⟨n, hn⟩ := named_run before hfind hsync
  exact ⟨before, q, after, analysis, copy.location, n, heq, hq, hb, rfl, location_run before hfind, hn⟩

def respelled : List Input :=
  [.file "client-1" { action := .start, path := "/p/a", project := some "/p" },
    .change "client-1" (.ofDelta (.insert 0 "x") "/p/./a" "/p" "o"), .begin ⟨"/p/a", "client-1"⟩]

def respelledAnalysis : RunningAnalysis where
  key := "/p/a"
  copy :=
    { location := "/p/a"
      project := "/p"
      content := "xab"
      revision := 1
      owner := some "o"
      endpoint := some "client-1" }
  endpoint := "client-1"

theorem result_stamped_respelled :
    ∃ before q after analysis placed n, respelled = before ++ .begin q :: after ∧
      q ∈ (run { source := fun _ => .ok "ab" } before).service.waiting ∧
      (run { source := fun _ => .ok "ab" } before).service.begun q = some respelledAnalysis ∧
      (⟨"client-1", .result ⟨{}, "/p/a"⟩⟩ : Message) = ⟨"client-1", .result ⟨analysis, placed⟩⟩ ∧
      lastTold { source := fun _ => .ok "ab" } (placing? { source := fun _ => .ok "ab" } "/p/a")
        { source := fun _ => .ok "ab" } before = some placed ∧
      lastTold { source := fun _ => .ok "ab" } (naming? { source := fun _ => .ok "ab" } "/p/a")
        { source := fun _ => .ok "ab" } before = some n :=
  result_stamped { source := fun _ => .ok "ab" } respelled respelledAnalysis (by decide +kernel)
    ⟨"client-1", .result ⟨{}, "/p/a"⟩⟩ (by decide +kernel)

theorem stamp_not_last_told :
    ¬ ∀ (env : Setting) (before after : List Input) (q : AnalysisRequest) (a : RunningAnalysis)
      (m : Message) (n : Naming),
      q ∈ (run env before).service.waiting → (run env before).service.begun q = some a →
      let c := run env (before ++ .begin q :: after)
      a ∈ c.service.running → m ∈ (c.service.complete (c.setting env) a).2 →
      lastTold env (naming? env a.key) { source := env.source } before = some n →
      ∃ analysis, m = ⟨a.endpoint, .result ⟨analysis, n.path⟩⟩ := by
  intro h
  obtain ⟨analysis, hm⟩ := h { source := fun _ => .ok "ab" } (respelled.take 2) [] ⟨"/p/a", "client-1"⟩
    respelledAnalysis ⟨"client-1", .result ⟨{}, "/p/a"⟩⟩ ⟨"client-1", "/p/./a"⟩ (by decide +kernel)
    (by decide +kernel) (by decide +kernel) (by decide +kernel) (by decide +kernel)
  simp [respelledAnalysis] at hm

end Course
end EditSync
