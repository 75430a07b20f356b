import EditSync.Proofs.Workspace.Course

/-! A key is queued as long as a request for it waits, and no longer. So whatever comes while one waits
adds none, the one that waits sees all of it, and a key that is queued is always given back. -/

namespace EditSync

namespace Service

def waitingFor (s : Service) (key : String) : List AnalysisRequest := s.waiting.filter (·.key = key)

/-- A key is queued with one request, or it is free and has none. -/
inductive Coalesced (s : Service) (key : String) : Prop
  | free (unclaimed : key ∉ s.queued.items) (none : s.waitingFor key = [])
  | queued (q : AnalysisRequest) (claimed : key ∈ s.queued.items) (one : s.waitingFor key = [q])

variable {s : Service} {key : String} {q : AnalysisRequest}

theorem mem_waitingFor : q ∈ s.waitingFor key ↔ q ∈ s.waiting ∧ q.key = key := by simp [waitingFor]

theorem Coalesced.contains_iff (h : s.Coalesced key) :
    s.queued.contains key = true ↔ (s.waitingFor key).length = 1 := by
  cases h with
  | free unclaimed none => simp [ClaimSet.contains, unclaimed, none]
  | queued q claimed one => simp [ClaimSet.contains, claimed, one]

theorem Coalesced.length_le (h : s.Coalesced key) : (s.waitingFor key).length ≤ 1 := by
  cases h with
  | free unclaimed none => simp [none]
  | queued q claimed one => simp [one]

/-- A request that waits is the only one for its key. -/
theorem Coalesced.of_mem (h : s.Coalesced q.key) (hq : q ∈ s.waiting) :
    q.key ∈ s.queued.items ∧ s.waitingFor q.key = [q] := by
  have hmem : q ∈ s.waitingFor q.key := mem_waitingFor.2 ⟨hq, rfl⟩
  cases h with
  | free unclaimed none => simp [none] at hmem
  | queued p claimed one =>
    rw [one, List.mem_singleton] at hmem
    rw [hmem] at claimed one ⊢
    exact ⟨claimed, one⟩

theorem schedule_of_queued (env : Setting) {path : String} (h : Path.clean path ∈ s.queued.items)
    (endpoint : String) : schedule env s path endpoint = s := by
  simp [schedule, ClaimSet.claim, ClaimSet.contains, h]

/-- Only a free key gets a request. -/
theorem coalesced_schedule (h : ∀ k, s.Coalesced k) (env : Setting) (path endpoint key : String) :
    (schedule env s path endpoint).Coalesced key := by
  by_cases hq : Path.clean path ∈ s.queued.items
  · rw [schedule_of_queued env hq]
    exact h key
  · rcases schedule_cases env s path endpoint with ⟨hs, -⟩ | hs
    · rw [hs]
      exact h key
    · by_cases hk : key = Path.clean path
      · subst hk
        cases h (Path.clean path) with
        | free unclaimed none =>
          refine .queued ⟨Path.clean path, endpoint⟩ (by simp [hs]) ?_
          rw [waitingFor] at none
          rw [hs, waitingFor, List.filter_append, none]
          simp
        | queued q claimed one => exact absurd claimed hq
      · have hsame : (schedule env s path endpoint).waitingFor key = s.waitingFor key := by
          simp [hs, waitingFor, List.filter_append, Ne.symm hk]
        cases h key with
        | free unclaimed none => exact .free (by simp [hs, hk, unclaimed]) (hsame.trans none)
        | queued q claimed one => exact .queued q (by simp [hs, claimed]) (hsame.trans one)

theorem waitingFor_begin (s : Service) (q : AnalysisRequest) (key : String) :
    (s.begin q).waitingFor key = (s.waitingFor key).erase q := by
  rw [begin_eq]
  exact List.erase_filter.symm

/-- The request that begins was the only one of its key, which it makes free. -/
theorem coalesced_begin (h : ∀ k, s.Coalesced k) (hq : q ∈ s.waiting) (key : String) :
    (s.begin q).Coalesced key := by
  have hqueued : (s.begin q).queued = s.queued.release q.key := by rw [begin_eq]
  have hwaiting := waitingFor_begin s q key
  by_cases hk : key = q.key
  · subst hk
    rw [((h q.key).of_mem hq).2, List.erase_cons_head] at hwaiting
    exact .free (by simp [hqueued, ClaimSet.release]) hwaiting
  · have hne : q ∉ s.waitingFor key := fun hmem => hk (mem_waitingFor.1 hmem).2.symm
    rw [List.erase_of_not_mem hne] at hwaiting
    cases h key with
    | free unclaimed none =>
      exact .free (by simp [hqueued, ClaimSet.release, unclaimed]) (hwaiting.trans none)
    | queued p claimed one =>
      exact .queued p (by simp [hqueued, ClaimSet.release, claimed, hk]) (hwaiting.trans one)

end Service

namespace Course

/-- An input, and whether analyses could be run when it came. -/
structure Arrival where
  input : Input
  analyses : Bool := true

def arrive (env : Setting) (c : Course) (a : Arrival) : Course :=
  c.step { env with analyses := a.analyses } a.input

def arriveAll (env : Setting) (c : Course) (arrivals : List Arrival) : Course :=
  arrivals.foldl (arrive env) c

theorem arriveAll_append (env : Setting) (c : Course) (early late : List Arrival) :
    arriveAll env c (early ++ late) = arriveAll env (arriveAll env c early) late := List.foldl_append

def Arrival.change? (key : String) (a : Arrival) : Option (String × TextChange) :=
  match a.input with
  | .change endpoint change => if Path.clean change.location = key then some (endpoint, change) else none
  | _ => none

def afterChanges (copy : WorkingCopy) (changes : List (String × TextChange)) : WorkingCopy :=
  changes.foldl (fun copy m => (Registry.changeCopy (copy.noteSender m.1 m.2.owner) m.2).1) copy

variable {env : Setting} {c : Course} {q : AnalysisRequest} {key : String} {copy : WorkingCopy}

theorem coalesced_step (env : Setting) (h : ∀ k, c.service.Coalesced k) (i : Input) (key : String) :
    (c.step env i).service.Coalesced key := by
  have kept : ∀ {s : Service} (registry : Registry) (running : List RunningAnalysis),
      (∀ k, s.Coalesced k) → ∀ k, Service.Coalesced { s with registry, running } k := by
    intro s registry running h k
    cases h k with
    | free unclaimed none => exact .free unclaimed none
    | queued q claimed one => exact .queued q claimed one
  have hstep := queues_step env c i
  generalize (c.step env i).service = s at hstep ⊢
  cases hstep with
  | kept registry running => exact kept registry running h key
  | asked registry path endpoint => exact Service.coalesced_schedule (kept registry _ h) _ path endpoint key
  | begun q input waits => exact Service.coalesced_begin h waits key

/-- What every input keeps, every arrival keeps. -/
theorem arriveAll_induction {P : Course → Prop} (env : Setting)
    (keeps : ∀ env c i, P c → P (step env c i)) (hc : P c) (arrivals : List Arrival) :
    P (arriveAll env c arrivals) := by
  induction arrivals generalizing c with
  | nil => exact hc
  | cons a arrivals ih => exact ih (keeps _ c a.input hc)

theorem coalesced_arriveAll (env : Setting) (h : ∀ k, c.service.Coalesced k) (arrivals : List Arrival) :
    ∀ k, (arriveAll env c arrivals).service.Coalesced k :=
  arriveAll_induction (P := fun c => ∀ k, c.service.Coalesced k) env (fun env _ i h => coalesced_step env h i) h
    arrivals

theorem sound_arriveAll (env : Setting) (h : c.service.Sound) (arrivals : List Arrival) :
    (arriveAll env c arrivals).service.Sound :=
  arriveAll_induction (P := fun c => c.service.Sound) env (fun env _ i h => sound_step env h i) h arrivals

theorem waiting_arriveAll (env : Setting) (hq : q ∈ c.service.waiting) {arrivals : List Arrival}
    (h : ∀ a ∈ arrivals, a.input ≠ .begin q) : q ∈ (arriveAll env c arrivals).service.waiting := by
  induction arrivals generalizing c with
  | nil => exact hq
  | cons a arrivals ih =>
    have hstep : a.input = .begin q ∨ q ∈ (c.arrive env a).service.waiting := waiting_step hq a.input
    rcases hstep with hbegin | hwaits
    · exact absurd hbegin (h a List.mem_cons_self)
    · exact ih hwaits fun b hb => h b (List.mem_cons_of_mem a hb)

/-- What is done to a file that is started already: to start it again is nothing. -/
theorem get?_operated_of_start (hcopy : c.service.registry.copies.get? key = some copy) (endpoint : String)
    {o : FileOperation} (h : o.touches key = true → o.action = .start) :
    (c.operated env endpoint o).service.registry.copies.get? key = some copy := by
  cases htouches : o.touches key with
  | false => exact (Service.get?_onFileOperation_of_not_touches _ _ endpoint htouches).trans hcopy
  | true =>
    have hstart := h htouches
    have hop := Service.operated (c.setting env) c.service endpoint o
    rw [operated]
    generalize Service.onFileOperation (c.setting env) c.service endpoint o = reaction at hop ⊢
    cases hop with
    | refused e => exact hcopy
    | tracked copy' action found => rw [Service.registry_schedule]; exact hcopy
    | started content r action found read copies =>
      have hne : key ≠ Path.clean o.path := by
        rintro rfl
        rw [Registry.find_eq, hcopy] at found
        cases found
      rw [Service.registry_schedule, copies, if_neg hne]
      exact hcopy
    | stopped action => rw [hstart] at action; cases action
    | stated state copy' r action found copies => rw [hstart] at action; rcases action with h | h <;> cases h
    | stayed oldPath action old same => rw [hstart] at action; cases action
    | moved oldPath copy' r action old other found copies => rw [hstart] at action; cases action

/-- What an arrival makes of a copy that is there. -/
theorem get?_arrive (env : Setting) (hcopy : c.service.registry.copies.get? key = some copy) (a : Arrival)
    (h : ∀ endpoint o, a.input = .file endpoint o → o.touches key = true → o.action = .start) :
    (c.arrive env a).service.registry.copies.get? key = some (afterChanges copy (a.change? key).toList) := by
  obtain ⟨i, analyses⟩ := a
  unfold arrive Arrival.change?
  cases i with
  | change endpoint change =>
    dsimp only
    rw [step, changed, Service.registry_onChange, Registry.get?_apply]
    by_cases hkey : Path.clean change.location = key
    · subst hkey
      rw [if_pos rfl, if_pos rfl, Registry.target_of_find _ change endpoint hcopy]
      rfl
    · rw [if_neg (Ne.symm hkey), if_neg hkey]
      exact hcopy
  | file endpoint o => exact get?_operated_of_start hcopy endpoint (h endpoint o rfl)
  | schedule path endpoint =>
    rw [step, Service.registry_schedule]
    exact hcopy
  | begin q =>
    rw [step]
    split
    · rw [Service.begin_eq]
      exact hcopy
    · exact hcopy
  | complete a =>
    rw [step]
    split <;> exact hcopy
  | saved source => exact hcopy

theorem get?_arriveAll (env : Setting) (hcopy : c.service.registry.copies.get? key = some copy)
    {arrivals : List Arrival}
    (h : ∀ a ∈ arrivals, ∀ endpoint o, a.input = .file endpoint o → o.touches key = true → o.action = .start) :
    (arriveAll env c arrivals).service.registry.copies.get? key =
      some (afterChanges copy (arrivals.filterMap (·.change? key))) := by
  induction arrivals generalizing c copy with
  | nil => exact hcopy
  | cons a arrivals ih =>
    have hnext := ih (get?_arrive env hcopy a (h a List.mem_cons_self))
      fun b hb => h b (List.mem_cons_of_mem a hb)
    have hchanges : (a :: arrivals).filterMap (·.change? key) =
        (a.change? key).toList ++ arrivals.filterMap (·.change? key) := by
      cases hchange : a.change? key <;> simp [hchange]
    rw [hchanges, afterChanges, List.foldl_append]
    exact hnext

/-- A request that begins gives its key back, whatever has become of the file, and looks at the copy of
that moment. -/
theorem begin_arrives (env : Setting) (hs : c.service.Sound) (hq : q ∈ c.service.waiting) (analyses : Bool) :
    (c.arrive env ⟨.begin q, analyses⟩).service.queued.contains q.key = false ∧
      (c.arrive env ⟨.begin q, analyses⟩).service.running =
        c.service.running ++ match c.service.registry.copies.get? q.key with
          | some copy => if copy.synchronized then [⟨q.key, copy, copy.endpoint.getD q.endpoint⟩] else []
          | none => [] := by
  have hbegin : (c.arrive env ⟨.begin q, analyses⟩).service = c.service.begin q := by
    rw [arrive, step, if_pos hq]
  have hfind : c.service.registry.copies.get? q.key = c.service.registry.find q.key := by
    rw [Registry.find_eq, hs.waiting q hq]
  rw [hbegin, Service.begin_eq, hfind]
  refine ⟨by simp [ClaimSet.contains, ClaimSet.release], congrArg (c.service.running ++ ·) ?_⟩
  unfold Service.begun
  cases c.service.registry.find q.key with
  | none => rfl
  | some copy =>
    dsimp only
    split <;> rfl

/-- Whenever messages, requests and analyses come, with or without the means to run analyses: a key is
queued if and only if one request for it waits, and never do two. Whatever arrives before that request
begins adds none. Then it gives its key back and looks at the copy of that moment: whichever copy a start,
a move or an earlier message left, with every change since. -/
theorem waits_exactly_once (env : Setting) (arrivals : List Arrival) :
    let c := arriveAll env { source := env.source } arrivals
    (∀ key, (c.service.queued.contains key = true ↔ (c.service.waitingFor key).length = 1) ∧
      (c.service.waitingFor key).length ≤ 1) ∧
    ∀ q ∈ c.service.waiting, ∀ burst : List Arrival, (∀ a ∈ burst, a.input ≠ .begin q) →
      let c' := arriveAll env c burst
      c'.service.waitingFor q.key = [q] ∧
      (∀ early late copy, burst = early ++ late →
        (arriveAll env c early).service.registry.copies.get? q.key = some copy →
        (∀ a ∈ late, ∀ endpoint o, a.input = .file endpoint o → o.touches q.key = true → o.action = .start) →
        c'.service.registry.copies.get? q.key = some (afterChanges copy (late.filterMap (·.change? q.key)))) ∧
      ∀ analyses,
        let s := (c'.arrive env ⟨.begin q, analyses⟩).service
        s.queued.contains q.key = false ∧ s.waitingFor q.key = [] ∧
        s.running = c'.service.running ++ match c'.service.registry.copies.get? q.key with
          | some copy => if copy.synchronized then [⟨q.key, copy, copy.endpoint.getD q.endpoint⟩] else []
          | none => [] := by
  intro c
  have hcoalesced : ∀ k, c.service.Coalesced k :=
    coalesced_arriveAll env (fun k => .free List.not_mem_nil rfl) arrivals
  have hsound : c.service.Sound := sound_arriveAll env Service.sound_start arrivals
  refine ⟨fun key => ⟨(hcoalesced key).contains_iff, (hcoalesced key).length_le⟩, ?_⟩
  intro q hq burst hburst c'
  have hq' : q ∈ c'.service.waiting := waiting_arriveAll env hq hburst
  have hone := ((coalesced_arriveAll env hcoalesced burst q.key).of_mem hq').2
  refine ⟨hone, ?_, fun analyses => ?_⟩
  · intro early late copy hburst hcopy hfiles
    rw [show c' = arriveAll env (arriveAll env c early) late by rw [← arriveAll_append, ← hburst]]
    exact get?_arriveAll env hcopy hfiles
  obtain ⟨hfree, hrunning⟩ := begin_arrives env (sound_arriveAll env hsound burst) hq' analyses
  refine ⟨hfree, ?_, hrunning⟩
  have hgone := Service.waitingFor_begin c'.service q q.key
  rw [hone, List.erase_cons_head] at hgone
  rw [arrive, step, if_pos hq']
  exact hgone

def startedOnce : List Arrival :=
  [{ input := .file "client-1" { action := .start, path := "/p/./a", project := some "/p" } },
    { input := .schedule "/p/b" "client-1", analyses := false }]

def changedTwice : List Arrival :=
  [{ input := .change "client-2" (.ofDelta (.insert 0 "x") "/p/a" "/p" "o") },
    { input := .file "client-1" { action := .start, path := "/p/a" } },
    { input := .change "client-2" (.ofDelta (.insert 1 "y") "/p/./a" "/p" "o") },
    { input := .schedule "/p//a" "client-1", analyses := false }]

theorem waits_exactly_once_changedTwice :
    let c := arriveAll { source := fun _ => .ok "ab" } { source := fun _ => .ok "ab" } startedOnce
    let c' := arriveAll { source := fun _ => .ok "ab" } c changedTwice
    let s := (c'.arrive { source := fun _ => .ok "ab" } { input := .begin ⟨"/p/a", "client-1"⟩ }).service
    c.service.queued.contains "/p/a" = true ∧ c'.service.waitingFor "/p/a" = [⟨"/p/a", "client-1"⟩] ∧
      s.queued.contains "/p/a" = false ∧
      s.running.map (fun a => (a.key, a.copy.content, a.endpoint)) = [("/p/a", "xyab", "client-2")] := by
  have hfiles : ∀ a ∈ changedTwice, ∀ endpoint o, a.input = .file endpoint o →
      o.touches "/p/a" = true → o.action = .start := by
    simp [changedTwice]
  have hbegins : ∀ a ∈ changedTwice, a.input ≠ .begin ⟨"/p/a", "client-1"⟩ := by simp [changedTwice]
  obtain ⟨hqueued, hwaits⟩ := waits_exactly_once { source := fun _ => .ok "ab" } startedOnce
  obtain ⟨hone, hcopy, hbegin⟩ := hwaits ⟨"/p/a", "client-1"⟩ (by decide +kernel) changedTwice hbegins
  obtain ⟨hfree, -, hrunning⟩ := hbegin true
  have hcopy' := hcopy [] changedTwice (.started "/p/./a" (some "/p") "ab") rfl (by decide +kernel) hfiles
  refine ⟨(hqueued "/p/a").1.2 (by decide +kernel), hone, hfree, ?_⟩
  rw [hrunning, hcopy']
  decide +kernel

end Course
end EditSync
