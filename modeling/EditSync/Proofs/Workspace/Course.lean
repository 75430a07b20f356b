import EditSync.Proofs.Workspace.Service
import Mathlib.Data.List.Induction

/-! Everything that can happen to a service, in any order: messages of any endpoint, requests for an
analysis, analyses that begin and complete, and saved contents that change. A course notes which
messages it accepted and which results it handed to the transport. -/

namespace EditSync

inductive Note where
  /-- A change was applied, a file started, or one moved to this key. -/
  | accepted (key : String)
  /-- The transport got the result of an analysis. -/
  | handed (analysis : RunningAnalysis) (message : Message)

def Note.message? : Note → Option Message
  | accepted _ => none
  | handed _ message => some message

structure Course where
  source : Source
  service : Service := {}
  notes : List Note := []

def FileAction.asks : FileAction → Bool
  | .start | .move => true
  | .stop | .suspend | .resume => false

namespace Course

inductive Input where
  | change (endpoint : String) (change : TextChange)
  | file (endpoint : String) (operation : FileOperation)
  | schedule (path endpoint : String)
  /-- A request that waits is begun. -/
  | begin (q : AnalysisRequest)
  /-- An analysis that runs is completed. -/
  | complete (a : RunningAnalysis)
  | saved (source : Source)

def accepting (result : Except SyncError Unit) (path : String) : List Note :=
  match result with
  | .ok _ => [.accepted (Path.clean path)]
  | .error _ => []

def setting (env : Setting) (c : Course) : Setting := { env with source := c.source }

def changed (env : Setting) (c : Course) (endpoint : String) (change : TextChange) :
    Service.Reaction := Service.onChange (c.setting env) c.service endpoint change

def operated (env : Setting) (c : Course) (endpoint : String) (o : FileOperation) :
    Service.Reaction := Service.onFileOperation (c.setting env) c.service endpoint o

def step (env : Setting) (c : Course) : Input → Course
  | .change endpoint change =>
    let r := c.changed env endpoint change
    { c with service := r.service, notes := c.notes ++ accepting r.result change.location }
  | .file endpoint o =>
    let r := c.operated env endpoint o
    { c with
      service := r.service
      notes := c.notes ++ if o.action.asks then accepting r.result o.path else [] }
  | .schedule path endpoint =>
    { c with service := c.service.schedule (c.setting env) path endpoint }
  | .begin q => if q ∈ c.service.waiting then { c with service := c.service.begin q } else c
  | .complete a =>
    if a ∈ c.service.running then
      let r := c.service.complete (c.setting env) a
      { c with service := r.1, notes := c.notes ++ r.2.map (.handed a) }
    else c
  | .saved source => { c with source }

def runFrom (env : Setting) (c : Course) (inputs : List Input) : Course := inputs.foldl (step env) c

def run (env : Setting) (inputs : List Input) : Course := runFrom env { source := env.source } inputs

@[simp] theorem runFrom_nil (env : Setting) (c : Course) : runFrom env c [] = c := rfl

@[simp] theorem runFrom_cons (env : Setting) (c : Course) (i : Input) (inputs : List Input) :
    runFrom env c (i :: inputs) = runFrom env (c.step env i) inputs := rfl

theorem runFrom_append (env : Setting) (c : Course) (before after : List Input) :
    runFrom env c (before ++ after) = runFrom env (runFrom env c before) after := List.foldl_append

theorem run_append (env : Setting) (before after : List Input) :
    run env (before ++ after) = runFrom env (run env before) after := runFrom_append env _ before after

theorem run_concat (env : Setting) (inputs : List Input) (i : Input) :
    run env (inputs ++ [i]) = (run env inputs).step env i := run_append env inputs [i]

theorem sound_step (env : Setting) {c : Course} (hc : c.service.Sound) (i : Input) :
    (c.step env i).service.Sound := by
  cases i with
  | change endpoint change => exact hc.onChange _ endpoint change
  | file endpoint o => exact hc.onFileOperation _ endpoint o
  | schedule path endpoint => exact hc.schedule _ path endpoint
  | begin q =>
    rw [step]
    split
    · next hq => exact hc.begin hq
    · exact hc
  | complete a =>
    rw [step]
    split
    · exact hc.complete (c.setting env) a
    · exact hc
  | saved source => exact hc

theorem sound_runFrom (env : Setting) {c : Course} (hc : c.service.Sound) (inputs : List Input) :
    (runFrom env c inputs).service.Sound := by
  induction inputs generalizing c with
  | nil => exact hc
  | cons i inputs ih => exact ih (sound_step env hc i)

theorem sound_run (env : Setting) (inputs : List Input) : (run env inputs).service.Sound :=
  sound_runFrom env Service.sound_start inputs

/-- What an input does to the requests that wait: it leaves them, asks for one more, or begins one. -/
inductive Queues (env : Setting) (c : Course) (i : Input) : Service → Prop
  | kept (registry : Registry) (running : List RunningAnalysis) :
      Queues env c i { c.service with registry, running }
  | asked (registry : Registry) (path endpoint : String) :
      Queues env c i (Service.schedule (c.setting env) { c.service with registry } path endpoint)
  | begun (q : AnalysisRequest) (input : i = .begin q) (waits : q ∈ c.service.waiting) :
      Queues env c i (c.service.begin q)

theorem queues_step (env : Setting) (c : Course) (i : Input) : Queues env c i (c.step env i).service := by
  cases i with
  | change endpoint change =>
    rw [step, changed]
    rcases Service.onChange_cases (c.setting env) c.service endpoint change with ⟨n, -, h⟩ | ⟨e, -, h⟩
    · rw [h]; exact .asked _ change.location endpoint
    · rw [h]; exact .kept _ _
  | file endpoint o =>
    have h := Service.operated (c.setting env) c.service endpoint o
    rw [step, operated]
    generalize Service.onFileOperation (c.setting env) c.service endpoint o = reaction at h
    cases h with
    | refused e => exact .kept _ _
    | tracked copy action found => exact .asked _ o.path endpoint
    | started content r action found read copies => exact .asked r o.path endpoint
    | stopped action => exact .kept _ _
    | stated state copy r action found copies => exact .kept r _
    | stayed oldPath action old same => exact .asked _ o.path endpoint
    | moved oldPath copy r action old other found copies => exact .asked r o.path endpoint
  | schedule path endpoint => exact .asked _ path endpoint
  | begin q =>
    rw [step]
    split
    · next hq => exact .begun q rfl hq
    · exact .kept _ _
  | complete a =>
    rw [step]
    split <;> exact .kept _ _
  | saved source => exact .kept _ _

/-- A request waits until it is begun. -/
theorem waiting_step {env : Setting} {c : Course} {q : AnalysisRequest} (hq : q ∈ c.service.waiting)
    (i : Input) :
    i = .begin q ∨ q ∈ (c.step env i).service.waiting := by
  have h := queues_step env c i
  generalize (c.step env i).service = s at h ⊢
  cases h with
  | kept registry running => exact Or.inr hq
  | asked registry path endpoint => exact Or.inr (Service.mem_waiting_schedule hq)
  | begun p input waits =>
    by_cases hp : q = p
    · exact Or.inl (by rw [hp, input])
    · rw [Service.begin_eq]
      exact Or.inr ((List.mem_erase_of_ne hp).2 hq)

/-- An analysis runs until it is completed. -/
theorem running_stays {env : Setting} {c : Course} {a : RunningAnalysis} (ha : a ∈ c.service.running) (i : Input) :
    i = .complete a ∨ a ∈ (c.step env i).service.running := by
  cases i with
  | change endpoint change =>
    rw [step, changed, Service.running_onChange]
    exact Or.inr ha
  | file endpoint o =>
    rw [step, operated, Service.running_onFileOperation]
    exact Or.inr ha
  | schedule path endpoint =>
    rw [step, Service.running_schedule]
    exact Or.inr ha
  | begin q =>
    rw [step]
    split
    · rw [Service.begin_eq]
      exact Or.inr (List.mem_append_left _ ha)
    · exact Or.inr ha
  | complete b =>
    rw [step]
    split
    · by_cases hb : a = b
      · exact Or.inl (by rw [hb])
      · exact Or.inr ((List.mem_erase_of_ne hb).2 ha)
    · exact Or.inr ha
  | saved source => exact Or.inr ha

def sent (c : Course) : List Message := c.notes.filterMap Note.message?

theorem runFrom_begin (env : Setting) (c : Course) (qs : List AnalysisRequest)
    (h : c.service.waiting = qs) :
    runFrom env c (qs.map .begin) = { c with service := qs.foldl Service.begin c.service } := by
  induction qs generalizing c with
  | nil => rfl
  | cons q qs ih =>
    have hstep : c.step env (.begin q) = { c with service := c.service.begin q } := by
      rw [step, if_pos (by rw [h]; exact List.mem_cons_self)]
    rw [List.map_cons, runFrom_cons, hstep, ih, List.foldl_cons]
    rw [Service.begin_eq, h]
    exact List.erase_cons_head q qs

theorem runFrom_complete (env : Setting) (c : Course) (as : List RunningAnalysis)
    (h : c.service.running = as) :
    (runFrom env c (as.map .complete)).service = { c.service with running := [] } ∧
      (runFrom env c (as.map .complete)).sent =
        c.sent ++ as.flatMap (c.service.outcome (c.setting env)) := by
  induction as generalizing c with
  | nil =>
    rw [List.map_nil, runFrom_nil, List.flatMap_nil, List.append_nil, ← h]
    exact ⟨rfl, rfl⟩
  | cons a as ih =>
    have hstep : c.step env (.complete a) =
        { c with
          service := (c.service.complete (c.setting env) a).1
          notes := c.notes ++ ((c.service.complete (c.setting env) a).2).map (.handed a) } := by
      rw [step, if_pos (by rw [h]; exact List.mem_cons_self)]
    have hrest : (c.step env (.complete a)).service.running = as := by
      rw [hstep, Service.complete, h]
      exact List.erase_cons_head a as
    have hsent : (c.step env (.complete a)).sent =
        c.sent ++ c.service.outcome (c.setting env) a := by
      rw [hstep, sent, List.filterMap_append, List.filterMap_map]
      exact congrArg (c.sent ++ ·) (by simp [Service.complete, Function.comp_def, Note.message?])
    obtain ⟨hs, hm⟩ := ih (c.step env (.complete a)) hrest
    rw [List.map_cons, runFrom_cons]
    constructor
    · rw [hs, hstep]
      rfl
    · rw [hm, hsent, List.flatMap_cons, List.append_assoc, hstep]
      rfl

/-- Settling is one course of many: everything that waits is begun, then everything is completed. -/
theorem runFrom_settle (env : Setting) (c : Course) :
    let c' := runFrom env c
      (c.service.waiting.map .begin ++ c.service.beginAll.running.map .complete)
    c'.service = (c.service.settle (c.setting env)).1 ∧
      c'.sent = c.sent ++ (c.service.settle (c.setting env)).2 := by
  dsimp only
  rw [runFrom, List.foldl_append]
  have hbegin := runFrom_begin env c c.service.waiting rfl
  rw [runFrom] at hbegin
  rw [hbegin]
  exact runFrom_complete env { c with service := c.service.beginAll } _ rfl

end Course
end EditSync
