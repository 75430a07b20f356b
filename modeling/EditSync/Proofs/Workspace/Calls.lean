import EditSync.Proofs.Workspace.Atomicity
import EditSync.Proofs.Workspace.Course

/-! The calls that messages stand for. Handling messages is making their calls in order: messages without
a method that is known and parameters that can be read make none, and a call that fails is followed by the
next. What calls do to the tracked files, and what they ask of editors, depends on the files alone. -/

namespace EditSync.Service

inductive Call where
  | change (endpoint : String) (change : TextChange)
  | file (endpoint : String) (operation : FileOperation)
  deriving DecidableEq

namespace Call

def ofEnvelope? (e : Envelope) : Option Call :=
  if e.method = Method.editorChanges then (TextChange.ofJson? e.params).map (.change e.sender)
  else if e.method = Method.fileOperation then (FileOperation.ofJson? e.params).map (.file e.sender)
  else none

def endpoint : Call → String
  | change endpoint _ | file endpoint _ => endpoint

def perform (env : Setting) (x : Sending) : Call → Sending
  | change endpoint c => ((onChange env x.1 endpoint c).after x.2).1
  | file endpoint o => ((onFileOperation env x.1 endpoint o).after x.2).1

def performAll (env : Setting) (calls : List Call) (x : Sending) : Sending := calls.foldl (perform env) x

theorem performAll_append (env : Setting) (before after : List Call) (x : Sending) :
    performAll env (before ++ after) x = performAll env after (performAll env before x) :=
  List.foldl_append

theorem endpoint_ofEnvelope? {e : Envelope} {call : Call} (h : ofEnvelope? e = some call) :
    call.endpoint = e.sender := by
  unfold ofEnvelope? at h
  split at h
  · obtain ⟨c, -, rfl⟩ := Option.map_eq_some_iff.1 h
    rfl
  · split at h
    · obtain ⟨o, -, rfl⟩ := Option.map_eq_some_iff.1 h
      rfl
    · exact absurd h (by simp)

end Call

/-- Handling one message is making its call, if it stands for one. -/
theorem dispatch_eq_perform (env : Setting) (e : Envelope) (x : Sending) :
    ((handlers env).dispatch e x).1 =
      match Call.ofEnvelope? e with
      | some call => call.perform env x
      | none => x := by
  rw [dispatch_eq_handled, Call.ofEnvelope?]
  by_cases hc : e.method = Method.editorChanges
  · rw [handled_editorChanges env x hc, if_pos hc]
    cases TextChange.ofJson? e.params <;> rfl
  · rw [if_neg hc]
    by_cases hf : e.method = Method.fileOperation
    · rw [handled_fileOperation env x hf, if_pos hf]
      cases FileOperation.ofJson? e.params <;> rfl
    · rw [handled_other env x hc hf, if_neg hf]

theorem dispatchAll_eq_performAll (env : Setting) (es : List Envelope) (x : Sending) :
    (handlers env).dispatchAll es x = Call.performAll env (es.filterMap Call.ofEnvelope?) x := by
  induction es generalizing x with
  | nil => rfl
  | cons e es ih =>
    have hcons : (handlers env).dispatchAll (e :: es) x =
        (handlers env).dispatchAll es ((handlers env).dispatch e x).1 := rfl
    rw [hcons, ih, dispatch_eq_perform]
    cases hcall : Call.ofEnvelope? e with
    | none => rw [List.filterMap_cons_none hcall]
    | some call => rw [List.filterMap_cons_some hcall]; rfl

theorem registry_onFileOperation_congr (env : Setting) {s t : Service} (h : s.registry = t.registry)
    (endpoint : String) (o : FileOperation) :
    (onFileOperation env s endpoint o).service.registry =
      (onFileOperation env t endpoint o).service.registry := by
  have hscheduled (r : Registry) : (schedule env { s with registry := r } o.path endpoint).registry =
      (schedule env { t with registry := r } o.path endpoint).registry := by
    rw [registry_schedule, registry_schedule]
  unfold onFileOperation operate
  rw [h]
  cases o.action with
  | start =>
    cases t.registry.start env.source o.path o.project with
    | error e => exact h
    | ok r => exact hscheduled r.1
  | stop => rfl
  | suspend =>
    cases t.registry.setState o.path .suspended with
    | error e => exact h
    | ok r => rfl
  | resume =>
    cases t.registry.setState o.path .started with
    | error e => exact h
    | ok r => rfl
  | move =>
    cases o.oldPath with
    | none => exact h
    | some oldPath =>
      dsimp only
      cases t.registry.move oldPath o.path o.project with
      | error e => exact h
      | ok r => exact hscheduled r

def isResync (m : Message) : Bool := m.payload.method = Method.resyncRequired

theorem sent_onChange_congr (env : Setting) {s t : Service} (h : s.registry = t.registry)
    (endpoint : String) (change : TextChange) :
    (onChange env s endpoint change).sent = (onChange env t endpoint change).sent := by
  unfold onChange
  rw [h]
  cases t.registry.apply env.source change endpoint with
  | mk r result => cases result <;> rfl

theorem receiver_of_mem_onChange {env : Setting} {s : Service} {endpoint : String} {change : TextChange}
    {m : Message} (hm : m ∈ (onChange env s endpoint change).sent) :
    m.receiver = endpoint ∧ isResync m = true := by
  rcases onChange_cases env s endpoint change with ⟨n, -, h⟩ | ⟨e, -, h⟩
  · rw [h] at hm
    exact absurd hm List.not_mem_nil
  · rw [h] at hm
    dsimp only at hm
    split at hm
    · rw [List.mem_singleton.1 hm]
      exact ⟨rfl, rfl⟩
    · exact absurd hm List.not_mem_nil

namespace Call

/-- On equal registries a call has equal effects: what it does to the files, and what it asks of its
sender and of nobody else. -/
theorem perform_congr (env : Setting) {x y : Sending} (h : x.1.registry = y.1.registry) (call : Call) :
    (call.perform env x).1.registry = (call.perform env y).1.registry ∧
      ∃ ms, (call.perform env x).2 = x.2 ++ ms ∧ (call.perform env y).2 = y.2 ++ ms ∧
        ∀ m ∈ ms, m.receiver = call.endpoint ∧ isResync m = true := by
  cases call with
  | change endpoint c =>
    refine ⟨?_, (onChange env x.1 endpoint c).sent, rfl, ?_, fun m hm => receiver_of_mem_onChange hm⟩
    · exact (registry_onChange ..).trans (h ▸ (registry_onChange ..).symm)
    · exact congrArg (y.2 ++ ·) (sent_onChange_congr env h endpoint c).symm
  | file endpoint o =>
    refine ⟨registry_onFileOperation_congr env h endpoint o, [], ?_, ?_, nofun⟩
    · exact congrArg (x.2 ++ ·) (sent_onFileOperation ..)
    · exact congrArg (y.2 ++ ·) (sent_onFileOperation ..)

theorem performAll_congr (env : Setting) (peer : String) {calls : List Call}
    (hpeer : ∀ call ∈ calls, call.endpoint = peer) {x y : Sending} (h : x.1.registry = y.1.registry) :
    (performAll env calls x).1.registry = (performAll env calls y).1.registry ∧
      ∃ ms, (performAll env calls x).2 = x.2 ++ ms ∧ (performAll env calls y).2 = y.2 ++ ms ∧
        ∀ m ∈ ms, m.receiver = peer ∧ isResync m = true := by
  induction calls generalizing x y with
  | nil => exact ⟨h, [], (List.append_nil _).symm, (List.append_nil _).symm, nofun⟩
  | cons call calls ih =>
    obtain ⟨hregistry, first, hx, hy, hfirst⟩ := perform_congr env h call
    obtain ⟨hall, rest, hx', hy', hrest⟩ := ih (fun c hc => hpeer c (List.mem_cons_of_mem call hc)) hregistry
    refine ⟨hall, first ++ rest, ?_, ?_, fun m hm => ?_⟩
    · rw [← List.append_assoc, ← hx]
      exact hx'
    · rw [← List.append_assoc, ← hy]
      exact hy'
    · rcases List.mem_append.1 hm with hm | hm
      · rw [← hpeer call List.mem_cons_self]
        exact hfirst m hm
      · exact hrest m hm

end Call
end EditSync.Service

namespace EditSync.Course

def Input.own : Input → Bool
  | begin _ | complete _ => true
  | change _ _ | file _ _ | schedule _ _ | saved _ => false

def Input.ofCall : Service.Call → Input
  | .change endpoint c => change endpoint c
  | .file endpoint o => file endpoint o

theorem setting_of_source {env : Setting} {c : Course} (h : c.source = env.source) : c.setting env = env := by
  rw [setting, h]

theorem runFrom_calls (env : Setting) {c : Course} (h : c.source = env.source) (calls : List Service.Call)
    (sent : List Message) :
    (runFrom env c (calls.map .ofCall)).source = env.source ∧
      (runFrom env c (calls.map .ofCall)).service = (Service.Call.performAll env calls (c.service, sent)).1 := by
  induction calls generalizing c sent with
  | nil => exact ⟨h, rfl⟩
  | cons call calls ih =>
    have hstep : (c.step env (.ofCall call)).source = env.source ∧
        (c.step env (.ofCall call)).service = (call.perform env (c.service, sent)).1 := by
      cases call with
      | change endpoint change => exact ⟨h, by rw [Input.ofCall, step, changed, setting_of_source h]; rfl⟩
      | file endpoint o => exact ⟨h, by rw [Input.ofCall, step, operated, setting_of_source h]; rfl⟩
    have hrest := ih hstep.1 (call.perform env (c.service, sent)).2
    rw [hstep.2] at hrest
    exact hrest

/-- What a server does by itself changes no file. -/
theorem runFrom_own (env : Setting) (c : Course) {inputs : List Input} (h : ∀ i ∈ inputs, i.own = true) :
    (runFrom env c inputs).source = c.source ∧
      (runFrom env c inputs).service.registry = c.service.registry := by
  induction inputs generalizing c with
  | nil => exact ⟨rfl, rfl⟩
  | cons i inputs ih =>
    have hstep : (c.step env i).source = c.source ∧ (c.step env i).service.registry = c.service.registry := by
      cases i with
      | begin q =>
        rw [step]
        split
        · exact ⟨rfl, by rw [Service.begin_eq]⟩
        · exact ⟨rfl, rfl⟩
      | complete a =>
        rw [step]
        split <;> exact ⟨rfl, rfl⟩
      | _ => exact absurd (h _ List.mem_cons_self) Bool.false_ne_true
    have hrest := ih (c.step env i) fun j hj => h j (List.mem_cons_of_mem i hj)
    rw [hstep.1, hstep.2] at hrest
    exact hrest

end EditSync.Course

namespace EditSync.Service

/-- A service that was called so from its start, and has begun and completed analyses at any time between
the calls. -/
structure Called (env : Setting) (calls : List Call) (s : Service) : Prop where
  course : ∃ course : List Course.Input, course.filter (!·.own) = calls.map .ofCall ∧
    (Course.run env course).source = env.source ∧ (Course.run env course).service = s
  registry : s.registry = (Call.performAll env calls ({}, [])).1.registry

variable {env : Setting} {calls : List Call} {s : Service}

theorem called_start (env : Setting) : Called env [] {} := ⟨⟨[], rfl, rfl, rfl⟩, rfl⟩

theorem Called.performAll (h : Called env calls s) {new : List Call} {peer : String}
    (hpeer : ∀ call ∈ new, call.endpoint = peer) :
    Called env (calls ++ new) (Call.performAll env new (s, [])).1 := by
  obtain ⟨course, hfilter, hsource, hservice⟩ := h.course
  obtain ⟨hsource', hservice'⟩ := Course.runFrom_calls env hsource new []
  rw [hservice] at hservice'
  have hnone : (new.map Course.Input.ofCall).filter (!·.own) = new.map .ofCall := by
    refine List.filter_eq_self.2 fun i hi => ?_
    obtain ⟨call, -, rfl⟩ := List.mem_map.1 hi
    cases call <;> rfl
  refine ⟨⟨course ++ new.map .ofCall, ?_, ?_, ?_⟩, ?_⟩
  · rw [List.filter_append, hfilter, hnone, List.map_append]
  · rw [Course.run_append, hsource']
  · rw [Course.run_append, hservice']
  · rw [Call.performAll_append]
    exact (Call.performAll_congr env peer hpeer h.registry).1

theorem Called.own (h : Called env calls s) (inputs : List Course.Input)
    (hown : ∀ i ∈ inputs, i.own = true) {s' : Service}
    (hs : ∀ c : Course, c.service = s → c.setting env = env →
      (Course.runFrom env c inputs).service = s') : Called env calls s' := by
  obtain ⟨course, hfilter, hsource, hservice⟩ := h.course
  obtain ⟨hsource', hregistry⟩ := Course.runFrom_own env (Course.run env course) hown
  have hs' := hs _ hservice (Course.setting_of_source hsource)
  have hnone : inputs.filter (!·.own) = [] := List.filter_eq_nil_iff.2 fun i hi => by simp [hown i hi]
  refine ⟨⟨course ++ inputs, ?_, ?_, ?_⟩, ?_⟩
  · rw [List.filter_append, hfilter, hnone, List.append_nil]
  · rw [Course.run_append, hsource', hsource]
  · rw [Course.run_append, hs']
  · rw [← hs', hregistry, hservice, h.registry]

end EditSync.Service
