import EditSync.Proofs.Frame.Outbound
import EditSync.Proofs.Frame.Stream
import EditSync.Proofs.Workspace.Calls
import EditSync.Workspace.Connection

/-! A server on a stream. However the octets arrive and whatever the server and its writer do in between,
the connection ends with the stream and has by then made the calls that stand on it, in their order. What
it tracks and what it asked its peer for is what these calls alone come to. -/

namespace EditSync

open Service (Sending)
open EditSync.Frame (Outbound)

def Message.frame (m : Message) : Json := Frame.notification m.payload.method m.payload.params

namespace Frame

def asksResync (v : Json) : Bool := (v.member? "method").bind Json.string? = some Method.resyncRequired

theorem asksResync_frame (m : Message) : asksResync m.frame = Service.isResync m := by
  rw [Message.frame, Outbound.notification_eq, asksResync, Service.isResync]
  simp [Json.member?, Json.string?, List.lookup_cons]

def Reading.calls (r : Reading) (peer : String) : List Service.Call :=
  (r.envelopes peer).filterMap Service.Call.ofEnvelope?

theorem Reading.calls_before (before r : Reading) (peer : String) :
    (r.before before.messages).calls peer = before.calls peer ++ r.calls peer := by
  simp [calls, envelopes, Reading.before]

theorem Reading.endpoint_of_mem_calls {r : Reading} {peer : String} {call : Service.Call}
    (h : call ∈ r.calls peer) : call.endpoint = peer := by
  obtain ⟨e, he, hcall⟩ := List.mem_filterMap.1 h
  obtain ⟨v, -, hv⟩ := List.mem_filterMap.1 he
  rw [Service.Call.endpoint_ofEnvelope? hcall]
  obtain ⟨method, -, rfl⟩ := Option.map_eq_some_iff.1 hv
  rfl

end Frame

namespace Connection

inductive Input where
  | octets (octets : List UInt8)
  /-- An analysis that waits is begun. -/
  | begin (q : AnalysisRequest)
  /-- An analysis that runs is completed. -/
  | complete (a : RunningAnalysis)
  /-- All analyses are begun and completed, and all messages are written. -/
  | settle
  /-- The writer gets a turn. -/
  | turn
  /-- The peer does not read any more. -/
  | hangUp

/-- Nothing happens any more when the connection has ended. -/
def step (env : Setting) (c : Connection) (i : Input) : Connection :=
  if c.ended then c
  else match i with
    | .octets octets => c.absorb env false octets
    | .begin q => if q ∈ c.service.waiting then { c with service := c.service.begin q } else c
    | .complete a =>
      if a ∈ c.service.running then
        let (service, sent) := c.service.complete env a
        { c with service, out := sendAll c.out sent }
      else c
    | .settle => c.settle env
    | .turn => { c with out := c.out.turn }
    | .hangUp => { c with out := c.out.hangUp }

def runFrom (env : Setting) (c : Connection) (inputs : List Input) : Connection :=
  inputs.foldl (step env) c

def Input.arriving : Input → List UInt8
  | .octets bs => bs
  | .begin _ | .complete _ | .settle | .turn | .hangUp => []

def arrived (inputs : List Input) : List UInt8 := inputs.flatMap Input.arriving

theorem step_of_ended {env : Setting} {c : Connection} (h : c.ended = true) {i : Input} : c.step env i = c :=
  if_pos h

/-- Receiving octets while the stream goes on is two of these steps. -/
theorem receive_eq_runFrom (env : Setting) (c : Connection) (octets : List UInt8) :
    c.receive env false octets = c.runFrom env [.octets octets, .settle] := by
  rw [receive, runFrom, List.foldl_cons, List.foldl_cons, List.foldl_nil]
  cases hc : c.ended <;> simp [step, hc]

/-- The messages to the peer wait to be written, unless the writer has stopped. -/
theorem sendAll_eq (o : Outbound) (ms : List Message) :
    sendAll o ms =
      if o.stopped then o
      else { o with waiting := o.waiting ++ (ms.filter (·.receiver = o.peer)).map Message.frame } := by
  induction ms generalizing o with
  | nil => simp [sendAll]
  | cons m ms ih =>
    rw [sendAll, List.foldl_cons]
    rcases o.send_cases m.receiver m.payload.method m.payload.params with
      ⟨⟨hpeer, hs⟩, heq⟩ | ⟨hno, e, heq⟩
    · have hsend : (o.send m.receiver m.payload.method m.payload.params).toOption.getD o =
          { o with waiting := o.waiting ++ [m.frame] } := by
        rw [heq]
        rfl
      rw [hsend, List.filter_cons_of_pos (by simpa using hpeer), List.map_cons]
      refine (ih _).trans ?_
      simp [hs]
    · rw [heq]
      refine (ih o).trans ?_
      split
      · rfl
      · next hs =>
        have hother : m.receiver ≠ o.peer := fun h => hno ⟨h, by simpa using hs⟩
        rw [List.filter_cons_of_neg (by simpa using hother)]

theorem hungUp_sendAll (o : Outbound) (ms : List Message) : (sendAll o ms).hungUp = o.hungUp := by
  rw [sendAll_eq]
  split <;> rfl

theorem hungUp_absorb (env : Setting) (closed : Bool) (c : Connection) (octets : List UInt8) :
    (c.absorb env closed octets).out.hungUp = c.out.hungUp := by
  have hhandle (es : List Envelope) : (c.handle env es).out.hungUp = c.out.hungUp := hungUp_sendAll ..
  have hstop (es : List Envelope) : (c.handle env es).stop.out.hungUp = c.out.hungUp :=
    (Outbound.turns_keeps ..).2.trans (hhandle es)
  rw [absorb]
  split
  · exact hhandle _
  · exact hstop _
  · exact hstop _

theorem hungUp_settle (env : Setting) (c : Connection) : (c.settle env).out.hungUp = c.out.hungUp :=
  (Outbound.turns_keeps ..).2.trans (hungUp_sendAll ..)

theorem hungUp_receive (env : Setting) (closed : Bool) (c : Connection) (octets : List UInt8) :
    (c.receive env closed octets).out.hungUp = c.out.hungUp := by
  rw [receive]
  split
  · rfl
  · dsimp only
    split
    · exact hungUp_absorb env closed c octets
    · exact (hungUp_settle ..).trans (hungUp_absorb env closed c octets)

/-- Nobody hangs up but the peer. -/
theorem hungUp_step (env : Setting) (c : Connection) {i : Input} (hi : i ≠ .hangUp) :
    (c.step env i).out.hungUp = c.out.hungUp := by
  unfold step
  split
  · rfl
  · cases i with
    | octets octets => exact hungUp_absorb env false c octets
    | begin q => dsimp only; split <;> rfl
    | complete a =>
      dsimp only
      split
      · exact hungUp_sendAll ..
      · rfl
    | settle => exact hungUp_settle env c
    | turn => exact c.out.turn_keeps.2
    | hangUp => exact absurd rfl hi

theorem hungUp_runFrom (env : Setting) (c : Connection) {inputs : List Input} (h : .hangUp ∉ inputs) :
    (c.runFrom env inputs).out.hungUp = c.out.hungUp := by
  induction inputs generalizing c with
  | nil => rfl
  | cons i inputs ih =>
    have hi : i ≠ .hangUp := fun hi => h (hi ▸ List.mem_cons_self)
    have hrest := ih (c.step env i) fun hmem => h (List.mem_cons_of_mem i hmem)
    exact hrest.trans (hungUp_step env c hi)

/-- The sending side while the connection lasts. Requests for whole texts are written or wait in their
order, but for those that are lost because the peer hung up. -/
structure Outgoing (peer : String) (requests : List Message) (o : Outbound) : Prop where
  peer : o.peer = peer
  going : o.cancelled = false
  gone : o.stopped = true → o.hungUp = true ∧ o.waiting = []
  conserved : ∃ lost,
    (o.written ++ o.waiting).filter Frame.asksResync ++ lost = requests.map Message.frame ∧
    (lost ≠ [] → o.stopped = true)

variable {peer : String} {requests : List Message} {o : Outbound}

theorem outgoing_start (peer : String) : Outgoing peer [] { peer } :=
  ⟨rfl, rfl, fun h => absurd h (by simp), [], rfl, fun h => absurd rfl h⟩

/-- Nothing is lost before the writer stops. -/
theorem Outgoing.conserved_of_going (h : Outgoing peer requests o) (hs : o.stopped = false) :
    (o.written ++ o.waiting).filter Frame.asksResync = requests.map Message.frame := by
  obtain ⟨lost, heq, hlost⟩ := h.conserved
  have hnil : lost = [] := Decidable.byContradiction fun hne => absurd (hs.symm.trans (hlost hne)) (by simp)
  rwa [hnil, List.append_nil] at heq

theorem Outgoing.sendAll (h : Outgoing peer requests o) {ms new : List Message}
    (hnew : ms.filter Service.isResync = new) (hpeer : ∀ m ∈ new, m.receiver = peer) :
    Outgoing peer (requests ++ new) (sendAll o ms) := by
  rw [sendAll_eq]
  cases hs : o.stopped with
  | true =>
    obtain ⟨lost, heq, -⟩ := h.conserved
    refine ⟨h.peer, h.going, h.gone, lost ++ new.map Message.frame, ?_, fun _ => hs⟩
    rw [if_pos rfl, ← List.append_assoc, heq, List.map_append]
  | false =>
    have hfilter : ((ms.filter (·.receiver = o.peer)).map Message.frame).filter Frame.asksResync =
        new.map Message.frame := by
      have hcomp : Frame.asksResync ∘ Message.frame = Service.isResync := funext Frame.asksResync_frame
      have hall : new.filter (·.receiver = o.peer) = new :=
        List.filter_eq_self.2 fun m hm => by simpa [h.peer] using hpeer m hm
      rw [List.filter_map, hcomp, List.filter_filter, ← hall, ← hnew, List.filter_filter]
      simp only [Bool.and_comm]
    rw [if_neg (by simp)]
    refine ⟨h.peer, h.going, fun hstopped => absurd hstopped (by simp), [], ?_, fun hne => absurd rfl hne⟩
    rw [List.append_nil, ← List.append_assoc, List.filter_append,
      h.conserved_of_going hs, hfilter, List.map_append]

theorem Outgoing.turn (h : Outgoing peer requests o) : Outgoing peer requests o.turn := by
  cases hs : o.stopped with
  | true => rwa [Outbound.turn_of_stopped hs]
  | false =>
    have hconserved := h.conserved_of_going hs
    cases hw : o.waiting with
    | nil =>
      rw [Outbound.turn_nil hs hw]
      refine ⟨h.peer, h.going, fun hstopped => ?_, [], by simpa using hconserved, fun hne => absurd rfl hne⟩
      exact absurd (h.going.symm.trans hstopped) (by simp)
    | cons m ms =>
      cases hup : o.hungUp with
      | true =>
        rw [Outbound.turn_of_hungUp hs hup hw]
        refine ⟨h.peer, h.going, fun _ => ⟨hup, rfl⟩, o.waiting.filter Frame.asksResync, ?_, fun _ => rfl⟩
        rw [List.append_nil, ← List.filter_append, hconserved]
      | false =>
        rw [Outbound.turn_cons hs hup hw]
        refine ⟨h.peer, h.going, fun hstopped => ?_, [], ?_, fun hne => absurd rfl hne⟩
        · exact absurd (hs.symm.trans hstopped) (by simp)
        · rw [← hconserved, hw]
          simp

theorem Outgoing.run (h : Outgoing peer requests o) : Outgoing peer requests o.run := by
  have hturns (n : Nat) : ∀ o, Outgoing peer requests o → Outgoing peer requests (Outbound.turns n o) := by
    induction n with
    | zero => exact fun o h => h
    | succ n ih => exact fun o h => ih _ h.turn
  exact hturns _ o h

theorem Outgoing.hangUp (h : Outgoing peer requests o) : Outgoing peer requests o.hangUp :=
  ⟨h.peer, h.going, fun hs => ⟨rfl, (h.gone hs).2⟩, h.conserved⟩

/-- What was to be written when the connection ended is written, unless the peer hung up. -/
theorem Outgoing.cancel (h : Outgoing peer requests o) :
    ∃ lost, o.cancel.written.filter Frame.asksResync ++ lost = requests.map Message.frame ∧
      (lost ≠ [] → o.cancel.hungUp = true) := by
  cases hs : o.stopped with
  | true =>
    obtain ⟨lost, heq, -⟩ := h.conserved
    obtain ⟨hup, hw⟩ := h.gone hs
    rw [Outbound.cancel_of_stopped hs]
    exact ⟨lost, by rwa [hw, List.append_nil] at heq, fun _ => hup⟩
  | false =>
    have hconserved := h.conserved_of_going hs
    cases hup : o.hungUp with
    | true =>
      rw [Outbound.cancel_of_hungUp hs hup]
      exact ⟨o.waiting.filter Frame.asksResync, by rwa [← List.filter_append], fun _ => hup⟩
    | false =>
      rw [Outbound.cancel_of_reads hs hup]
      exact ⟨[], by rwa [List.append_nil], fun hne => absurd rfl hne⟩

def direct (env : Setting) (peer : String) (r : Frame.Reading) : Sending :=
  Service.Call.performAll env (r.calls peer) ({}, [])

structure Going (env : Setting) (peer : String) (r : Frame.Reading) (c : Connection) : Prop where
  going : c.ended = false
  called : Service.Called env (r.calls peer) c.service
  outgoing : Outgoing peer (direct env peer r).2 c.out

structure Over (env : Setting) (peer : String) (r : Frame.Reading) (c : Connection) : Prop where
  ended : c.ended = true
  called : Service.Called env (r.calls peer) c.service
  written : ∃ lost, c.out.written.filter Frame.asksResync ++ lost =
    (direct env peer r).2.map Message.frame ∧ (lost ≠ [] → c.out.hungUp = true)

/-- A connection has done what was read, and goes on as long as the reading does. -/
def Follows (env : Setting) (peer : String) (r : Frame.Reading) (c : Connection) : Prop :=
  match r.ending with
  | .pending unread => c.unread = unread ∧ Going env peer r c
  | .ended | .failed _ => Over env peer r c

variable {env : Setting} {r : Frame.Reading} {c : Connection}

theorem Going.handle (h : Going env peer r c) (next : Frame.Reading) :
    Going env peer (next.before r.messages) (c.handle env (next.envelopes c.out.peer)) := by
  have hpeer : ∀ call ∈ next.calls peer, call.endpoint = peer :=
    fun call => Frame.Reading.endpoint_of_mem_calls
  -- the calls act on this service as on the one that has made no analyses: both track the same
  obtain ⟨-, new, hsent, htotal, hnew⟩ :=
    Service.Call.performAll_congr env peer hpeer (x := (c.service, [])) (y := direct env peer r)
      h.called.registry
  have hcalls := Frame.Reading.calls_before r next peer
  have hdispatch : (Service.handlers env).dispatchAll (next.envelopes c.out.peer) (c.service, []) =
      Service.Call.performAll env (next.calls peer) (c.service, []) := by
    rw [Service.dispatchAll_eq_performAll, h.outgoing.peer]
    rfl
  have hrequests : (direct env peer (next.before r.messages)).2 = (direct env peer r).2 ++ new := by
    rw [direct, hcalls, Service.Call.performAll_append]
    exact htotal
  rw [Connection.handle, hdispatch]
  refine ⟨h.going, ?_, ?_⟩
  · rw [hcalls]
    exact h.called.performAll hpeer
  · rw [hrequests]
    refine h.outgoing.sendAll ?_ fun m hm => (hnew m hm).1
    rw [hsent, List.nil_append]
    exact List.filter_eq_self.2 fun m hm => (hnew m hm).2

/-- The end of a connection writes what was accepted. -/
theorem Going.stop (h : Going env peer r c) : Over env peer r c.stop := ⟨rfl, h.called, h.outgoing.cancel⟩

theorem Going.absorb (h : Going env peer r c) (closed : Bool) (octets : List UInt8) :
    Follows env peer ((Frame.readAll closed (c.unread ++ octets)).before r.messages)
      (c.absorb env closed octets) := by
  have hhandle := h.handle (Frame.readAll closed (c.unread ++ octets))
  rw [Connection.absorb]
  generalize Frame.readAll closed (c.unread ++ octets) = next at hhandle ⊢
  obtain ⟨messages, ending⟩ := next
  cases ending with
  | pending unread => exact ⟨rfl, hhandle.going, hhandle.called, hhandle.outgoing⟩
  | ended => exact hhandle.stop
  | failed e => exact hhandle.stop

/-- Octets are taken up where those before were left. -/
theorem follows_octets {bs : List UInt8} (h : Follows env peer (Frame.readAll false bs) c) (closed : Bool)
    (octets : List UInt8) :
    Follows env peer (Frame.readAll closed (bs ++ octets))
      (if c.ended then c else c.absorb env closed octets) := by
  rw [Frame.readAll_append]
  rw [Follows] at h
  cases hending : (Frame.readAll false bs).ending with
  | pending unread =>
    rw [hending] at h
    obtain ⟨rfl, hgoing⟩ := h
    rw [if_neg (by simp [hgoing.going])]
    exact hgoing.absorb closed octets
  | ended => exact absurd hending Frame.readAll_open_ne_ended
  | failed e =>
    rw [hending] at h
    dsimp only
    rw [if_pos h.ended, Follows, hending]
    exact h

theorem isResync_outcome {s : Service} {a : RunningAnalysis} {m : Message} (h : m ∈ s.outcome env a) :
    Service.isResync m = false := by
  obtain ⟨analysis, copy, -, -, -, rfl⟩ := Service.mem_outcome.1 h
  rfl

/-- Results are no requests. -/
theorem Outgoing.sendAll_results (h : Outgoing peer requests o) {ms : List Message}
    (hms : ∀ m ∈ ms, Service.isResync m = false) : Outgoing peer requests (Connection.sendAll o ms) := by
  have hnone : ms.filter Service.isResync = [] :=
    List.filter_eq_nil_iff.2 fun m hm => by simp [hms m hm]
  have hsent := h.sendAll hnone fun m hm => absurd hm List.not_mem_nil
  rwa [List.append_nil] at hsent

theorem Going.settle (h : Going env peer r c) : Going env peer r (c.settle env) := by
  refine ⟨h.going, ?_, (h.outgoing.sendAll_results fun m hm => ?_).run⟩
  · refine h.called.own (c.service.waiting.map .begin ++ c.service.beginAll.running.map .complete) ?_ ?_
    · intro i hi
      rcases List.mem_append.1 hi with hi | hi <;> obtain ⟨x, -, rfl⟩ := List.mem_map.1 hi <;> rfl
    · intro course hs hset
      have hsettle := (Course.runFrom_settle env course).1
      rwa [hs, hset] at hsettle
  · obtain ⟨a, -, hm⟩ := List.mem_flatMap.1 hm
    exact isResync_outcome hm

/-- Whatever else happens, the server goes on from the same point of the stream. -/
theorem Going.step (h : Going env peer r c) {i : Input} (hi : ∀ bs, i ≠ .octets bs) :
    (c.step env i).unread = c.unread ∧ Going env peer r (c.step env i) := by
  unfold Connection.step
  rw [if_neg (by simp [h.going])]
  cases i with
  | octets bs => exact absurd rfl (hi bs)
  | begin q =>
    dsimp only
    split
    · next hq =>
      refine ⟨rfl, h.going, ?_, h.outgoing⟩
      refine h.called.own [.begin q] (fun i hi => by rw [List.mem_singleton.1 hi]; rfl) ?_
      intro course hs _
      rw [Course.runFrom_cons, Course.runFrom_nil, Course.step, hs, if_pos hq]
    · exact ⟨rfl, h⟩
  | complete a =>
    dsimp only
    split
    · next ha =>
      refine ⟨rfl, h.going, ?_, h.outgoing.sendAll_results fun m hm => isResync_outcome hm⟩
      refine h.called.own [.complete a] (fun i hi => by rw [List.mem_singleton.1 hi]; rfl) ?_
      intro course hs hset
      rw [Course.runFrom_cons, Course.runFrom_nil, Course.step, hs, hset, if_pos ha]
    · exact ⟨rfl, h⟩
  | settle => exact ⟨rfl, h.settle⟩
  | turn => exact ⟨rfl, h.going, h.called, h.outgoing.turn⟩
  | hangUp => exact ⟨rfl, h.going, h.called, h.outgoing.hangUp⟩

theorem Follows.step (h : Follows env peer r c) {i : Input} (hi : ∀ bs, i ≠ .octets bs) :
    Follows env peer r (c.step env i) := by
  have hover (hover : Over env peer r c) : Over env peer r (c.step env i) := by
    rwa [step_of_ended hover.ended]
  rw [Follows] at h ⊢
  cases hending : r.ending with
  | pending unread =>
    rw [hending] at h
    obtain ⟨rfl, hgoing⟩ := h
    exact hgoing.step hi
  | ended =>
    rw [hending] at h
    exact hover h
  | failed e =>
    rw [hending] at h
    exact hover h

theorem follows_runFrom {bs : List UInt8} (h : Follows env peer (Frame.readAll false bs) c)
    (inputs : List Input) :
    Follows env peer (Frame.readAll false (bs ++ arrived inputs)) (c.runFrom env inputs) := by
  induction inputs generalizing bs c with
  | nil =>
    rw [arrived, List.flatMap_nil, List.append_nil]
    exact h
  | cons i inputs ih =>
    have hstep : Follows env peer (Frame.readAll false (bs ++ i.arriving)) (c.step env i) := by
      cases i with
      | octets octets => exact follows_octets h false octets
      | _ => rw [Input.arriving, List.append_nil]; exact h.step nofun
    have hrest := ih hstep
    rwa [List.append_assoc] at hrest

theorem follows_start (env : Setting) (peer : String) :
    Follows env peer (Frame.readAll false []) (start peer) := by
  rw [Frame.readAll_nil]
  exact ⟨rfl, rfl, Service.called_start env, outgoing_start peer⟩

/-- With its last octets the stream has ended, whether or not they are the last to be read. -/
theorem over_receive {bs : List UInt8} (h : Follows env peer (Frame.readAll false bs) c)
    (last : List UInt8) : Over env peer (Frame.readAll true (bs ++ last)) (c.receive env true last) := by
  have hend := follows_octets h true last
  have hover : Over env peer (Frame.readAll true (bs ++ last))
      (if c.ended then c else c.absorb env true last) := by
    rw [Follows] at hend
    split at hend
    · next hpending => exact absurd hpending Frame.readAll_closed_ne_pending
    · exact hend
    · exact hend
  rw [receive]
  split
  · next hended => rwa [if_pos hended] at hover
  · next hgoing =>
    rw [if_neg hgoing] at hover
    dsimp only
    rwa [if_pos hover.ended]

/-- However the octets of a stream arrive, and whatever is begun, completed and written in between: with
the end of the stream the connection ends. The service has been called for the messages before the first
wrong frame that have a known method and readable parameters, in their order, and for nothing else. What it
tracks is what these calls make of a fresh service, and what it asked its peer for is what they ask for; a
peer that hung up may miss the last of it. -/
theorem receive_stream (env : Setting) (peer : String) (inputs : List Input) (last : List UInt8) :
    let c := ((start peer).runFrom env inputs).receive env true last
    let calls := (Frame.readAll true (arrived inputs ++ last)).calls peer
    let direct := Service.Call.performAll env calls ({}, [])
    c.ended = true ∧
      (∃ course : List Course.Input, course.filter (!·.own) = calls.map .ofCall ∧
        (Course.run env course).service = c.service) ∧
      c.service.registry = direct.1.registry ∧
      c.out.written.filter Frame.asksResync <+: direct.2.map Message.frame ∧
      (.hangUp ∉ inputs → c.out.written.filter Frame.asksResync = direct.2.map Message.frame) := by
  have hover := over_receive (follows_runFrom (follows_start env peer) inputs) last
  rw [List.nil_append] at hover
  obtain ⟨course, hcourse, -, hservice⟩ := hover.called.course
  obtain ⟨lost, hwritten, hlost⟩ := hover.written
  refine ⟨hover.ended, ⟨course, hcourse, hservice⟩, hover.called.registry, ⟨lost, hwritten⟩, fun hinputs => ?_⟩
  have hreads := (hungUp_receive env true _ last).trans (hungUp_runFrom env (start peer) hinputs)
  have hnil : lost = [] :=
    Decidable.byContradiction fun hne => absurd ((hlost hne).symm.trans hreads) Bool.false_ne_true.symm
  rwa [hnil, List.append_nil] at hwritten

def sampleMessages : List Json :=
  [.object [("params", .null)], Frame.notification "track:unknown" .null,
    Frame.notification Method.fileOperation (.object [("type", .str "START"), ("path", .str "/p/./a")]),
    Frame.notification Method.editorChanges (.object [("offset", .str "9")]),
    Frame.notification Method.editorChanges (.object [("offset", .int 9), ("removedCharCount", .int 1),
      ("fileLocation", .str "/p/a"), ("projectPath", .str "/p")])]

def sampleStream : List UInt8 :=
  Frame.writeAll sampleMessages ++ ([120, 10, 10] ++ Frame.writeAll sampleMessages)

def sampleCalls : List Service.Call :=
  [.file "client" { action := .start, path := "/p/./a" },
    .change "client" { offset := 9, removed := 1, location := "/p/a", project := "/p" }]

theorem calls_sampleStream : (Frame.readAll true sampleStream).calls "client" = sampleCalls := by
  have hmessage (method : String) {params : Json} (h : params.WellFormed) :
      (Frame.notification method params).WellFormed :=
    Outbound.wellFormed_framed (m := (method, params)) h
  have hwellFormed : ∀ v ∈ sampleMessages, v.WellFormed := by
    simp only [sampleMessages, List.forall_mem_cons, List.not_mem_nil, false_implies, implies_true, and_true]
    refine ⟨.object ?_, hmessage _ .null, hmessage _ (.object ?_), hmessage _ (.object ?_),
      hmessage _ (.object ?_)⟩ <;>
      simp only [List.forall_mem_cons, List.not_mem_nil, false_implies, implies_true, and_true]
    · exact .null
    · exact ⟨.str _, .str _⟩
    · exact .str _
    · exact ⟨.int (by decide) (by decide), .int (by decide) (by decide), .str _, .str _⟩
  have hwrong : Frame.readAll true ([120, 10, 10] ++ Frame.writeAll sampleMessages) =
      ⟨[], .failed (Frame.malformed "missing Content-Length header")⟩ := Frame.readAll_of_failed rfl
  rw [sampleStream, Frame.readAll_writeAll_append true hwellFormed, hwrong]
  decide +kernel

def sampleSetting : Setting := { source := fun _ => .ok "abc" }

def sampleRequest : ResyncRequest :=
  ⟨"/p/a", "/p", "Out of range edit on /p/./a: offset 9 length 1 exceeds content length 3"⟩

theorem receive_stream_sampleStream :
    let c := ((start "client").runFrom sampleSetting
      [.octets (sampleStream.take 100), .settle, .octets (sampleStream.drop 100)]).receive sampleSetting true []
    c.ended = true ∧ (c.service.registry.find "/p/a").map (·.synchronized) = some false ∧
      c.out.written.filter Frame.asksResync = [Message.frame ⟨"client", .resync sampleRequest⟩] := by
  have harrived : arrived [.octets (sampleStream.take 100), .settle, .octets (sampleStream.drop 100)] ++ [] =
      sampleStream := by
    simp [arrived, Input.arriving]
  obtain ⟨hended, -, hregistry, -, hwritten⟩ := receive_stream sampleSetting "client"
    [.octets (sampleStream.take 100), .settle, .octets (sampleStream.drop 100)] []
  rw [harrived, calls_sampleStream] at hregistry hwritten
  have hdirect : (Service.Call.performAll sampleSetting sampleCalls ({}, [])).2 =
      [⟨"client", .resync sampleRequest⟩] := by decide +kernel
  rw [hdirect] at hwritten
  refine ⟨hended, ?_, hwritten (by simp)⟩
  rw [hregistry]
  decide +kernel

end Connection
end EditSync
