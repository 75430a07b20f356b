import EditSync.Proofs.Frame.Codec

/-! The sending side of a stream loses nothing while the peer reads. Whatever is sent, however the writer
gets its turns and whenever it is cancelled: what was accepted is written once, in its order, and is read
as it was sent. -/

namespace EditSync.Frame

namespace Outbound

inductive Op where
  | send (receiver method : String) (params : Json)
  /-- The writer writes one message, or stops if it may. -/
  | turn
  /-- The writer goes on until it has nothing to do. -/
  | run
  /-- The writer is told to stop. -/
  | signal
  /-- The writer is told to stop, and has stopped. -/
  | cancel

/-- A message that is refused changes nothing. -/
def step (o : Outbound) : Op → Outbound
  | .send receiver method params => (o.send receiver method params).toOption.getD o
  | .turn => o.turn
  | .run => o.run
  | .signal => { o with cancelled := true }
  | .cancel => o.cancel

def runFrom (o : Outbound) (ops : List Op) : Outbound := ops.foldl step o

def accepts (o : Outbound) : Op → List (String × Json)
  | .send receiver method params =>
    if (o.send receiver method params).isOk then [(method, params)] else []
  | .turn | .run | .signal | .cancel => []

def accepted (o : Outbound) : List Op → List (String × Json)
  | [] => []
  | op :: ops => o.accepts op ++ accepted (o.step op) ops

def framed (m : String × Json) : Json := notification m.1 m.2

/-- The peer reads, and a writer that stopped had been told to and left nothing behind. -/
structure Orderly (o : Outbound) : Prop where
  reads : o.hungUp = false
  told : o.stopped = true → o.cancelled = true
  drained : o.stopped = true → o.waiting = []

variable {o : Outbound}

theorem turn_of_stopped (h : o.stopped = true) : o.turn = o := by rw [turn, if_pos h]

theorem turn_nil (h : o.stopped = false) (hw : o.waiting = []) :
    o.turn = { o with stopped := o.cancelled } := by
  rw [turn, if_neg (by simp [h]), hw]

theorem turn_cons {m : Json} {ms : List Json} (h : o.stopped = false) (hreads : o.hungUp = false)
    (hw : o.waiting = m :: ms) : o.turn = { o with waiting := ms, written := o.written ++ [m] } := by
  rw [turn, if_neg (by simp [h]), hw]
  dsimp only
  rw [if_neg (by simp [hreads])]

theorem turn_of_hungUp {m : Json} {ms : List Json} (h : o.stopped = false) (hup : o.hungUp = true)
    (hw : o.waiting = m :: ms) : o.turn = { o with waiting := [], stopped := true } := by
  rw [turn, if_neg (by simp [h]), hw]
  exact if_pos hup

/-- The writer tells nobody to stop and does not hang up. -/
theorem turn_keeps (o : Outbound) : o.turn.cancelled = o.cancelled ∧ o.turn.hungUp = o.hungUp := by
  unfold turn
  split
  · exact ⟨rfl, rfl⟩
  · split
    · exact ⟨rfl, rfl⟩
    · split <;> exact ⟨rfl, rfl⟩

theorem turns_keeps (n : Nat) (o : Outbound) :
    (turns n o).cancelled = o.cancelled ∧ (turns n o).hungUp = o.hungUp := by
  induction n generalizing o with
  | zero => exact ⟨rfl, rfl⟩
  | succ n ih => exact ⟨(ih o.turn).1.trans o.turn_keeps.1, (ih o.turn).2.trans o.turn_keeps.2⟩

theorem turns_of_stopped (h : o.stopped = true) (n : Nat) : turns n o = o := by
  induction n with
  | zero => rfl
  | succ n ih => rw [turns, turn_of_stopped h, ih]

/-- With a turn for each message that waits and one more, the writer gets to its end. -/
theorem turns_length (h : o.stopped = false) (hreads : o.hungUp = false) :
    turns (o.waiting.length + 1) o =
      { o with waiting := [], written := o.written ++ o.waiting, stopped := o.cancelled } := by
  generalize hms : o.waiting = ms
  induction ms generalizing o with
  | nil => rw [List.length_nil, turns, turn_nil h hms, List.append_nil, ← hms]; rfl
  | cons m ms ih =>
    have hrest := ih (o := { o with waiting := ms, written := o.written ++ [m] }) h hreads rfl
    rw [List.length_cons, turns, turn_cons h hreads hms, hrest, List.append_assoc, List.singleton_append]

theorem Orderly.run_eq (h : o.Orderly) :
    o.run = { o with waiting := [], written := o.written ++ o.waiting, stopped := o.cancelled } := by
  rw [run]
  cases hs : o.stopped with
  | false => exact turns_length hs h.reads
  | true =>
    have hw := h.drained hs
    have hc := h.told hs
    rw [turns_of_stopped hs, hw, hc, List.append_nil]
    obtain ⟨peer, waiting, written, cancelled, stopped, hungUp⟩ := o
    obtain rfl := hw
    obtain rfl := hc
    obtain rfl := hs
    rfl

theorem cancel_of_stopped (h : o.stopped = true) : o.cancel = { o with cancelled := true } :=
  turns_of_stopped (o := { o with cancelled := true }) h _

theorem cancel_of_reads (h : o.stopped = false) (hreads : o.hungUp = false) :
    o.cancel =
      { o with waiting := [], written := o.written ++ o.waiting, cancelled := true, stopped := true } :=
  turns_length (o := { o with cancelled := true }) h hreads

/-- A writer whose peer hung up stops at its first turn. -/
theorem cancel_of_hungUp (h : o.stopped = false) (hup : o.hungUp = true) :
    o.cancel = { o with waiting := [], cancelled := true, stopped := true } := by
  have hturn : turn { o with cancelled := true } =
      { o with waiting := [], cancelled := true, stopped := true } := by
    cases hw : o.waiting with
    | nil => exact turn_nil (o := { o with waiting := [], cancelled := true }) h rfl
    | cons m ms => exact turn_of_hungUp (o := { o with waiting := m :: ms, cancelled := true }) h hup rfl
  rw [cancel, run, turns, hturn, turns_of_stopped rfl]

theorem send_cases (o : Outbound) (receiver method : String) (params : Json) :
    (receiver = o.peer ∧ o.stopped = false) ∧
        o.send receiver method params =
          .ok { o with waiting := o.waiting ++ [notification method params] } ∨
      ¬(receiver = o.peer ∧ o.stopped = false) ∧ ∃ e, o.send receiver method params = .error e := by
  unfold send
  split
  · next hother => exact Or.inr ⟨fun h => hother h.1, _, rfl⟩
  · next hpeer =>
    have hpeer := Decidable.not_not.1 hpeer
    cases hs : o.stopped with
    | true => exact Or.inr ⟨fun h => absurd h.2 (by simp), _, rfl⟩
    | false => exact Or.inl ⟨⟨hpeer, rfl⟩, rfl⟩

theorem isOk_send {receiver method : String} {params : Json} :
    (o.send receiver method params).isOk = true ↔ receiver = o.peer ∧ o.stopped = false := by
  rcases o.send_cases receiver method params with ⟨h, heq⟩ | ⟨h, e, heq⟩
  · rw [heq]
    exact iff_of_true rfl h
  · rw [heq]
    exact iff_of_false Bool.false_ne_true h

/-- What a step keeps: the sides stay orderly, a writer that stopped stays so, and what is written or
waits is what was before, and what was accepted now after it. -/
structure Kept (o next : Outbound) (accepts : List (String × Json)) : Prop where
  orderly : next.Orderly
  peer : next.peer = o.peer
  cancelled : o.cancelled = true → next.cancelled = true
  stopped : o.stopped = true → next.stopped = true
  conserved : next.written ++ next.waiting = o.written ++ o.waiting ++ accepts.map framed

theorem Orderly.kept_run (h : o.Orderly) : Kept o o.run [] := by
  rw [h.run_eq]
  exact ⟨⟨h.reads, id, fun _ => rfl⟩, rfl, id, h.told, by simp⟩

theorem Orderly.signal (h : o.Orderly) : Orderly { o with cancelled := true } :=
  ⟨h.reads, fun _ => rfl, h.drained⟩

theorem Orderly.kept_step (h : o.Orderly) (op : Op) : Kept o (o.step op) (o.accepts op) := by
  cases op with
  | send receiver method params =>
    rw [step, accepts]
    rcases o.send_cases receiver method params with ⟨⟨-, hs⟩, heq⟩ | ⟨-, e, heq⟩
    · rw [heq]
      refine ⟨⟨h.reads, h.told, fun hstopped => ?_⟩, rfl, id, id, ?_⟩
      · exact absurd (hs.symm.trans hstopped) (by simp)
      · simp [Except.isOk, Except.toBool, Except.toOption, framed]
    · rw [heq]
      exact ⟨h, rfl, id, id, by simp [Except.isOk, Except.toBool, Except.toOption]⟩
  | turn =>
    rw [step, accepts]
    cases hs : o.stopped with
    | true =>
      rw [turn_of_stopped hs]
      exact ⟨h, rfl, id, id, by simp⟩
    | false =>
      cases hw : o.waiting with
      | nil =>
        rw [turn_nil hs hw]
        exact ⟨⟨h.reads, id, fun _ => hw⟩, rfl, id, by simp [hs], by simp⟩
      | cons m ms =>
        rw [turn_cons hs h.reads hw]
        refine ⟨⟨h.reads, h.told, fun hstopped => ?_⟩, rfl, id, id, by simp [hw]⟩
        exact absurd (hs.symm.trans hstopped) (by simp)
  | run => exact h.kept_run
  | signal => exact ⟨h.signal, rfl, fun _ => rfl, id, by simp [step, accepts]⟩
  | cancel =>
    obtain ⟨horderly, hpeer, hcancelled, hstopped, hconserved⟩ := h.signal.kept_run
    exact ⟨horderly, hpeer, fun _ => hcancelled rfl, hstopped, hconserved⟩

theorem Orderly.stopped_cancel (h : o.Orderly) : o.cancel.stopped = true := by
  rw [cancel, h.signal.run_eq]

/-- Nobody but the one who cancels tells the writer to stop. -/
theorem cancelled_step {op : Op} (hcancelled : (o.step op).cancelled = true) :
    o.cancelled = true ∨ op = .signal ∨ op = .cancel := by
  cases op with
  | send receiver method params =>
    rw [step] at hcancelled
    rcases o.send_cases receiver method params with ⟨-, heq⟩ | ⟨-, e, heq⟩ <;> rw [heq] at hcancelled <;>
      exact Or.inl hcancelled
  | turn => exact Or.inl (o.turn_keeps.1.symm.trans hcancelled)
  | run => exact Or.inl ((turns_keeps _ o).1.symm.trans hcancelled)
  | signal => exact Or.inr (Or.inl rfl)
  | cancel => exact Or.inr (Or.inr rfl)

theorem Kept.trans {o' o'' : Outbound} {ms ns : List (String × Json)} (h : Kept o o' ms)
    (h' : Kept o' o'' ns) : Kept o o'' (ms ++ ns) where
  orderly := h'.orderly
  peer := h'.peer.trans h.peer
  cancelled := h'.cancelled ∘ h.cancelled
  stopped := h'.stopped ∘ h.stopped
  conserved := by rw [h'.conserved, h.conserved, List.map_append, List.append_assoc]

theorem Orderly.kept_runFrom (h : o.Orderly) (ops : List Op) : Kept o (o.runFrom ops) (accepted o ops) := by
  induction ops generalizing o with
  | nil => exact ⟨h, rfl, id, id, (List.append_nil _).symm⟩
  | cons op ops ih =>
    have hstep := h.kept_step op
    exact hstep.trans (ih hstep.orderly)

theorem orderly_start (peer : String) : Orderly { peer } := ⟨rfl, fun h => h, fun _ => rfl⟩

theorem runFrom_append (o : Outbound) (before after : List Op) :
    o.runFrom (before ++ after) = (o.runFrom before).runFrom after := List.foldl_append

theorem Orderly.stopped_of_cancel (h : o.Orderly) {ops : List Op} (hmem : .cancel ∈ ops) :
    (o.runFrom ops).stopped = true := by
  obtain ⟨before, after, rfl⟩ := List.append_of_mem hmem
  have hbefore := (h.kept_runFrom before).orderly
  have hcancel := hbefore.kept_step .cancel
  rw [runFrom_append]
  exact (hcancel.orderly.kept_runFrom after).stopped hbefore.stopped_cancel

theorem Orderly.cancelled_of_signal (h : o.Orderly) {ops : List Op} (hmem : .signal ∈ ops) :
    (o.runFrom ops).cancelled = true := by
  obtain ⟨before, after, rfl⟩ := List.append_of_mem hmem
  have hsignal := (h.kept_runFrom before).orderly.kept_step .signal
  rw [runFrom_append]
  exact (hsignal.orderly.kept_runFrom after).cancelled rfl

theorem told_of_cancelled {ops : List Op} (hcancelled : (o.runFrom ops).cancelled = true) :
    o.cancelled = true ∨ .signal ∈ ops ∨ .cancel ∈ ops := by
  induction ops generalizing o with
  | nil => exact Or.inl hcancelled
  | cons op ops ih =>
    rcases ih hcancelled with hfirst | hrest
    · rcases cancelled_step hfirst with hc | rfl | rfl
      · exact Or.inl hc
      · exact Or.inr (Or.inl List.mem_cons_self)
      · exact Or.inr (Or.inr List.mem_cons_self)
    · exact Or.inr (hrest.imp (List.mem_cons_of_mem op) (List.mem_cons_of_mem op))

theorem cancelled_runFrom (peer : String) (ops : List Op) :
    (runFrom { peer } ops).cancelled = true ↔ .signal ∈ ops ∨ .cancel ∈ ops := by
  have hstart := orderly_start peer
  constructor
  · intro hcancelled
    rcases told_of_cancelled hcancelled with h | h
    · exact absurd h (by simp)
    · exact h
  · rintro (h | h)
    · exact hstart.cancelled_of_signal h
    · exact (hstart.kept_runFrom ops).orderly.told (hstart.stopped_of_cancel h)

theorem notification_eq (method : String) (params : Json) :
    notification method params =
      .obj [("jsonrpc", .str "2.0"), ("method", .str method), ("params", params)] := by
  have hfirst : ¬"method" < "jsonrpc" := by decide
  have hsecond : ¬"params" < "jsonrpc" := by decide
  have hthird : ¬"params" < "method" := by decide
  simp [notification, Json.object, Json.insertMember, hfirst, hsecond, hthird]

theorem envelope?_framed (sender : String) (m : String × Json) :
    envelope? sender (framed m) = some ⟨sender, m.1, m.2⟩ := by
  rw [framed, notification_eq]
  rfl

theorem depth_framed (m : String × Json) : (framed m).depth = m.2.depth + 1 := by
  rw [framed, notification_eq]
  simp [Json.depth, Json.depth.depthMembers]

theorem wellFormed_framed {m : String × Json} (h : m.2.WellFormed) : (framed m).WellFormed := by
  refine .object ?_
  simp only [List.forall_mem_cons, List.not_mem_nil, false_implies, implies_true, and_true]
  exact ⟨.str _, .str _, h⟩

/-- A message that a reader accepts: its frame is short enough and its parameters are not nested too
deeply. -/
structure Readable (m : String × Json) : Prop where
  wellFormed : m.2.WellFormed
  shallow : m.2.depth ≤ 126
  short : (body (framed m)).length ≤ maxBody.toNat

theorem Readable.fits_framed {m : String × Json} (h : Readable m) : fits (framed m) = true := by
  refine fits_iff.2 ⟨h.short, ?_⟩
  rw [depth_framed]
  exact Nat.succ_le_succ h.shallow

theorem envelopes_framed (sender : String) (ms : List (String × Json)) :
    (ms.map framed).filterMap (envelope? sender) = ms.map fun m => ⟨sender, m.1, m.2⟩ := by
  rw [List.filterMap_map, ← List.filterMap_eq_map]
  exact congrArg (List.filterMap · ms) (funext (envelope?_framed sender))

/-- When the writer has nothing more to do, the messages whose sending gave no error are written, each once
and in the order of sending, and it has stopped if it was told to. Sending fails for a receiver other than
the peer and once the writer has stopped, which it has after a cancellation and never without being told.
The peer reads the messages as they were sent, if it can read each of them. -/
theorem lossless (peer : String) (ops : List Op) :
    let messages := accepted { peer } ops
    let final := (runFrom { peer } ops).run
    final.waiting = [] ∧ (final.stopped = true ↔ .signal ∈ ops ∨ .cancel ∈ ops) ∧
      final.bytes = writeAll (messages.map framed) ∧
      (∀ before receiver method params after, ops = before ++ .send receiver method params :: after →
        let o := runFrom { peer } before
        ((o.send receiver method params).isOk = true ↔ receiver = peer ∧ o.stopped = false) ∧
          (.cancel ∈ before → o.stopped = true) ∧
          (o.stopped = true → .signal ∈ before ∨ .cancel ∈ before)) ∧
      ((∀ m ∈ messages, Readable m) →
        (readAll true final.bytes).ending = .ended ∧
          ∀ closed sender, (readAll closed final.bytes).envelopes sender =
            messages.map fun m => ⟨sender, m.1, m.2⟩) := by
  have hstart := orderly_start peer
  have hkept := hstart.kept_runFrom ops
  have hbytes : ((runFrom { peer } ops).run).bytes = writeAll ((accepted { peer } ops).map framed) := by
    have hreads : ((runFrom { peer } ops).run).hungUp = false := hkept.orderly.kept_run.orderly.reads
    rw [bytes, if_neg (by simp [hreads]), hkept.orderly.run_eq]
    dsimp only
    rw [hkept.conserved]
    rfl
  dsimp only
  refine ⟨by rw [hkept.orderly.run_eq], ?_, hbytes, ?_, fun hreadable => ?_⟩
  · rw [hkept.orderly.run_eq]
    exact cancelled_runFrom peer ops
  · rintro before receiver method params after -
    have hbefore := hstart.kept_runFrom before
    refine ⟨?_, hstart.stopped_of_cancel, fun hstopped => ?_⟩
    · rw [isOk_send, hbefore.peer]
    · exact (cancelled_runFrom peer before).1 (hbefore.orderly.told hstopped)
  · have hfits : ∀ v ∈ (accepted { peer } ops).map framed, v.WellFormed ∧ fits v = true := by
      intro v hv
      obtain ⟨m, hm, rfl⟩ := List.mem_map.1 hv
      exact ⟨wellFormed_framed (hreadable m hm).wellFormed, (hreadable m hm).fits_framed⟩
    rw [hbytes]
    refine ⟨by rw [readAll_writeAll_of_fits true hfits]; rfl, fun closed sender => ?_⟩
    rw [readAll_writeAll_of_fits closed hfits, Reading.envelopes, envelopes_framed]

def sampleOps : List Op :=
  [.send "ws-agent" "track:editor-changes" (.object [("offset", .int 0)]), .turn,
    .send "elsewhere" "track:editor-changes" .null, .send "ws-agent" "größe" (nested 126), .signal,
    .send "ws-agent" "last" (.str "ä\n"), .turn, .cancel, .send "ws-agent" "late" .null]

theorem lossless_sampleOps :
    (readAll true ((runFrom { peer := "ws-agent" } sampleOps).run).bytes).envelopes "client" =
      [⟨"client", "track:editor-changes", .object [("offset", .int 0)]⟩, ⟨"client", "größe", nested 126⟩,
        ⟨"client", "last", .str "ä\n"⟩] := by
  have haccepted : accepted { peer := "ws-agent" } sampleOps =
      [("track:editor-changes", .object [("offset", .int 0)]), ("größe", nested 126),
        ("last", .str "ä\n")] := by
    rfl
  obtain ⟨-, -, -, -, hread⟩ := lossless "ws-agent" sampleOps
  rw [haccepted] at hread
  refine (hread ?_).2 true "client"
  simp only [List.forall_mem_cons, List.not_mem_nil, false_implies, implies_true, and_true]
  refine ⟨⟨.object ?_, by decide, by decide +kernel⟩,
    ⟨wellFormed_nested 126, by decide +kernel, by decide +kernel⟩, ⟨.str _, by decide, by decide +kernel⟩⟩
  simp only [List.forall_mem_cons, List.not_mem_nil, false_implies, implies_true, and_true]
  exact .int (by decide) (by decide)

end Outbound
end EditSync.Frame
