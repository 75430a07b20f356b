import EditSync.Network.Hub
import Mathlib.Data.List.Induction

/-! What becomes of the messages of a hub, however endpoints connect, leave, come back and stop reading.
Everything that was sent successfully to an endpoint is found, once and in order, in the inbox that the
endpoint had then: taken out, still there, or lost with an inbox that nobody reads any more. -/

namespace EditSync.Hub

/-- What can be asked of a hub. Handles and inboxes have the numbers of their connections. -/
inductive Op where
  | connect (id : String)
  | disconnect (id : String)
  | send (handle : Nat) (receiver method : String) (params : Json)
  | dropInbox (inbox : Nat)
  /-- Everything is taken out of an inbox. -/
  | receive (inbox : Nat)
  /-- One message is taken out. -/
  | receiveOne (inbox : Nat)

inductive Event where
  | connected (id : String)
  | disconnected (id : String)
  | sent (handle : Nat) (receiver method : String) (params : Json)
  | refused (handle : Nat) (receiver method : String) (params : Json)
  | dropped (inbox : Nat) (lost : List Envelope)
  | received (inbox : Nat) (got : List Envelope)

/-- A hub, and all that happened on it, the latest event first. -/
structure Traffic where
  hub : Hub := {}
  history : List Event := []

def waiting (h : Hub) (n : Nat) : List Envelope := (h.inboxes[n]?.map (·.envelopes)).getD []

def isDropped (h : Hub) (n : Nat) : Bool := h.inboxes[n]?.any (·.dropped)

def receiveOne (h : Hub) (n : Nat) : Hub × Option Envelope :=
  if h.isDropped n then (h, none)
  else (h.modifyInbox n fun i => { i with envelopes := i.envelopes.tail }, (h.waiting n).head?)

namespace Traffic

/-- Nothing happens when a handle or an inbox is not there. -/
def step (t : Traffic) : Op → Traffic
  | .connect id => ⟨(t.hub.connect id).1, .connected id :: t.history⟩
  | .disconnect id => ⟨t.hub.disconnect id, .disconnected id :: t.history⟩
  | .send handle receiver method params =>
    match t.hub.inboxes[handle]? with
    | none => t
    | some sender =>
      match t.hub.send receiver ⟨sender.id, method, params⟩ with
      | .ok hub => ⟨hub, .sent handle receiver method params :: t.history⟩
      | .error _ => ⟨t.hub, .refused handle receiver method params :: t.history⟩
  | .dropInbox n =>
    if n < t.hub.inboxes.length then ⟨t.hub.dropInbox n, .dropped n (t.hub.waiting n) :: t.history⟩ else t
  | .receive n => ⟨(t.hub.receive n).1, .received n ((t.hub.receive n).2.getD []) :: t.history⟩
  | .receiveOne n => ⟨(t.hub.receiveOne n).1, .received n (t.hub.receiveOne n).2.toList :: t.history⟩

def run (ops : List Op) : Traffic := ops.foldl step {}

end Traffic

namespace Event

def ids : List Event → List String
  | [] => []
  | .connected id :: earlier => ids earlier ++ [id]
  | _ :: earlier => ids earlier

/-- The number of the latest connection of an endpoint that has not disconnected since. -/
def registered (id : String) : List Event → Option Nat
  | [] => none
  | .connected id' :: earlier => if id' = id then some (ids earlier).length else registered id earlier
  | .disconnected id' :: earlier => if id' = id then none else registered id earlier
  | _ :: earlier => registered id earlier

/-- The messages that were sent to an endpoint while its inbox was this one, stamped with the id of the
handle. -/
def sentTo (n : Nat) : List Event → List Envelope
  | [] => []
  | .sent handle receiver method params :: earlier =>
    if registered receiver earlier = some n then
      sentTo n earlier ++ ((ids earlier)[handle]?.map (⟨·, method, params⟩)).toList
    else sentTo n earlier
  | _ :: earlier => sentTo n earlier

def taken (n : Nat) : List Event → List Envelope
  | [] => []
  | .received m got :: earlier => if m = n then taken n earlier ++ got else taken n earlier
  | _ :: earlier => taken n earlier

def lost (n : Nat) : List Event → List Envelope
  | [] => []
  | .dropped m es :: earlier => if m = n then lost n earlier ++ es else lost n earlier
  | _ :: earlier => lost n earlier

variable {n : Nat} {id : String} {history : List Event}

theorem lost_eq_nil (h : ∀ es, .dropped n es ∉ history) : lost n history = [] := by
  induction history with
  | nil => rfl
  | cons e history ih =>
    have hrest := ih fun es hes => h es (List.mem_cons_of_mem _ hes)
    cases e with
    | dropped m es =>
      rw [lost, if_neg, hrest]
      rintro rfl
      exact h es List.mem_cons_self
    | connected _ | disconnected _ | sent _ _ _ _ | refused _ _ _ _ | received _ _ => exact hrest

theorem ids_cons (h : (ids history)[n]? = some id) (e : Event) : (ids (e :: history))[n]? = some id := by
  cases e with
  | connected id' => rw [ids, List.getElem?_append_left (List.getElem?_eq_some_iff.1 h).1, h]
  | disconnected _ | sent _ _ _ _ | refused _ _ _ _ | dropped _ _ | received _ _ => exact h

/-- A registered inbox is a connection of its endpoint. -/
theorem ids_of_registered (h : registered id history = some n) : (ids history)[n]? = some id := by
  induction history with
  | nil => exact absurd h (by simp [registered])
  | cons e history ih =>
    cases e with
    | connected id' =>
      rw [registered] at h
      split at h
      · next hid =>
        obtain rfl := Option.some.inj h
        rw [ids, List.getElem?_concat_length, hid]
      · exact ids_cons (ih h) _
    | disconnected id' =>
      rw [registered] at h
      split at h
      · exact absurd h (by simp)
      · exact ih h
    | sent _ _ _ _ | refused _ _ _ _ | dropped _ _ | received _ _ => exact ih h

/-- The endpoint of an inbox has connected again or disconnected since. -/
def Retired (n : Nat) (history : List Event) : Prop :=
  ∃ id, (ids history)[n]? = some id ∧ registered id history ≠ some n

/-- An inbox that is retired remains so and gets nothing. -/
theorem Retired.cons (h : Retired n history) (e : Event) :
    Retired n (e :: history) ∧ sentTo n (e :: history) = sentTo n history := by
  obtain ⟨id, hid, hne⟩ := h
  cases e with
  | connected id' =>
    refine ⟨⟨id, ids_cons hid _, ?_⟩, rfl⟩
    rw [registered]
    split
    · intro h
      exact absurd (Option.some.inj h) (Nat.ne_of_gt (List.getElem?_eq_some_iff.1 hid).1)
    · exact hne
  | disconnected id' =>
    refine ⟨⟨id, hid, ?_⟩, rfl⟩
    rw [registered]
    split
    · exact fun h => absurd h (by simp)
    · exact hne
  | sent handle receiver method params =>
    refine ⟨⟨id, hid, hne⟩, ?_⟩
    rw [sentTo, if_neg]
    intro h
    obtain rfl := Option.some.inj (hid.symm.trans (ids_of_registered h))
    exact hne h
  | refused _ _ _ _ | dropped _ _ | received _ _ => exact ⟨⟨id, hid, hne⟩, rfl⟩

end Event

variable {h : Hub} {n m : Nat}

theorem waiting_connect (h : Hub) (id : String) (n : Nat) : (h.connect id).1.waiting n = h.waiting n := by
  rw [waiting, connect, List.getElem?_append, waiting]
  split
  · rfl
  · next hn =>
    rw [List.getElem?_eq_none (Nat.not_lt.1 hn)]
    cases n - h.inboxes.length <;> rfl

theorem isDropped_connect (h : Hub) (id : String) (n : Nat) :
    (h.connect id).1.isDropped n = h.isDropped n := by
  rw [isDropped, connect, List.getElem?_append, isDropped]
  split
  · rfl
  · next hn =>
    rw [List.getElem?_eq_none (Nat.not_lt.1 hn)]
    cases n - h.inboxes.length <;> rfl

theorem getElem?_modifyInbox (h : Hub) (n : Nat) (f : Inbox → Inbox) (m : Nat) :
    (h.modifyInbox n f).inboxes[m]? = if n = m then h.inboxes[m]?.map f else h.inboxes[m]? := by
  rw [modifyInbox, List.getElem?_modify]
  split
  · rfl
  · exact Option.map_id'

theorem ids_modifyInbox (h : Hub) (n : Nat) {f : Inbox → Inbox} (hf : ∀ i, (f i).id = i.id) :
    (h.modifyInbox n f).inboxes.map (·.id) = h.inboxes.map (·.id) := by
  refine List.ext_getElem? fun m => ?_
  rw [List.getElem?_map, List.getElem?_map, getElem?_modifyInbox]
  split
  · rw [Option.map_map]
    exact congrArg (Option.map · _) (funext hf)
  · rfl

theorem waiting_modifyInbox_of_ne (f : Inbox → Inbox) (hm : n ≠ m) :
    (h.modifyInbox n f).waiting m = h.waiting m := by
  rw [waiting, getElem?_modifyInbox, if_neg hm, waiting]

theorem waiting_modifyInbox (f : Inbox → Inbox) {inbox : Inbox} (hn : h.inboxes[n]? = some inbox) :
    (h.modifyInbox n f).waiting n = (f inbox).envelopes := by
  rw [waiting, getElem?_modifyInbox, if_pos rfl, hn]
  rfl

theorem isDropped_modifyInbox (h : Hub) (n m : Nat) {f : Inbox → Inbox}
    (hf : ∀ i, (f i).dropped = i.dropped) : (h.modifyInbox n f).isDropped m = h.isDropped m := by
  rw [isDropped, getElem?_modifyInbox, isDropped]
  split
  · rw [Option.any_map]
    exact congrArg (Option.any · _) (funext hf)
  · rfl

theorem waiting_eq {inbox : Inbox} (hn : h.inboxes[n]? = some inbox) : h.waiting n = inbox.envelopes := by
  rw [waiting, hn]
  rfl

theorem isDropped_eq {inbox : Inbox} (hn : h.inboxes[n]? = some inbox) :
    h.isDropped n = inbox.dropped := by
  rw [isDropped, hn]
  rfl

/-- A message is put at the end of the inbox of its receiver, or nothing changes. -/
theorem send_cases (h : Hub) (receiver : String) (e : Envelope) :
    (∃ n inbox, h.routes.get? receiver = some n ∧ h.inboxes[n]? = some inbox ∧ inbox.dropped = false ∧
        h.send receiver e = .ok (h.modifyInbox n fun i => { i with envelopes := i.envelopes ++ [e] })) ∨
      (∃ f, h.send receiver e = .error f) ∧
        ∀ n inbox, h.routes.get? receiver = some n → h.inboxes[n]? = some inbox → inbox.dropped = true := by
  rw [send]
  cases hroute : h.routes.get? receiver with
  | none => exact Or.inr ⟨⟨_, rfl⟩, fun n inbox hn => absurd hn (by simp)⟩
  | some n =>
    cases hinbox : h.inboxes[n]? with
    | none =>
      refine Or.inr ⟨⟨_, by simp only [hinbox]; rfl⟩, fun m inbox hm hi => ?_⟩
      obtain rfl := Option.some.inj hm
      exact absurd (hinbox.symm.trans hi) (by simp)
    | some inbox =>
      cases hdropped : inbox.dropped with
      | false => exact Or.inl ⟨n, inbox, rfl, hinbox, hdropped, by simp [hinbox, hdropped]⟩
      | true =>
        refine Or.inr ⟨⟨_, by simp only [hinbox, hdropped, if_true]; rfl⟩, fun m inbox' hm hi => ?_⟩
        obtain rfl := Option.some.inj hm
        obtain rfl := Option.some.inj (hinbox.symm.trans hi)
        exact hdropped

structure Takes (h h' : Hub) (n : Nat) (got : List Envelope) : Prop where
  ids : h'.inboxes.map (·.id) = h.inboxes.map (·.id)
  routes : h'.routes = h.routes
  dropped : ∀ m, h'.isDropped m = h.isDropped m
  others : ∀ m, n ≠ m → h'.waiting m = h.waiting m
  first : h.waiting n = got ++ h'.waiting n
  unread : h.isDropped n = true → got = []

theorem Takes.none (h : Hub) (n : Nat) : Takes h h n [] :=
  ⟨rfl, rfl, fun _ => rfl, fun _ _ => rfl, rfl, fun _ => rfl⟩

theorem takes_modifyInbox (rest : List Envelope → List Envelope) {got : List Envelope} {inbox : Inbox}
    (hn : h.inboxes[n]? = some inbox) (hread : inbox.dropped = false)
    (hgot : inbox.envelopes = got ++ rest inbox.envelopes) :
    Takes h (h.modifyInbox n fun i => { i with envelopes := rest i.envelopes }) n got := by
  refine ⟨ids_modifyInbox h n fun _ => rfl, rfl, fun m => isDropped_modifyInbox h n m fun _ => rfl,
    fun m hm => waiting_modifyInbox_of_ne _ hm, ?_, fun hdropped => ?_⟩
  · rw [waiting_modifyInbox _ hn, waiting_eq hn]
    exact hgot
  · rw [isDropped_eq hn, hread] at hdropped
    exact absurd hdropped (by decide)

theorem takes_receive (h : Hub) (n : Nat) : Takes h (h.receive n).1 n ((h.receive n).2.getD []) := by
  rw [receive]
  cases hinbox : h.inboxes[n]? with
  | none => exact .none h n
  | some inbox =>
    cases hdropped : inbox.dropped with
    | true => simpa [hdropped] using Takes.none h n
    | false =>
      have htakes := takes_modifyInbox (fun _ => []) hinbox hdropped (List.append_nil _).symm
      simpa [hdropped] using htakes

theorem takes_receiveOne (h : Hub) (n : Nat) :
    Takes h (h.receiveOne n).1 n (h.receiveOne n).2.toList := by
  rw [receiveOne]
  split
  · exact .none h n
  · next hread =>
    cases hinbox : h.inboxes[n]? with
    | none =>
      have hsame : h.modifyInbox n (fun i => { i with envelopes := i.envelopes.tail }) = h := by
        rw [modifyInbox, List.modify_eq_self (List.getElem?_eq_none_iff.1 hinbox)]
      rw [hsame, waiting, hinbox]
      exact .none h n
    | some inbox =>
      rw [isDropped_eq hinbox, Bool.not_eq_true] at hread
      refine takes_modifyInbox List.tail hinbox hread ?_
      rw [waiting_eq hinbox]
      cases inbox.envelopes <;> rfl

namespace Traffic

/-- What a hub has become agrees with what its history says. -/
structure Recorded (t : Traffic) : Prop where
  ids : t.hub.inboxes.map (·.id) = Event.ids t.history
  routes : ∀ id, t.hub.routes.get? id = Event.registered id t.history
  dropped : ∀ n, t.hub.isDropped n = true ↔ ∃ es, .dropped n es ∈ t.history
  accounts : ∀ n, Event.taken n t.history ++ Event.lost n t.history ++ t.hub.waiting n =
    Event.sentTo n t.history

variable {t : Traffic} {n : Nat}

theorem Recorded.lost_eq_nil (h : t.Recorded) (hn : t.hub.isDropped n = false) :
    Event.lost n t.history = [] := by
  refine Event.lost_eq_nil fun es hes => ?_
  exact absurd (hn.symm.trans ((h.dropped n).2 ⟨es, hes⟩)) (by decide)

theorem Recorded.takes (h : t.Recorded) {h' : Hub} {got : List Envelope} (htakes : Takes t.hub h' n got) :
    Recorded ⟨h', .received n got :: t.history⟩ := by
  refine ⟨htakes.ids.trans h.ids, fun id => ?_, fun m => ?_, fun m => ?_⟩
  · rw [htakes.routes]
    exact h.routes id
  · rw [htakes.dropped, h.dropped]
    simp
  · have hm := h.accounts m
    simp only [Event.taken, Event.lost, Event.sentTo]
    split
    · next hnm =>
      subst hnm
      rw [← hm, htakes.first]
      cases hread : t.hub.isDropped n with
      | true => simp [htakes.unread hread]
      | false => simp [h.lost_eq_nil hread]
    · next hnm => rw [htakes.others m hnm, hm]

theorem Recorded.connect (h : t.Recorded) (id : String) :
    Recorded ⟨(t.hub.connect id).1, .connected id :: t.history⟩ := by
  refine ⟨?_, fun id' => ?_, fun n => ?_, fun n => ?_⟩
  · rw [Event.ids, ← h.ids, Hub.connect, List.map_append]
    rfl
  · have hlength : t.hub.inboxes.length = (Event.ids t.history).length := by rw [← h.ids, List.length_map]
    rw [Hub.connect, Table.get?_set, Event.registered, ← h.routes, hlength]
    by_cases hid : id' = id
    · rw [if_pos hid, if_pos hid.symm]
    · rw [if_neg hid, if_neg (Ne.symm hid)]
  · rw [isDropped_connect, h.dropped]
    simp
  · rw [waiting_connect]
    exact h.accounts n

theorem Recorded.disconnect (h : t.Recorded) (id : String) :
    Recorded ⟨t.hub.disconnect id, .disconnected id :: t.history⟩ := by
  refine ⟨h.ids, fun id' => ?_, fun n => ?_, h.accounts⟩
  · rw [Hub.disconnect, Table.get?_erase, Event.registered, ← h.routes]
    by_cases hid : id' = id
    · rw [if_pos hid, if_pos hid.symm]
    · rw [if_neg hid, if_neg (Ne.symm hid)]
  · exact (h.dropped n).trans (by simp)

theorem Recorded.drop (h : t.Recorded) {inbox : Inbox} (hn : t.hub.inboxes[n]? = some inbox) :
    Recorded ⟨t.hub.dropInbox n, .dropped n (t.hub.waiting n) :: t.history⟩ := by
  refine ⟨Eq.trans (ids_modifyInbox t.hub n fun _ => rfl) h.ids, h.routes, fun m => ?_, fun m => ?_⟩
  · by_cases hnm : n = m
    · subst hnm
      refine iff_of_true ?_ ⟨_, List.mem_cons_self⟩
      rw [isDropped, dropInbox, getElem?_modifyInbox, if_pos rfl, hn]
      rfl
    · rw [isDropped, dropInbox, getElem?_modifyInbox, if_neg hnm, ← isDropped, h.dropped]
      simp [Ne.symm hnm]
  · simp only [Event.taken, Event.lost, Event.sentTo]
    split
    · next hnm =>
      subst hnm
      rw [dropInbox, waiting_modifyInbox _ hn, List.append_nil, ← List.append_assoc]
      exact h.accounts n
    · next hnm =>
      rw [dropInbox, waiting_modifyInbox_of_ne _ hnm]
      exact h.accounts m

theorem Recorded.send (h : t.Recorded) {handle : Nat} {sender : Inbox}
    (hsender : t.hub.inboxes[handle]? = some sender) {inbox : Inbox} {receiver method : String}
    {params : Json} (hroute : t.hub.routes.get? receiver = some n) (hn : t.hub.inboxes[n]? = some inbox) :
    Recorded ⟨t.hub.modifyInbox n fun i =>
        { i with envelopes := i.envelopes ++ [⟨sender.id, method, params⟩] },
      .sent handle receiver method params :: t.history⟩ := by
  refine ⟨Eq.trans (ids_modifyInbox t.hub n fun _ => rfl) h.ids, h.routes, fun m => ?_, fun m => ?_⟩
  · have hsame := isDropped_modifyInbox t.hub n m
      (f := fun i => { i with envelopes := i.envelopes ++ [⟨sender.id, method, params⟩] }) fun _ => rfl
    rw [hsame, h.dropped]
    simp
  · have hid : (Event.ids t.history)[handle]? = some sender.id := by
      rw [← h.ids, List.getElem?_map, hsender]
      rfl
    rw [h.routes] at hroute
    simp only [Event.taken, Event.lost, Event.sentTo, hroute, Option.some.injEq, hid]
    split
    · next hnm =>
      subst hnm
      rw [waiting_modifyInbox _ hn, ← h.accounts n, waiting_eq hn]
      simp
    · next hnm =>
      rw [waiting_modifyInbox_of_ne _ hnm]
      exact h.accounts m

theorem Recorded.refuse (h : t.Recorded) (handle : Nat) (receiver method : String) (params : Json) :
    Recorded ⟨t.hub, .refused handle receiver method params :: t.history⟩ :=
  ⟨h.ids, h.routes, fun n => (h.dropped n).trans (by simp), h.accounts⟩

theorem recorded_step (h : t.Recorded) (op : Op) : (t.step op).Recorded := by
  cases op with
  | connect id => exact h.connect id
  | disconnect id => exact h.disconnect id
  | send handle receiver method params =>
    rw [step]
    split
    · exact h
    · next sender hsender =>
      rcases send_cases t.hub receiver ⟨sender.id, method, params⟩ with
        ⟨n, inbox, hroute, hn, -, hsend⟩ | ⟨⟨f, hsend⟩, -⟩
      · rw [hsend]
        exact h.send hsender hroute hn
      · rw [hsend]
        exact h.refuse handle receiver method params
  | dropInbox n =>
    rw [step]
    split
    · next hn => exact h.drop (List.getElem?_eq_getElem hn)
    · exact h
  | receive n => exact h.takes (takes_receive t.hub n)
  | receiveOne n => exact h.takes (takes_receiveOne t.hub n)

theorem run_concat (ops : List Op) (op : Op) : run (ops ++ [op]) = (run ops).step op := by
  rw [run, List.foldl_append]
  rfl

theorem recorded_run (ops : List Op) : (run ops).Recorded := by
  induction ops using List.reverseRecOn with
  | nil => exact ⟨rfl, fun _ => rfl, fun _ => by simp [run, isDropped], fun _ => rfl⟩
  | append_singleton ops op ih =>
    rw [run_concat]
    exact recorded_step ih op

theorem history_step (t : Traffic) (op : Op) :
    (t.step op).history = t.history ∨ ∃ e, (t.step op).history = e :: t.history := by
  cases op with
  | connect _ | disconnect _ | receive _ | receiveOne _ => exact Or.inr ⟨_, rfl⟩
  | send handle receiver method params =>
    rw [step]
    split
    · exact Or.inl rfl
    · split <;> exact Or.inr ⟨_, rfl⟩
  | dropInbox n =>
    rw [step]
    split
    · exact Or.inr ⟨_, rfl⟩
    · exact Or.inl rfl

/-- What no event ends holds for the rest of a run. -/
theorem run_append_induction {P : List Event → Prop} (hP : ∀ e history, P history → P (e :: history))
    {ops : List Op} (more : List Op) (h : P (run ops).history) : P (run (ops ++ more)).history := by
  induction more using List.reverseRecOn with
  | nil => rwa [List.append_nil]
  | append_singleton more op ih =>
    rw [← List.append_assoc, run_concat]
    rcases history_step (run (ops ++ more)) op with hsame | ⟨e, hnew⟩
    · rwa [hsame]
    · rw [hnew]
      exact hP e _ ih

/-- An inbox is retired when its endpoint connects again or disconnects. -/
theorem retired_run (before : List Op) (id : String) (middle : List Op) {op : Op}
    (hop : op = .connect id ∨ op = .disconnect id) :
    Event.Retired ((run before).hub.connect id).2
      (run (before ++ .connect id :: middle ++ [op])).history := by
  have hids : (Event.ids (run (before ++ [.connect id] ++ middle)).history)[((run before).hub.connect id).2]? =
      some id := by
    refine run_append_induction (P := fun history => (Event.ids history)[_]? = some id)
      (fun e history h => Event.ids_cons h e) middle ?_
    rw [run_concat, ← (recorded_step (recorded_run before) _).ids]
    simp [step, Hub.connect]
  rw [List.append_assoc, List.singleton_append] at hids
  rw [run_concat]
  rcases hop with rfl | rfl
  · refine ⟨id, Event.ids_cons hids _, ?_⟩
    rw [step, Event.registered, if_pos rfl]
    intro h
    exact absurd (Option.some.inj h) (Nat.ne_of_gt (List.getElem?_eq_some_iff.1 hids).1)
  · refine ⟨id, hids, ?_⟩
    rw [step, Event.registered, if_pos rfl]
    simp

/-- A message can be sent to an endpoint exactly if it is registered and its latest inbox was not dropped.
What was taken out of an inbox, what was lost with it when it was dropped, and what is in it are in this
order the messages that were sent to its endpoint while it was the registered inbox. Once the endpoint
connects again or disconnects, the inbox gets no more. -/
theorem delivered_exactly (ops : List Op) :
    (∀ receiver e, (∃ hub, (run ops).hub.send receiver e = .ok hub) ↔
        ∃ n, Event.registered receiver (run ops).history = some n ∧
          ∀ es, .dropped n es ∉ (run ops).history) ∧
      (∀ n, Event.taken n (run ops).history ++ Event.lost n (run ops).history ++ (run ops).hub.waiting n =
        Event.sentTo n (run ops).history) ∧
      (∀ n, (∀ es, .dropped n es ∉ (run ops).history) → Event.lost n (run ops).history = []) ∧
      ∀ before id middle op after, ops = before ++ .connect id :: middle ++ op :: after →
        op = .connect id ∨ op = .disconnect id →
        Event.sentTo ((run before).hub.connect id).2 (run ops).history =
          Event.sentTo ((run before).hub.connect id).2 (run (before ++ .connect id :: middle)).history := by
  have hrun := recorded_run ops
  refine ⟨fun receiver e => ?_, hrun.accounts, fun n => Event.lost_eq_nil, ?_⟩
  · rcases send_cases (run ops).hub receiver e with
      ⟨n, inbox, hroute, hn, hread, hsend⟩ | ⟨⟨f, hsend⟩, hclosed⟩
    · refine iff_of_true ⟨_, hsend⟩ ⟨n, (hrun.routes receiver).symm.trans hroute, fun es hes => ?_⟩
      have hdropped := (hrun.dropped n).2 ⟨es, hes⟩
      rw [isDropped_eq hn, hread] at hdropped
      exact absurd hdropped (by decide)
    · refine iff_of_false (fun ⟨hub, hok⟩ => absurd (hsend.symm.trans hok) (by simp)) ?_
      rintro ⟨n, hregistered, hnever⟩
      have hid := Event.ids_of_registered hregistered
      rw [← hrun.ids, List.getElem?_map] at hid
      obtain ⟨inbox, hn, -⟩ := Option.map_eq_some_iff.1 hid
      have hdropped := hclosed n inbox ((hrun.routes receiver).trans hregistered) hn
      rw [← isDropped_eq hn] at hdropped
      obtain ⟨es, hes⟩ := (hrun.dropped n).1 hdropped
      exact hnever es hes
  · rintro before id middle op after rfl hop
    have hretired := retired_run before id middle hop
    have hsame : Event.sentTo ((run before).hub.connect id).2
        (run (before ++ .connect id :: middle ++ [op])).history =
        Event.sentTo ((run before).hub.connect id).2 (run (before ++ .connect id :: middle)).history := by
      rw [run_concat]
      rcases hop with rfl | rfl <;> rfl
    rw [← hsame]
    have hrest := run_append_induction
      (P := fun history => Event.Retired ((run before).hub.connect id).2 history ∧
        Event.sentTo ((run before).hub.connect id).2 history = Event.sentTo ((run before).hub.connect id).2
          (run (before ++ .connect id :: middle ++ [op])).history)
      (fun e history h => ⟨(h.1.cons e).1, (h.1.cons e).2.trans h.2⟩) after ⟨hretired, rfl⟩
    rw [List.append_assoc, List.singleton_append] at hrest
    exact hrest.2

def twice : List Op :=
  [.connect "a", .connect "b", .send 0 "b" "early" .null, .connect "b", .send 0 "b" "late" .null]

theorem delivered_exactly_twice :
    Event.sentTo 1 (run twice).history = [⟨"a", "early", .null⟩] ∧
      Event.taken 1 (run twice).history ++ Event.lost 1 (run twice).history ++ (run twice).hub.waiting 1 =
        [⟨"a", "early", .null⟩] ∧
      ∃ hub, (run twice).hub.send "b" ⟨"a", "next", .null⟩ = .ok hub := by
  obtain ⟨hsend, haccounts, -, hretired⟩ := delivered_exactly twice
  have hsent : Event.sentTo 1 (run twice).history = [⟨"a", "early", .null⟩] :=
    hretired [.connect "a"] "b" [.send 0 "b" "early" .null] (.connect "b") [.send 0 "b" "late" .null]
      rfl (Or.inl rfl)
  refine ⟨hsent, (haccounts 1).trans hsent, (hsend "b" _).2 ⟨2, rfl, fun es hes => ?_⟩⟩
  have hhistory : (run twice).history = [.sent 0 "b" "late" .null, .connected "b",
      .sent 0 "b" "early" .null, .connected "b", .connected "a"] := rfl
  simp [hhistory] at hes

def unread : List Op := [.connect "a", .connect "b", .send 0 "b" "m" .null, .dropInbox 1]

/-- What is in a dropped inbox is nowhere afterwards. -/
theorem lost_when_unread :
    ¬ ∀ ops n, Event.taken n (run ops).history ++ (run ops).hub.waiting n =
      Event.sentTo n (run ops).history := by
  intro h
  exact absurd (congrArg List.length (h unread 1)) (by decide +kernel)

end Traffic
end EditSync.Hub
