import EditSync.Proofs.Link.Mirror

/-! One editor session and one server, joined by a channel each way that loses nothing and keeps the
order. In every state that they can reach, the messages on their way and what an open editor has still to
send make the server's copy of its document the document, and the server never has to ask for it. -/

namespace EditSync

open Text Service

structure Ends where
  host : Host
  options : SessionOptions
  /-- The endpoint of the session. -/
  client : String
  /-- The saved contents are those of the time of each message instead of the ones given here. -/
  env : Setting

structure Link where
  session : Session
  service : Service := {}
  toServer : List Parcel := []
  toClient : List Message := []

namespace Link

inductive Action where
  | input (i : Session.Input)
  /-- The server takes the next message, with the saved contents of that time. -/
  | serve (source : Source)
  | begin (q : AnalysisRequest)
  | complete (a : RunningAnalysis)
  /-- The session takes the next message. -/
  | receive

variable (ends : Ends)

def start : Link := { session := .start ends.options }

def input (l : Link) (i : Session.Input) : Link :=
  { l with
    session := (l.session.react ends.host i).1
    toServer := l.toServer ++ l.session.posted ends.host i }

def step (l : Link) : Action → Link
  | .input i => l.input ends i
  | .serve source =>
    match l.toServer with
    | [] => l
    | parcel :: rest =>
      let r := take ends.env ends.client source (l.service, l.toClient) parcel.message
      { l with service := r.1, toServer := rest, toClient := r.2 }
  | .begin q => if q ∈ l.service.waiting then { l with service := l.service.begin q } else l
  | .complete a =>
    if a ∈ l.service.running then
      let r := l.service.complete ends.env a
      { l with service := r.1, toClient := l.toClient ++ r.2 }
    else l
  | .receive =>
    match l.toClient with
    | [] => l
    | m :: rest => input ends { l with toClient := rest } (.inbound (m.envelope ends.options.endpoint))

/-- A file that the server starts has the contents that its document was opened with. -/
def Reads (l : Link) : Action → Prop
  | .serve source => ∀ parcel ∈ l.toServer.head?, parcel.Reads source
  | _ => True

/-- The states of all runs in which started files are read as they were opened and the server can tell
the open documents apart at any time. -/
inductive Reachable : Link → Prop
  | start : Reachable (start ends)
  | step {l : Link} (a : Action) (before : Reachable l) (reads : l.Reads a)
      (apart : (l.step ends a).session.Apart) : Reachable (l.step ends a)

structure Converging (l : Link) : Prop where
  kept : l.session.Kept
  apart : l.session.Apart
  delivers : Delivers ends.env ends.client l.session.Mirrored l.toServer l.service.registry
  answers : ∀ m ∈ l.toClient, ∀ r, m.payload ≠ .resync r

variable {ends} {l : Link}

theorem converging_start : Converging ends (start ends) where
  kept := fun k e he => absurd he (by simp [start, Session.start])
  apart := fun k _ hk => absurd hk (by simp [start, Session.start, Session.isOpen_eq])
  delivers :=
    ⟨fun k e he => absurd he (by simp [start, Session.start]),
      fun k c hk => absurd hk (by simp [start])⟩
  answers := fun m hm => absurd hm List.not_mem_nil

theorem converging_input (h : Converging ends l) (i : Session.Input)
    (hapart : (l.input ends i).session.Apart) : Converging ends (l.input ends i) where
  kept := Session.kept_react ends.host h.kept i
  apart := hapart
  delivers := h.delivers.append _ fun _ hm =>
    Session.mirrored_react h.kept h.apart hm ends.host i hapart
  answers := h.answers

theorem converging_serve (h : Converging ends l) (source : Source) (hreads : l.Reads (.serve source)) :
    Converging ends (l.step ends (.serve source)) := by
  rw [step]
  split
  · exact h
  · next parcel rest hto =>
    have hdelivers := h.delivers
    rw [hto] at hdelivers
    obtain ⟨r', htakes, hrest⟩ := hdelivers source (hreads parcel (by rw [hto]; rfl))
    obtain ⟨hregistry, hsent⟩ := htakes (l.service, l.toClient) rfl
    refine ⟨h.kept, h.apart, ?_, ?_⟩
    · rw [← hregistry] at hrest
      exact hrest
    · dsimp only
      rw [hsent]
      exact h.answers

theorem converging_step (h : Converging ends l) (a : Action) (hreads : l.Reads a)
    (hapart : (l.step ends a).session.Apart) : Converging ends (l.step ends a) := by
  cases a with
  | input i => exact converging_input h i hapart
  | serve source => exact converging_serve h source hreads
  | begin q =>
    rw [step]
    split
    · refine ⟨h.kept, h.apart, ?_, h.answers⟩
      rw [begin_eq]
      exact h.delivers
    · exact h
  | complete a =>
    rw [step]
    split
    · refine ⟨h.kept, h.apart, h.delivers, fun m hm r => ?_⟩
      rcases List.mem_append.1 hm with hm | hm
      · exact h.answers m hm r
      · obtain ⟨-, -, -, -, -, rfl⟩ := mem_outcome.1 hm
        simp
    · exact h
  | receive =>
    rw [step] at hapart ⊢
    split
    · exact h
    · next m rest hto =>
      rw [hto] at hapart
      have hrest : Converging ends { l with toClient := rest } :=
        ⟨h.kept, h.apart, h.delivers, fun n hn => h.answers n (by rw [hto]; exact List.mem_cons_of_mem _ hn)⟩
      exact converging_input hrest _ hapart

theorem Reachable.converging (h : Reachable ends l) : Converging ends l := by
  induction h with
  | start => exact converging_start
  | step a _ reads apart ih => exact converging_step ih a reads apart

def outstanding (e : OpenEditor) : List Parcel :=
  e.unsent.map fun change => ⟨e.reporter.message (.change change), none⟩

theorem Converging.shows (h : Converging ends l) {location : String} {e : OpenEditor}
    {given : List (Parcel × Source)} (he : l.session.editors.get? location = some e)
    (hgiven : given.map Prod.fst = l.toServer ++ outstanding e)
    (hreads : ∀ g ∈ given, g.1.Reads g.2) :
    (takeAll ends.env ends.client (l.service, []) given).1.registry.Shows location
        e.document.contents ∧
      (takeAll ends.env ends.client (l.service, []) given).2 = [] := by
  have hdelivers : Delivers ends.env ends.client (fun r => r.Shows location e.document.contents)
      (l.toServer ++ outstanding e) l.service.registry := by
    refine h.delivers.append _ fun r hm => ?_
    obtain ⟨c, hf, hby⟩ := hm.copies location e he
    exact (Session.delivers_unsent (h.kept location e he) hf hby).mono fun _ hholds => hholds.1
  rw [← hgiven] at hdelivers
  exact hdelivers.takeAll (x := (l.service, [])) hreads

/-- Whatever the two ends did and in whatever order: once the server has taken all that is on its way and
what an open editor still has to send, its copy is synchronized and is the document, and it has asked
for nothing. It is so at once if nothing is on its way or to be sent. Messages of all editors count, since
those of one may free the key of another. -/
theorem mirror_converges (ends : Ends) {l : Link} (h : Reachable ends l) :
    (∀ location e (given : List (Parcel × Source)), l.session.editors.get? location = some e →
        given.map Prod.fst = l.toServer ++ outstanding e → (∀ g ∈ given, g.1.Reads g.2) →
        (takeAll ends.env ends.client (l.service, []) given).1.registry.Shows location
            e.document.contents ∧
          (takeAll ends.env ends.client (l.service, []) given).2 = []) ∧
      (∀ location e, l.session.editors.get? location = some e → e.capture.queue.deltas = [] →
        e.reporter.needsResync = false → l.toServer = [] →
        l.service.registry.Shows location e.document.contents) ∧
      ∀ m ∈ l.toClient, ∀ r, m.payload ≠ .resync r := by
  have hconv := h.converging
  refine ⟨fun location e given he hgiven hreads => hconv.shows he hgiven hreads, ?_, hconv.answers⟩
  intro location e he hqueue hresync hto
  have hnone : ([] : List (Parcel × Source)).map Prod.fst = l.toServer ++ outstanding e := by
    rw [hto, outstanding, OpenEditor.unsent, hresync, hqueue]
    rfl
  exact (hconv.shows he hnone fun g hg => absurd hg List.not_mem_nil).1

def briefly : List Action :=
  let location := "/p/./a"
  [.input (.host (.opened ⟨location, "/p", "ab", false⟩)),
    .input (.host (.changed location ⟨0, 0, some "x"⟩)),
    .input (.pass 1000), .input (.ring ⟨location, 1, 1000⟩), .input (.tick ⟨location, 1, 1000⟩),
    .serve fun _ => .ok "ab", .serve fun _ => .ok "ab"]

def brieflyEnds : Ends where
  host := { owner := fun _ => "" }
  options := {}
  client := "client-1"
  env := { source := fun _ => .ok "" }

def stateAt (ends : Ends) (actions : List Action) (n : Nat) : Link :=
  (actions.take n).foldl (step ends) (start ends)

def afterwards (n : Nat) : Link := stateAt brieflyEnds briefly n

theorem stateAt_succ (ends : Ends) (actions : List Action) {n : Nat} (hn : n < actions.length) :
    stateAt ends actions (n + 1) = (stateAt ends actions n).step ends actions[n] := by
  rw [stateAt, List.take_add_one, List.getElem?_eq_getElem hn, List.foldl_append]
  rfl

theorem apart_of_keys {s : Session}
    (h : ∀ k ∈ s.editors.keys, ∀ l ∈ s.editors.keys, Path.clean k = Path.clean l → k = l) : s.Apart :=
  fun k l hk hl => h k ((s.editors.mem_keys k).2 hk) l ((s.editors.mem_keys l).2 hl)

theorem parcel_reads_of_opening {p : Parcel} {content : String}
    (h : p.opening = none ∨ p.opening = some content) : p.Reads fun _ => .ok content := by
  intro o contents _ _ hopening
  rcases h with hnone | hsome
  · exact absurd (hnone.symm.trans hopening) (by simp)
  · rw [Option.some.inj (hsome.symm.trans hopening)]

theorem reads_of_opening {content : String}
    (h : ∀ parcel ∈ l.toServer.head?, parcel.opening = none ∨ parcel.opening = some content) :
    l.Reads (.serve fun _ => .ok content) :=
  fun parcel hp => parcel_reads_of_opening (h parcel hp)

/-- A run whose files all have the same contents when they are started, which are those that their
documents were opened with. -/
theorem reachable_stateAt {actions : List Action} (content : String)
    (hserves : ∀ source, .serve source ∈ actions → source = fun _ => .ok content)
    (hopening : ∀ n < actions.length, ∀ parcel ∈ (stateAt ends actions n).toServer.head?,
      parcel.opening = none ∨ parcel.opening = some content)
    (hkeys : ∀ n ≤ actions.length, ∀ k ∈ (stateAt ends actions n).session.editors.keys,
      ∀ l ∈ (stateAt ends actions n).session.editors.keys, Path.clean k = Path.clean l → k = l)
    (n : Nat) (hn : n ≤ actions.length) : Reachable ends (stateAt ends actions n) := by
  induction n with
  | zero => exact .start
  | succ n ih =>
    have hreads : (stateAt ends actions n).Reads actions[n] := by
      cases ha : actions[n] with
      | serve source =>
        rw [hserves source (ha ▸ List.getElem_mem hn)]
        exact reads_of_opening (hopening n hn)
      | input i => trivial
      | begin q => trivial
      | complete a => trivial
      | receive => trivial
    have hapart := apart_of_keys (hkeys (n + 1) hn)
    rw [stateAt_succ ends actions hn] at hapart ⊢
    exact .step _ (ih (Nat.le_of_succ_le hn)) hreads hapart

theorem reachable_afterwards : Reachable brieflyEnds (afterwards 7) :=
  reachable_stateAt "ab" (by simp [briefly]) (by decide +kernel) (by decide +kernel) 7 (by decide)

theorem mirror_converges_afterwards :
    ∃ e, (afterwards 7).session.editors.get? "/p/./a" = some e ∧ e.document.contents = "xab" ∧
      (afterwards 7).service.registry.Shows "/p/./a" e.document.contents := by
  have hopen : ((afterwards 7).session.editors.get? "/p/./a").map (fun e =>
      (e.document.contents, e.capture.queue.deltas, e.reporter.needsResync)) =
        some ("xab", [], false) := by decide +kernel
  obtain ⟨e, he, heq⟩ := Option.map_eq_some_iff.1 hopen
  obtain ⟨hcontents, hrest⟩ := Prod.mk.inj heq
  obtain ⟨hqueue, hresync⟩ := Prod.mk.inj hrest
  have hnothing : (afterwards 7).toServer = [] := by
    rw [← List.length_eq_zero_iff]
    decide +kernel
  exact ⟨e, he, hcontents,
    (mirror_converges brieflyEnds reachable_afterwards).2.1 "/p/./a" e he hqueue hresync hnothing⟩

/-- A document is opened and its file started; then it is closed and opened again with other contents. -/
def reopening : List Action :=
  [.input (.host (.opened ⟨"/p/a", "/p", "A", false⟩)), .serve fun _ => .ok "A",
    .input (.host (.closed "/p/a")), .input (.host (.opened ⟨"/p/a", "/p", "C", false⟩))]

def reopened (n : Nat) : Link := stateAt brieflyEnds reopening n

theorem reachable_reopened : Reachable brieflyEnds (reopened 4) :=
  reachable_stateAt "A" (by simp [reopening]) (by decide +kernel) (by decide +kernel) 4 (by decide)

/-- What an editor itself has on its way and to send is not enough: the file that it starts is still
tracked for the editor before it, whose end the server has not been told. -/
theorem own_messages_not_enough :
    let again : Document := ⟨"/p/a", "/p", "C", false⟩
    let own := (reopened 3).session.posted brieflyEnds.host (.host (.opened again))
    Reachable brieflyEnds (reopened 4) ∧
      (reopened 3).session.editors.get? "/p/a" = none ∧
      reopened 4 = (reopened 3).step brieflyEnds (.input (.host (.opened again))) ∧
      ∃ e, (reopened 4).session.editors.get? "/p/a" = some e ∧ e.document.contents = "C" ∧
        ∃ given : List (Parcel × Source), given.map Prod.fst = own ++ outstanding e ∧
          (∀ g ∈ given, g.1.Reads g.2) ∧
          ¬ (takeAll brieflyEnds.env brieflyEnds.client ((reopened 4).service, []) given).1.registry.Shows
            "/p/a" e.document.contents := by
  intro again own
  have hclosed : ((reopened 3).session.editors.get? "/p/a").isNone = true := by decide +kernel
  have hopen : ((reopened 4).session.editors.get? "/p/a").map (fun e => (e.document.contents, e.unsent)) =
      some ("C", []) := by decide +kernel
  obtain ⟨e, he, heq⟩ := Option.map_eq_some_iff.1 hopen
  obtain ⟨hcontents, hunsent⟩ := Prod.mk.inj heq
  refine ⟨reachable_reopened, Option.isNone_iff_eq_none.1 hclosed,
    stateAt_succ brieflyEnds reopening (n := 3) (by decide), e, he, hcontents,
    own.map fun p => (p, fun _ => .ok "C"), ?_, ?_, ?_⟩
  · rw [outstanding, hunsent]
    simp [Function.comp_def]
  · intro g hg
    obtain ⟨p, hp, rfl⟩ := List.mem_map.1 hg
    obtain ⟨m, -, rfl⟩ := List.mem_map.1 hp
    exact parcel_reads_of_opening (Or.inr rfl)
  · rintro ⟨c, hf, -, hcontent⟩
    have hkept : ((takeAll brieflyEnds.env brieflyEnds.client ((reopened 4).service, [])
        (own.map fun p => (p, fun _ => .ok "C"))).1.registry.find "/p/a").map (·.content) = some "A" := by
      decide +kernel
    rw [hf, Option.map_some, hcontent, hcontents] at hkept
    exact absurd hkept (by decide)

end Link
end EditSync
