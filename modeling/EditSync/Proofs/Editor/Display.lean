import EditSync.Proofs.Editor.Resolving

/-! What a display comes to by any results and news, in any order, where a result may be given to it for
any location. It shows what the result found that was taken last, or nothing. From the news that the project
is being resolved on it takes none until it is resolved. A result that is for another location leaves it as
it is, so a message of the server changes what one editor shows at most. -/

namespace EditSync

/-- A problem that is marked as both counts as an error. -/
def Problem.severity (p : Problem) : Severity :=
  if p.error then .error else if p.warning then .warning else .clean

namespace Severity

def rank : Severity → Nat
  | clean => 0
  | warning => 1
  | error => 2

structure IsWorst (s : Severity) (ps : List Problem) : Prop where
  bound : ∀ p ∈ ps, p.severity.rank ≤ s.rank
  attained : s = .clean ∨ ∃ p ∈ ps, p.severity = s

theorem isWorst_worst (ps : List Problem) : (worst ps).IsWorst ps := by
  rw [worst]
  split
  · next herror =>
    obtain ⟨p, hp, he⟩ := List.any_eq_true.1 herror
    refine ⟨fun q _ => ?_, Or.inr ⟨p, hp, if_pos he⟩⟩
    cases q.severity <;> decide
  · next herror =>
    have hnone : ∀ p ∈ ps, ¬ p.error = true := fun p hp he => herror (List.any_eq_true.2 ⟨p, hp, he⟩)
    split
    · next hwarning =>
      obtain ⟨p, hp, hw⟩ := List.any_eq_true.1 hwarning
      refine ⟨fun q hq => ?_, Or.inr ⟨p, hp, ?_⟩⟩
      · rw [Problem.severity, if_neg (hnone q hq)]
        split <;> decide
      · rw [Problem.severity, if_neg (hnone p hp), if_pos hw]
    · next hwarning =>
      refine ⟨fun p hp => Nat.le_of_eq ?_, Or.inl rfl⟩
      rw [Problem.severity, if_neg (hnone p hp), if_neg fun hw => hwarning (List.any_eq_true.2 ⟨p, hp, hw⟩)]

end Severity

/-- A list is split at its last item or before it. -/
theorem split_concat {α : Type} {xs before rest : List α} {x y : α} (h : xs ++ [x] = before ++ y :: rest) :
    (xs = before ∧ x = y ∧ rest = []) ∨ ∃ rest', rest = rest' ++ [x] ∧ xs = before ++ y :: rest' := by
  rcases List.eq_nil_or_concat rest with rfl | ⟨rest', z, rfl⟩
  · obtain ⟨rfl, hx⟩ := List.append_inj' h rfl
    exact Or.inl ⟨rfl, List.singleton_inj.1 hx, rfl⟩
  · rw [List.concat_eq_append] at h ⊢
    rw [← List.cons_append, ← List.append_assoc] at h
    obtain ⟨rfl, hx⟩ := List.append_inj' h rfl
    exact Or.inr ⟨rest', by rw [List.singleton_inj.1 hx], rfl⟩

namespace Display

inductive Op where
  /-- A result is given to the display for a location. -/
  | route (location : String) (r : ReconcileResult)
  | resolving (state : Resolving)

def step (d : Display) : Op → Display
  | .route location r => (d.route location r).1
  | .resolving state => (d.onResolving state).1

def run (ops : List Op) : Display := ops.foldl step {}

theorem run_concat (ops : List Op) (op : Op) : run (ops ++ [op]) = (run ops).step op := by
  rw [run, List.foldl_append]
  rfl

def Accepts (d : Display) (location : String) (r : ReconcileResult) : Prop :=
  ∃ severity, (d.route location r).2 = .applied severity

def LastAccepted (ops : List Op) (r : ReconcileResult) : Prop :=
  ∃ before location after, ops = before ++ .route location r :: after ∧ (run before).Accepts location r ∧
    ∀ middle location' r' rest, after = middle ++ .route location' r' :: rest →
      ¬ (run (before ++ .route location r :: middle)).Accepts location' r'

/-- The news have come that the project is being resolved, and not that it is resolved. -/
def Unresolved (ops : List Op) : Prop :=
  ∃ before after, ops = before ++ .resolving .inProgress :: after ∧ .resolving .resolved ∉ after

variable {d : Display} {ops : List Op} {op : Op} {location : String} {r : ReconcileResult}

theorem route_of_resolving (h : r.owner = location) (hd : d.resolving = some .inProgress) :
    d.route location r = (d.disable, .suppressed) := by
  rw [route, if_neg (fun hne => hne h), if_pos hd]

theorem route_of_accepts (h : d.Accepts location r) :
    d.route location r =
      ({ d with state := .active (Severity.worst r.problems), shown := r.toAnalysis },
        .applied (Severity.worst r.problems)) := by
  obtain ⟨severity, h⟩ := h
  rw [route] at h ⊢
  split at h
  · cases h
  · next howner =>
    rw [if_neg howner]
    split at h
    · cases h
    · next hresolving => rw [if_neg hresolving]

theorem accepts_iff : d.Accepts location r ↔ r.owner = location ∧ d.resolving ≠ some .inProgress := by
  unfold Accepts route
  split
  · next howner => exact iff_of_false (by simp) fun h => howner h.1
  · next howner =>
    split
    · next hresolving => exact iff_of_false (by simp) fun h => h.2 hresolving
    · next hresolving => exact iff_of_true ⟨_, rfl⟩ ⟨not_not.1 howner, hresolving⟩

/-- A step takes a result, or ends what is shown, or leaves it. -/
theorem step_cases (d : Display) (op : Op) :
    (∃ location r, op = .route location r ∧ d.Accepts location r) ∨
      (d.step op).state = .disabled ∧ (d.step op).shown = {} ∨
      (∀ location r, op = .route location r → ¬ d.Accepts location r) ∧ (d.step op).state = d.state ∧
        (d.step op).shown = d.shown := by
  cases op with
  | route location r =>
    by_cases howner : r.owner = location
    · by_cases hresolving : d.resolving = some .inProgress
      · rw [step, route_of_resolving howner hresolving]
        exact Or.inr (Or.inl ⟨rfl, rfl⟩)
      · exact Or.inl ⟨location, r, rfl, accepts_iff.2 ⟨howner, hresolving⟩⟩
    · rw [step, route_of_ne howner]
      refine Or.inr (Or.inr ⟨fun location' r' h haccepts => howner ?_, rfl, rfl⟩)
      obtain ⟨rfl, rfl⟩ := Op.route.inj h
      exact (accepts_iff.1 haccepts).1
  | resolving state =>
    cases state with
    | inProgress => exact Or.inr (Or.inl ⟨rfl, rfl⟩)
    | resolved => exact Or.inr (Or.inr ⟨fun location r h => absurd h (by simp), rfl, rfl⟩)

/-- Only news change which news came last. -/
theorem resolving_step (d : Display) (op : Op) :
    (d.step op).resolving = match op with
      | .route _ _ => d.resolving
      | .resolving state => some state := by
  cases op with
  | route location r =>
    rw [step, route]
    split
    · rfl
    · split <;> rfl
  | resolving state => cases state <;> rfl

theorem LastAccepted.concat (h : LastAccepted ops r)
    (hop : ∀ location' r', op = .route location' r' → ¬ (run ops).Accepts location' r') :
    LastAccepted (ops ++ [op]) r := by
  obtain ⟨before, location, after, rfl, haccepts, hlast⟩ := h
  refine ⟨before, location, after ++ [op], by simp, haccepts, ?_⟩
  intro middle location' r' rest hsplit
  rcases split_concat hsplit with ⟨rfl, hroute, -⟩ | ⟨rest', -, hafter⟩
  · exact hop location' r' hroute
  · exact hlast middle location' r' rest' hafter

theorem unresolved_concat :
    Unresolved (ops ++ [op]) ↔
      op = .resolving .inProgress ∨ Unresolved ops ∧ op ≠ .resolving .resolved := by
  constructor
  · rintro ⟨before, after, hsplit, hafter⟩
    rcases split_concat hsplit with ⟨-, hop, -⟩ | ⟨rest, rfl, rfl⟩
    · exact Or.inl hop
    · rw [List.mem_append, not_or, List.mem_singleton] at hafter
      exact Or.inr ⟨⟨before, rest, rfl, hafter.1⟩, Ne.symm hafter.2⟩
  · rintro (rfl | ⟨⟨before, after, rfl, hafter⟩, hop⟩)
    · exact ⟨ops, [], rfl, List.not_mem_nil⟩
    · refine ⟨before, after ++ [op], by simp, ?_⟩
      rw [List.mem_append, not_or, List.mem_singleton]
      exact ⟨hafter, Ne.symm hop⟩

/-- A display remembers which news came last. -/
theorem resolving_run (ops : List Op) : (run ops).resolving = some .inProgress ↔ Unresolved ops := by
  induction ops using List.reverseRecOn with
  | nil => exact iff_of_false (by simp [run]) fun ⟨before, after, h, _⟩ => by simp at h
  | append_singleton ops op ih =>
    rw [run_concat, resolving_step, unresolved_concat, ← ih]
    cases op with
    | route location r => simp
    | resolving state => cases state <;> simp

/-- A severity is that of the result taken last, and what is shown is what that found. -/
theorem shown_run (ops : List Op) :
    (∀ severity, (run ops).state = .active severity →
        ∃ r, LastAccepted ops r ∧ severity = Severity.worst r.problems ∧ (run ops).shown = r.toAnalysis) ∧
      ((run ops).state = .idle ∨ (run ops).state = .disabled → (run ops).shown = {}) := by
  induction ops using List.reverseRecOn with
  | nil => exact ⟨fun severity h => absurd h (by simp [run]), fun _ => rfl⟩
  | append_singleton ops op ih =>
    obtain ⟨hactive, hblank⟩ := ih
    rw [run_concat]
    rcases step_cases (run ops) op with
      ⟨location, r, rfl, haccepts⟩ | ⟨hstate, hshown⟩ | ⟨hrefused, hstate, hshown⟩
    · rw [step, route_of_accepts haccepts]
      have hlast : LastAccepted (ops ++ [.route location r]) r :=
        ⟨ops, location, [], rfl, haccepts, fun middle location' r' rest h => by simp at h⟩
      exact ⟨fun severity h => ⟨r, hlast, (DisplayState.active.inj h).symm, rfl⟩, fun h => by simp at h⟩
    · exact ⟨fun severity h => absurd (hstate.symm.trans h) (by simp), fun _ => hshown⟩
    · rw [hstate, hshown]
      refine ⟨fun severity h => ?_, hblank⟩
      obtain ⟨r, hlast, hseverity, hanalysis⟩ := hactive severity h
      exact ⟨r, hlast.concat hrefused, hseverity, hanalysis⟩

theorem foldl_step_silent (h : .resolving .resolved ∉ ops) : ops.foldl step silent = silent := by
  induction ops with
  | nil => rfl
  | cons op ops ih =>
    rw [List.mem_cons, not_or] at h
    have hop : silent.step op = silent := by
      cases op with
      | route location r => exact route_silent location r
      | resolving state =>
        cases state with
        | inProgress => rfl
        | resolved => exact absurd rfl h.1
    rw [List.foldl_cons, hop, ih h.2]

theorem run_of_unresolved (h : Unresolved ops) : run ops = silent := by
  obtain ⟨before, after, rfl, hafter⟩ := h
  rw [run, List.foldl_append, List.foldl_cons]
  exact foldl_step_silent hafter

/-- What can be said of a display whatever has happened to it. -/
structure Consistent (ops : List Op) : Prop where
  active : ∀ severity, (run ops).state = .active severity →
    severity.IsWorst (run ops).shown.problems ∧ ∃ r, LastAccepted ops r ∧ (run ops).shown = r.toAnalysis
  blank : (run ops).state = .idle ∨ (run ops).state = .disabled → (run ops).shown = {}
  unresolved : Unresolved ops → (run ops).state = .disabled ∧
    ∀ location r, r.owner = location → (run ops).route location r = (run ops, .suppressed)
  accepted : ∀ location r, (run ops).Accepts location r ↔ r.owner = location ∧ ¬ Unresolved ops
  stale : ∀ location r, r.owner ≠ location → (run ops).route location r = (run ops, .stale)

theorem consistent (ops : List Op) : Consistent ops where
  active severity h := by
    obtain ⟨r, hlast, rfl, hshown⟩ := (shown_run ops).1 severity h
    refine ⟨?_, r, hlast, hshown⟩
    rw [hshown]
    exact Severity.isWorst_worst r.problems
  blank := (shown_run ops).2
  unresolved h := by
    rw [run_of_unresolved h]
    exact ⟨rfl, fun location r howner => route_of_resolving howner rfl⟩
  accepted location r := by
    rw [accepts_iff, ne_eq, resolving_run]
  stale location r howner := by
    rw [route, if_pos howner]

theorem exists_run_of_react (ops : List Op) (location : String) (i : Session.Input) :
    ∃ ops', (run ops).react location i = run ops' := by
  cases i with
  | host event =>
    cases event with
    | resolving state => exact ⟨ops ++ [.resolving state], by rw [run_concat]; rfl⟩
    | opened _ | changed _ _ | closed _ | moved _ _ => exact ⟨ops, rfl⟩
  | inbound e =>
    rw [react]
    split
    · next r _ => exact ⟨ops ++ [.route location r], by rw [run_concat]; rfl⟩
    · exact ⟨ops, rfl⟩
  | saving _ _ | pass _ | ring _ | tick _ => exact ⟨ops, rfl⟩

end Display

namespace Session

/-- Whatever an open editor shows has come from results and news. -/
theorem exists_run_of_display? {host : Host} {options : SessionOptions} {inputs : List Input} {l : String}
    {d : Display} (h : (run host (start options) inputs).1.display? l = some d) :
    ∃ ops, d = Display.run ops := by
  induction inputs using List.reverseRecOn generalizing l d with
  | nil => exact absurd h (by simp [run, start, display?])
  | append_singleton inputs i ih =>
    rw [session_run_concat] at h
    rcases display?_react_iff.1 h with ⟨k, d, hd, -, rfl⟩ | ⟨-, -, -, -, rfl⟩
    · obtain ⟨ops, rfl⟩ := ih hd
      exact Display.exists_run_of_react ops k i
    · exact ⟨[], rfl⟩

theorem get?_handleInbound_of_result (s : Session) {e : Envelope} {r : ReconcileResult}
    (h : e.result? = some r) (l : String) :
    (s.handleInbound e).session.editors.get? l =
      if l = r.owner then
        (s.editors.get? l).map fun editor => { editor with display := (editor.display.route l r).1 }
      else s.editors.get? l := by
  rw [Envelope.result?] at h
  split at h
  · next hmethod =>
    cases hdecode : e.decode ReconcileResult.ofJson? with
    | error f =>
      rw [hdecode] at h
      cases h
    | ok r' =>
      rw [hdecode] at h
      obtain rfl := Option.some.inj h
      rw [handleInbound, if_pos hmethod, hdecode]
      simp only [Table.get?_mapValues]
      split
      · rfl
      · next hne =>
        have hsame : ∀ editor : OpenEditor,
            { editor with display := (editor.display.route l r').1 } = editor := fun editor => by
          rw [Display.route_of_ne (Ne.symm hne)]
        simp only [hsame]
        exact Option.map_id'
  · cases h

end Session

namespace Display

/-- Whatever comes to a display: it is active only with the worst severity of the problems that it shows,
and shows what the result found that was taken last; else it shows nothing. Between the news that the project
is being resolved and that it is resolved it is disabled, and takes no result that is for it. A result that
is for another location changes nothing. That holds of every open editor; and a result that arrives leaves
every editor as it is but the one at the location that it is for, whose display it is given to. -/
theorem shows_last_accepted :
    (∀ ops, Consistent ops) ∧
      (∀ (host : Host) (options : SessionOptions) (inputs : List Session.Input) (l : String) (d : Display),
        (Session.run host (Session.start options) inputs).1.display? l = some d → ∃ ops, d = run ops) ∧
      ∀ (s : Session) (e : Envelope) (r : ReconcileResult), e.result? = some r →
        ∀ l, (s.handleInbound e).session.editors.get? l =
          if l = r.owner then
            (s.editors.get? l).map fun editor => { editor with display := (editor.display.route l r).1 }
          else s.editors.get? l :=
  ⟨consistent, fun _ _ _ _ _ h => Session.exists_run_of_display? h,
    fun s _ _ h l => Session.get?_handleInbound_of_result s h l⟩

def torn : ReconcileResult := ⟨⟨[.ofWarning "unused" 3 4, .ofError "torn" 0 1], [⟨0, 1, "todo"⟩]⟩, "/p/a"⟩

def mended : ReconcileResult := ⟨⟨[.ofWarning "unused" 3 4], []⟩, "/p/a"⟩

def sampleOps : List Op :=
  [.route "/p/a" torn, .resolving .inProgress, .route "/p/a" torn, .resolving .resolved, .route "/p/b" torn,
    .route "/p/a" mended]

def twoOpen : List Session.Input :=
  [.host (.opened ⟨"/p/b", "/p", "", false⟩), .host (.opened ⟨"/p/a", "/p", "", false⟩)]

def tornSent : Envelope := Message.envelope ⟨"client", .result torn⟩ "server"

theorem shows_last_accepted_sampleOps :
    let session (inputs : List Session.Input) : Session :=
      (Session.run { owner := fun _ => "" } (Session.start {}) inputs).1
    (Severity.IsWorst .warning (run sampleOps).shown.problems ∧
        ∃ r, LastAccepted sampleOps r ∧ (run sampleOps).shown = r.toAnalysis) ∧
      Unresolved (sampleOps.take 3) ∧
      (run (sampleOps.take 3)).route "/p/a" mended = (run (sampleOps.take 3), .suppressed) ∧
      (run sampleOps).route "/p/b" torn = (run sampleOps, .stale) ∧
      (∃ d, (session (twoOpen ++ [.inbound tornSent])).display? "/p/a" = some d ∧ d.state = .active .error ∧
        ∃ ops, d = run ops) ∧
      ((session twoOpen).handleInbound tornSent).session.editors.get? "/p/b" =
        (session twoOpen).editors.get? "/p/b" := by
  intro session
  obtain ⟨hconsistent, hsession, hinbound⟩ := shows_last_accepted
  have hsuppressed : Unresolved (sampleOps.take 3) :=
    ⟨[.route "/p/a" torn], [.route "/p/a" torn], rfl, by simp⟩
  have hd : (session (twoOpen ++ [.inbound tornSent])).display? "/p/a" =
      some { state := .active .error, shown := torn.toAnalysis } := by decide +kernel
  have hresult : tornSent.result? = some torn := by decide +kernel
  refine ⟨(hconsistent sampleOps).active .warning rfl, hsuppressed,
    ((hconsistent _).unresolved hsuppressed).2 "/p/a" mended rfl,
    (hconsistent sampleOps).stale "/p/b" torn (by decide), ⟨_, hd, rfl, hsession _ _ _ _ _ hd⟩, ?_⟩
  rw [hinbound (session twoOpen) tornSent torn hresult "/p/b", if_neg (by decide)]

end Display
end EditSync
