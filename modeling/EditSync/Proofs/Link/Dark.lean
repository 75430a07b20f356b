import EditSync.Proofs.Editor.Reports
import EditSync.Proofs.Link.Mirror
import EditSync.Proofs.Workspace.Atomicity

/-! A server that can read none of the files that its client opens. Its copies come from the changes alone,
so what is on its way tells already what they will be, and what the server will answer. -/

namespace EditSync

open Text Service

def Parcel.Unreadable (p : Parcel) (source : Source) : Prop :=
  match p.message.payload with
  | .change c => ∃ e, source (Path.clean c.location) = .error e
  | .file o => ∃ e, source (Path.clean o.path) = .error e
  | _ => True

def Source.dark : Source := fun _ => .error (.io .notFound)

theorem Parcel.unreadable_dark (p : Parcel) : p.Unreadable .dark := by
  rw [Unreadable]
  split
  · exact ⟨_, rfl⟩
  · exact ⟨_, rfl⟩
  · trivial

def Asked (location : String) (ms : List Message) : Prop :=
  ∃ m ∈ ms, ∃ r, m.payload = .resync r ∧ r.location = location

theorem Asked.mono {location : String} {ms ms' : List Message} (h : Asked location ms)
    (hsub : ∀ m ∈ ms, m ∈ ms') : Asked location ms' := by
  obtain ⟨m, hm, hr⟩ := h
  exact ⟨m, hsub m hm, hr⟩

namespace Registry

/-- What the copies become by a message if nothing can be read, and what the server answers. -/
def heard (client : String) (r : Registry) (m : Message) : Registry × List Message :=
  let taken := take { source := .dark } client .dark ({ registry := r }, []) m
  (taken.1.registry, taken.2)

variable {client : String} {r : Registry}

/-- Without a copy and without a file, it does not matter why the file cannot be read. -/
theorem apply_of_unreadable {source source' : Source} {change : TextChange} {e e' : SyncError}
    (h : source (Path.clean change.location) = .error e)
    (h' : source' (Path.clean change.location) = .error e') (endpoint : String) :
    r.apply source change endpoint = r.apply source' change endpoint := by
  have hfresh : fresh source (Path.clean change.location) change.location change.project =
      fresh source' (Path.clean change.location) change.location change.project := by
    rw [fresh, fresh, h, h']
  rw [apply, apply, hfresh]

theorem heard_of_takes {m : Message} {r' : Registry}
    (h : Takes { source := .dark } client .dark r m r') : r.heard client m = (r', []) := by
  obtain ⟨hregistry, hsent⟩ := h ({ registry := r }, []) rfl
  exact Prod.ext hregistry hsent

theorem heard_change (receiver : String) (c : TextChange) :
    r.heard client ⟨receiver, .change c⟩ =
      ((r.apply .dark c client).1, (onChange { source := .dark } { registry := r } client c).sent) := by
  rw [heard, take_change]
  exact Prod.ext (registry_onChange _ _ _ _) rfl

theorem heard_file (receiver : String) (o : FileOperation) :
    r.heard client ⟨receiver, .file o⟩ =
      ((onFileOperation { source := .dark } { registry := r } client o).service.registry, []) := by
  rw [heard, take_file, sent_onFileOperation]
  rfl

/-- A file that cannot be read is not started, or is tracked already. -/
theorem registry_of_unreadable_start {env : Setting} {s : Service} {o : FileOperation} {e : SyncError}
    (action : o.action = .start) (h : env.source (Path.clean o.path) = .error e) (endpoint : String) :
    (onFileOperation env s endpoint o).service.registry = s.registry := by
  have hop := operated env s endpoint o
  generalize onFileOperation env s endpoint o = reaction at hop ⊢
  cases hop with
  | refused e => rfl
  | tracked copy _ found => exact registry_schedule _ _ _ _
  | started content r' _ found read copies => exact absurd (h.symm.trans read) (by simp)
  | stopped other => exact absurd (action.symm.trans other) (by simp)
  | stated state copy r' other found copies =>
    rcases other with other | other <;> exact absurd (action.symm.trans other) (by simp)
  | stayed oldPath other old same => exact absurd (action.symm.trans other) (by simp)
  | moved oldPath copy r' other old _ found copies => exact absurd (action.symm.trans other) (by simp)

theorem heard_start (receiver : String) {o : FileOperation} (action : o.action = .start) :
    r.heard client ⟨receiver, .file o⟩ = (r, []) := by
  rw [heard_file]
  exact Prod.ext (registry_of_unreadable_start action rfl client) rfl

theorem heard_stop (receiver : String) {o : FileOperation} (action : o.action = .stop) :
    r.heard client ⟨receiver, .file o⟩ = ((r.stop o.path).1, []) := by
  rw [heard_file, onFileOperation, operate, action]
  rfl

/-- A copy goes with its file to a key that has none, and no copy comes of a file without one. -/
theorem heard_move (client : String) (r : Registry) (receiver : String) {o : FileOperation}
    {oldPath : String} (action : o.action = .move) (old : o.oldPath = some oldPath)
    (free : Path.clean oldPath ≠ Path.clean o.path → r.find o.path = none) :
    ∃ r' relocated, r.heard client ⟨receiver, .file o⟩ = (r', []) ∧
      (∀ c : WorkingCopy, (relocated c).synchronized = c.synchronized ∧
        (relocated c).content = c.content) ∧
      r'.find o.path = (r.find oldPath).map relocated ∧
      ∀ k, k ≠ Path.clean o.path →
        r'.copies.get? k = if k = Path.clean oldPath then none else r.copies.get? k := by
  rw [heard_file, onFileOperation, operate, action, old]
  rcases r.move_cases oldPath o.path o.project with
    ⟨hsame, hmove⟩ | ⟨copy, r', hother, hf, hmove, hget⟩ | ⟨e, hother, hnone, hmove⟩
  · simp only [hmove]
    refine ⟨r, id, Prod.ext (registry_schedule _ _ _ _) rfl, fun c => ⟨rfl, rfl⟩, ?_, fun k hk => ?_⟩
    · rw [Option.map_id, id, find_eq, find_eq, hsame]
    · rw [if_neg (by rw [hsame]; exact hk)]
  · simp only [hmove]
    refine ⟨r', fun c => c.relocated o.path o.project, Prod.ext (registry_schedule _ _ _ _) rfl,
      fun c => ⟨rfl, rfl⟩, ?_, fun k hk => ?_⟩
    · rw [find_eq, hget, if_pos rfl, hf]
      rfl
    · rw [hget, if_neg hk]
  · simp only [hmove]
    refine ⟨r, id, rfl, fun c => ⟨rfl, rfl⟩, ?_, fun k _ => ?_⟩
    · rw [free hother, hnone]
      rfl
    · split
      · next hk => rw [hk]; exact hnone
      · rfl

/-- A delta for which there is no synchronized copy is refused, and the content is asked for. -/
theorem heard_lost (client : String) (r : Registry) (receiver : String) {c : TextChange}
    {location : String} (hlocation : c.location = location) (hdelta : c.resync = false)
    (hlost : ∀ copy, r.find location = some copy → copy.synchronized = false) :
    ∃ r' copy ms, r.heard client ⟨receiver, .change c⟩ = (r', ms) ∧
      (∀ k, r'.copies.get? k = if k = Path.clean location then some copy else r.copies.get? k) ∧
      copy.synchronized = false ∧ Asked location ms := by
  subst hlocation
  have hlocked : (r.target .dark c client).synchronized = false := by
    rw [target]
    cases hf : r.find c.location with
    | none => rfl
    | some copy => exact hlost copy hf
  obtain ⟨e, hresult⟩ := (failed_onChange { source := .dark } { registry := r } client c).2
    ⟨_, by rw [apply_snd, changeCopy_of_lost hlocked hdelta]; rfl⟩
  obtain ⟨hreaction, hget⟩ := refused_onChange hresult
  rw [heard_change, hreaction]
  exact ⟨_, _, _, rfl, hget, rfl, _, List.mem_singleton_self _, _, rfl, rfl⟩

/-- Neither does it matter for file operations, or what else the server is busy with. -/
theorem registry_of_unreadable {env env' : Setting} (s s' : Service) {o : FileOperation}
    {e e' : SyncError} (hr : s.registry = s'.registry) (h : env.source (Path.clean o.path) = .error e)
    (h' : env'.source (Path.clean o.path) = .error e') (endpoint : String) :
    (onFileOperation env s endpoint o).service.registry =
      (onFileOperation env' s' endpoint o).service.registry := by
  cases action : o.action with
  | start =>
    rw [registry_of_unreadable_start action h, registry_of_unreadable_start action h', hr]
  | stop =>
    rw [onFileOperation, onFileOperation, operate, operate, action, hr]
    rfl
  | suspend =>
    rw [onFileOperation, onFileOperation, operate, operate, action, hr]
    cases s'.registry.setState o.path .suspended with
    | error f => exact hr
    | ok r => rfl
  | resume =>
    rw [onFileOperation, onFileOperation, operate, operate, action, hr]
    cases s'.registry.setState o.path .started with
    | error f => exact hr
    | ok r => rfl
  | move =>
    rw [onFileOperation, onFileOperation, operate, operate, action, hr]
    cases o.oldPath with
    | none => exact hr
    | some oldPath =>
      dsimp only
      cases s'.registry.move oldPath o.path o.project with
      | error f => exact hr
      | ok r =>
        have hleft := registry_schedule env { s with registry := r } o.path endpoint
        have hright := registry_schedule env' { s' with registry := r } o.path endpoint
        exact hleft.trans hright.symm

theorem take_eq_heard (env : Setting) {source : Source} {p : Parcel} (h : p.Unreadable source)
    (x : Sending) :
    (take env client source x p.message).1.registry = (x.1.registry.heard client p.message).1 ∧
      (take env client source x p.message).2 = x.2 ++ (x.1.registry.heard client p.message).2 := by
  obtain ⟨⟨receiver, payload⟩, opening⟩ := p
  cases payload with
  | change c =>
    obtain ⟨e, he⟩ := h
    have happly : x.1.registry.apply source c client = x.1.registry.apply .dark c client :=
      apply_of_unreadable he (show Source.dark _ = .error (.io .notFound) from rfl) client
    rw [heard_change, take_change, registry_onChange]
    dsimp only
    rw [happly]
    refine ⟨rfl, congrArg (x.2 ++ ·) ?_⟩
    rw [onChange, onChange]
    dsimp only
    rw [happly]
    split <;> rfl
  | file o =>
    obtain ⟨e, he⟩ := h
    rw [heard_file, take_file, sent_onFileOperation]
    have hdark : Source.dark (Path.clean o.path) = .error (.io .notFound) := rfl
    exact ⟨registry_of_unreadable x.1 { registry := x.1.registry } rfl he hdark client, rfl⟩
  | result r => exact ⟨rfl, (List.append_nil _).symm⟩
  | resync r => exact ⟨rfl, (List.append_nil _).symm⟩

end Registry

/-- The copies and the messages for the client after one more parcel. -/
def hear (client : String) (x : Registry × List Message) (p : Parcel) : Registry × List Message :=
  ((x.1.heard client p.message).1, x.2 ++ (x.1.heard client p.message).2)

theorem foldl_hear_append (client : String) (ps : List Parcel) (r : Registry) (ms ms' : List Message) :
    ps.foldl (hear client) (r, ms ++ ms') =
      ((ps.foldl (hear client) (r, ms')).1, ms ++ (ps.foldl (hear client) (r, ms')).2) := by
  induction ps generalizing r ms' with
  | nil => rfl
  | cons p ps ih =>
    rw [List.foldl_cons, List.foldl_cons, hear, hear]
    dsimp only
    rw [List.append_assoc, ih]

section Flush

variable (client : String) {location : String} {x : Registry × List Message}

/-- Deltas that fit give a synchronized copy the contents that they lead to, and nothing is answered. -/
theorem hear_fitting (receiver project owner : String) (opening : Option String) {ds : List Delta}
    (hcanonical : ∀ d ∈ ds, d.Canonical) {c : WorkingCopy} {contents : String}
    (hf : x.1.find location = some c) (hs : c.synchronized = true)
    (happly : Delta.applyAll c.content ds = .ok contents) :
    let x' := (ds.map fun d =>
      (⟨⟨receiver, .change (.ofDelta d location project owner)⟩, opening⟩ : Parcel)).foldl (hear client) x
    x'.1.Shows location contents ∧
      (∀ k, k ≠ Path.clean location → x'.1.copies.get? k = x.1.copies.get? k) ∧ x'.2 = x.2 := by
  induction ds generalizing x c with
  | nil => exact ⟨⟨c, hf, hs, Except.ok.inj happly⟩, fun k _ => rfl, rfl⟩
  | cons d ds ih =>
    obtain ⟨next, hd, hrest⟩ := Delta.applyAll_cons_eq_ok happly
    obtain ⟨r', c', htakes, hget, hs', hcontent⟩ := takes_delta { source := .dark } client .dark hf hs
      (hcanonical d List.mem_cons_self) hd receiver project owner
    have hhear : hear client x ⟨⟨receiver, .change (.ofDelta d location project owner)⟩, opening⟩ =
        (r', x.2) := by
      rw [hear, Registry.heard_of_takes htakes, List.append_nil]
    have hf' : r'.find location = some c' := by rw [Registry.find_eq, hget, if_pos rfl]
    obtain ⟨hshows, hothers, hsent⟩ := ih (x := (r', x.2))
      (fun d hd => hcanonical d (List.mem_cons_of_mem _ hd)) hf' hs' (hcontent ▸ hrest)
    simp only [List.map_cons, List.foldl_cons, hhear]
    refine ⟨hshows, fun k hk => ?_, hsent⟩
    rw [hothers k hk, hget, if_neg hk]

/-- Without a synchronized copy every delta is refused, and the content is asked for. -/
theorem hear_lost (receiver project owner : String) (opening : Option String) {ds : List Delta}
    (hlost : ∀ c, x.1.find location = some c → c.synchronized = false)
    (hds : ds ≠ [] ∨ (∃ c, x.1.find location = some c) ∧ Asked location x.2) :
    let x' := (ds.map fun d =>
      (⟨⟨receiver, .change (.ofDelta d location project owner)⟩, opening⟩ : Parcel)).foldl (hear client) x
    (∃ c, x'.1.find location = some c ∧ c.synchronized = false) ∧
      (∀ k, k ≠ Path.clean location → x'.1.copies.get? k = x.1.copies.get? k) ∧
      (∀ m ∈ x.2, m ∈ x'.2) ∧ Asked location x'.2 := by
  induction ds generalizing x with
  | nil =>
    rcases hds with hds | ⟨⟨c, hf⟩, hasked⟩
    · exact absurd rfl hds
    · exact ⟨⟨c, hf, hlost c hf⟩, fun k _ => rfl, fun m hm => hm, hasked⟩
  | cons d ds ih =>
    have hlocation : (TextChange.ofDelta d location project owner).location = location := rfl
    obtain ⟨r', c, ms, hheard, hget, hs, hasked⟩ :=
      Registry.heard_lost client x.1 receiver hlocation rfl hlost
    have hhear : hear client x ⟨⟨receiver, .change (.ofDelta d location project owner)⟩, opening⟩ =
        (r', x.2 ++ ms) := by
      rw [hear, hheard]
    have hf : r'.find location = some c := by rw [Registry.find_eq, hget, if_pos rfl]
    have hlost' : ∀ c', r'.find location = some c' → c'.synchronized = false := by
      intro c' hf'
      obtain rfl := Option.some.inj (hf.symm.trans hf')
      exact hs
    obtain ⟨hend, hothers, hkeep, hasked'⟩ := ih (x := (r', x.2 ++ ms)) hlost'
      (Or.inr ⟨⟨c, hf⟩, hasked.mono fun m hm => List.mem_append_right _ hm⟩)
    simp only [List.map_cons, List.foldl_cons, hhear]
    refine ⟨hend, fun k hk => ?_, fun m hm => hkeep m (List.mem_append_left _ hm), hasked'⟩
    rw [hothers k hk, hget, if_neg hk]

/-- What a flush sends ends with the document at the server, or with a request for it. -/
theorem hear_unsent {e : OpenEditor} (hk : e.Kept location) (opening : Option String)
    (hmirrored : ∀ c, x.1.find location = some c → c.synchronized = true → e.MirroredBy c)
    (hunsent : e.unsent ≠ []) :
    let x' := (e.unsent.map fun c => (⟨e.reporter.message (.change c), opening⟩ : Parcel)).foldl
      (hear client) x
    (x'.1.Shows location e.document.contents ∨
        (∃ c, x'.1.find location = some c ∧ c.synchronized = false) ∧ Asked location x'.2) ∧
      (∀ k, k ≠ Path.clean location → x'.1.copies.get? k = x.1.copies.get? k) ∧
      ∀ m ∈ x.2, m ∈ x'.2 := by
  rw [OpenEditor.unsent, hk.location] at hunsent ⊢
  cases hresync : e.reporter.needsResync with
  | true =>
    obtain ⟨r', c', htakes, hget, hs', hcontent⟩ := takes_content { source := .dark } client .dark x.1
      e.reporter.endpoint e.document.contents location e.document.project e.reporter.owner
    have hhear : hear client x ⟨e.reporter.message (.change (.ofContent e.document.contents location
        e.document.project e.reporter.owner)), opening⟩ = (r', x.2) := by
      rw [hear, Reporter.message, Registry.heard_of_takes htakes, List.append_nil]
    simp only [if_true, List.map_cons, List.map_nil, List.foldl_cons, List.foldl_nil, hhear]
    refine ⟨Or.inl ⟨c', ?_, hs', hcontent⟩, fun k hne => ?_, fun m hm => hm⟩
    · rw [Registry.find_eq, hget, if_pos rfl]
    · rw [hget, if_neg hne]
  | false =>
    rw [hresync] at hunsent
    simp only [Bool.false_eq_true, if_false, List.map_map] at hunsent ⊢
    have hds : e.capture.queue.deltas ≠ [] := fun h => hunsent (by rw [h]; rfl)
    by_cases hsync : ∃ c, x.1.find location = some c ∧ c.synchronized = true
    · obtain ⟨c, hf, hs⟩ := hsync
      obtain ⟨hshows, hothers, hsent⟩ := hear_fitting client e.reporter.endpoint
        e.document.project e.reporter.owner opening hk.canonical hf hs (hmirrored c hf hs).2
      exact ⟨Or.inl hshows, hothers, fun m hm => hsent ▸ hm⟩
    · have hlost : ∀ c, x.1.find location = some c → c.synchronized = false := by
        intro c hf
        simpa using fun hs => hsync ⟨c, hf, hs⟩
      obtain ⟨hend, hothers, hkeep, hasked⟩ := hear_lost client e.reporter.endpoint
        e.document.project e.reporter.owner opening hlost (Or.inl hds)
      exact ⟨Or.inr ⟨hend, hasked⟩, hothers, hkeep⟩

end Flush

end EditSync
