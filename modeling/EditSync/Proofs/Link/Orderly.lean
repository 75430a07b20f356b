import EditSync.Proofs.Editor.Reports
import EditSync.Proofs.Link.Mirror
import EditSync.Proofs.Workspace.Atomicity
import EditSync.Proofs.Workspace.Course

/-! The messages of one session find at the server what they need, as long as a document that is moved
gets another key. So each of them is accepted, and one that asks for an analysis gets it queued. -/

namespace EditSync

open Text Service

namespace Parcel

/-- Once the server accepts it, an analysis of this key waits. -/
def asks (key : String) (p : Parcel) : Bool :=
  match p.message.payload with
  | .change c => Path.clean c.location = key
  | .file o => o.action.asks && Path.clean o.path = key
  | _ => false

/-- Which copy stands under this key, or none, may be another after it. -/
def rekeys (key : String) (p : Parcel) : Bool :=
  match p.message.payload with
  | .file o => o.touches key
  | _ => false

def Places (location : String) (p : Parcel) : Prop :=
  ∃ o, p.message.payload = .file o ∧ o.action.asks = true ∧ o.path = location

/-- The server has what the parcel is about. -/
inductive Fits (r : Registry) : Parcel → Prop
  | change (receiver : String) (c : TextChange) (opening : Option String) (copy : WorkingCopy)
      (found : r.find c.location = some copy) : Fits r ⟨⟨receiver, .change c⟩, opening⟩
  | start (receiver : String) (o : FileOperation) (contents : String) (action : o.action = .start)
      (free : r.find o.path = none) : Fits r ⟨⟨receiver, .file o⟩, some contents⟩
  | stop (receiver : String) (o : FileOperation) (opening : Option String) (action : o.action = .stop) :
      Fits r ⟨⟨receiver, .file o⟩, opening⟩
  | move (receiver : String) (o : FileOperation) (opening : Option String) (oldPath : String)
      (copy : WorkingCopy) (action : o.action = .move) (old : o.oldPath = some oldPath)
      (other : Path.clean oldPath ≠ Path.clean o.path) (found : r.find oldPath = some copy) :
      Fits r ⟨⟨receiver, .file o⟩, opening⟩

variable {key location : String} {p : Parcel}

theorem Places.asks (h : p.Places location) : p.asks (Path.clean location) = true := by
  obtain ⟨o, ho, ha, rfl⟩ := h
  simp [Parcel.asks, ho, ha]

theorem Places.rekeys (h : p.Places location) : p.rekeys (Path.clean location) = true := by
  obtain ⟨o, ho, -, rfl⟩ := h
  simp [Parcel.rekeys, ho, FileOperation.touches]

theorem Places.unique {other : String} (h : p.Places location) (h' : p.Places other) :
    location = other := by
  obtain ⟨o, ho, -, rfl⟩ := h
  obtain ⟨o', ho', -, rfl⟩ := h'
  rw [ho] at ho'
  rw [Payload.file.inj ho']

end Parcel

namespace Service

variable {env : Setting} {client : String} {source : Source}

/-- What the server becomes by a parcel that fits. -/
structure Served (p : Parcel) (s s' : Service) : Prop where
  sound : s'.Sound
  running : s'.running = s.running
  waiting : ∀ q ∈ s.waiting, q ∈ s'.waiting
  asked : ∀ k, p.asks k = true → ∃ q ∈ s'.waiting, q.key = k
  others : ∀ k, p.asks k = false → p.rekeys k = false →
    s'.registry.copies.get? k = s.registry.copies.get? k
  copies : ∀ k c', s'.registry.copies.get? k = some c' →
    (p.rekeys k = false ∧ ∃ c, s.registry.copies.get? k = some c ∧ c'.location = c.location) ∨
      ∃ l, p.Places l ∧ Path.clean l = k ∧ c'.location = l

theorem served_schedule {p : Parcel} {s : Service} {r : Registry} {path endpoint : String}
    (hs : s.Sound) (ha : env.analyses = true) (hasks : ∀ k, p.asks k = true → k = Path.clean path)
    (hothers : ∀ k, p.asks k = false → p.rekeys k = false → r.copies.get? k = s.registry.copies.get? k)
    (hcopies : ∀ k c', r.copies.get? k = some c' →
      (p.rekeys k = false ∧ ∃ c, s.registry.copies.get? k = some c ∧ c'.location = c.location) ∨
        ∃ l, p.Places l ∧ Path.clean l = k ∧ c'.location = l) :
    Served p s (schedule env { s with registry := r } path endpoint) where
  sound := (hs.of_registry r).schedule env path endpoint
  running := running_schedule _ _ _ _
  waiting := fun q hq => mem_waiting_schedule hq
  asked := by
    intro k hk
    rw [hasks k hk]
    exact (hs.of_registry r).waits_schedule ha path endpoint
  others := by rw [registry_schedule]; exact hothers
  copies := by rw [registry_schedule]; exact hcopies

theorem served_change {x : Sending} {receiver : String} {c : TextChange} {opening : Option String}
    {copy : WorkingCopy} (hs : x.1.Sound) (ha : env.analyses = true)
    (found : x.1.registry.find c.location = some copy)
    (hnone : (take env client source x ⟨receiver, .change c⟩).2 = x.2) :
    Served ⟨⟨receiver, .change c⟩, opening⟩ x.1 (take env client source x ⟨receiver, .change c⟩).1 := by
  rw [take_change] at hnone ⊢
  have haccepted : (onChange { env with source } x.1 client c).sent = [] := by simpa using hnone
  rcases onChange_cases { env with source } x.1 client c with ⟨n, -, hr⟩ | ⟨e, -, hr⟩
  · have hget := Registry.get?_apply source x.1.registry c client
    rw [Registry.target_of_find source c client found] at hget
    simp only [hr]
    refine served_schedule hs ha (fun k hk => ?_) (fun k hk _ => ?_) fun k c' hk => Or.inl ⟨rfl, ?_⟩
    · simpa [Parcel.asks, eq_comm] using hk
    · rw [hget, if_neg]
      simpa [Parcel.asks, eq_comm] using hk
    · rw [hget] at hk
      split at hk
      · next hkey =>
        rw [← Option.some.inj hk, Registry.location_changeCopy]
        exact ⟨copy, hkey ▸ found, rfl⟩
      · exact ⟨c', hk, rfl⟩
  · have hresult : (onChange { env with source } x.1 client c).result = .error e := by rw [hr]
    rw [(refused_onChange hresult).1] at haccepted
    exact absurd haccepted (by simp)

theorem served_start {x : Sending} {receiver : String} {o : FileOperation} {content : String}
    {opening : Option String} (hs : x.1.Sound) (ha : env.analyses = true) (action : o.action = .start)
    (free : x.1.registry.find o.path = none) (read : source (Path.clean o.path) = .ok content) :
    Served ⟨⟨receiver, .file o⟩, opening⟩ x.1 (take env client source x ⟨receiver, .file o⟩).1 := by
  obtain ⟨r, hr, hget⟩ :=
    onFileOperation_of_start { env with source } client action free read
  rw [take_file, hr]
  refine served_schedule hs ha (fun k hk => ?_) (fun k _ hk => ?_) fun k c' hk => ?_
  · simp only [Parcel.asks, Bool.and_eq_true, decide_eq_true_eq] at hk
    exact hk.2.symm
  · rw [hget, if_neg]
    rintro rfl
    simp [Parcel.rekeys, FileOperation.touches] at hk
  · rw [hget] at hk
    split at hk
    · next hkey =>
      obtain rfl := Option.some.inj hk
      exact Or.inr ⟨o.path, ⟨o, rfl, by rw [action]; rfl, rfl⟩, hkey.symm, rfl⟩
    · next hkey =>
      refine Or.inl ⟨?_, c', hk, rfl⟩
      simp [Parcel.rekeys, FileOperation.touches, action, Ne.symm hkey]

theorem served_move {x : Sending} {receiver : String} {o : FileOperation} {oldPath : String}
    {copy : WorkingCopy} {opening : Option String} (hs : x.1.Sound) (ha : env.analyses = true)
    (action : o.action = .move) (old : o.oldPath = some oldPath)
    (other : Path.clean oldPath ≠ Path.clean o.path) (found : x.1.registry.find oldPath = some copy) :
    Served ⟨⟨receiver, .file o⟩, opening⟩ x.1 (take env client source x ⟨receiver, .file o⟩).1 := by
  obtain ⟨r, hr, hget⟩ :=
    onFileOperation_of_move { env with source } client action old other found
  rw [take_file, hr]
  refine served_schedule hs ha (fun k hk => ?_) (fun k _ hk => ?_) fun k c' hk => ?_
  · simp only [Parcel.asks, Bool.and_eq_true, decide_eq_true_eq] at hk
    exact hk.2.symm
  · rw [hget, if_neg, if_neg]
    · rintro rfl
      simp [Parcel.rekeys, FileOperation.touches, action, old] at hk
    · rintro rfl
      simp [Parcel.rekeys, FileOperation.touches] at hk
  · rw [hget] at hk
    split at hk
    · next hkey =>
      obtain rfl := Option.some.inj hk
      exact Or.inr ⟨o.path, ⟨o, rfl, by rw [action]; rfl, rfl⟩, hkey.symm, rfl⟩
    · next hkey =>
      split at hk
      · exact absurd hk (by simp)
      · next hkey' =>
        refine Or.inl ⟨?_, c', hk, rfl⟩
        simp [Parcel.rekeys, FileOperation.touches, action, old, Ne.symm hkey, Ne.symm hkey']

theorem served_stop {x : Sending} {receiver : String} {o : FileOperation} {opening : Option String}
    (hs : x.1.Sound) (action : o.action = .stop) :
    Served ⟨⟨receiver, .file o⟩, opening⟩ x.1 (take env client source x ⟨receiver, .file o⟩).1 := by
  have hr : onFileOperation { env with source } x.1 client o =
      { service := { x.1 with registry := (x.1.registry.stop o.path).1 } } := by
    rw [onFileOperation, operate, action]
    rfl
  rw [take_file, hr]
  have hget := Registry.get?_stop x.1.registry o.path
  refine ⟨hs.of_registry _, rfl, fun q hq => hq, fun k hk => ?_, fun k _ hk => ?_, fun k c' hk => ?_⟩
  · simp [Parcel.asks, action, FileAction.asks] at hk
  · rw [hget, if_neg]
    rintro rfl
    simp [Parcel.rekeys, FileOperation.touches] at hk
  · simp only [hget] at hk
    split at hk
    · exact absurd hk (by simp)
    · next hkey =>
      refine Or.inl ⟨?_, c', hk, rfl⟩
      simp [Parcel.rekeys, FileOperation.touches, action, Ne.symm hkey]

/-- One statement for whatever comes first on the way to the server. -/
theorem served_take {x : Sending} {p : Parcel} (hs : x.1.Sound) (ha : env.analyses = true)
    (hfits : p.Fits x.1.registry) (hreads : p.Reads source)
    (hnone : (take env client source x p.message).2 = x.2) :
    Served p x.1 (take env client source x p.message).1 := by
  cases hfits with
  | change receiver c opening copy found => exact served_change hs ha found hnone
  | start receiver o contents action free =>
    exact served_start hs ha action free (hreads o contents rfl action rfl)
  | stop receiver o opening action => exact served_stop hs action
  | move receiver o opening oldPath copy action old other found =>
    exact served_move hs ha action old other found

theorem Takes.unique {r r' r'' : Registry} {m : Message} (h : Takes env client source r m r')
    (h' : Takes env client source r m r'') : r' = r'' :=
  (h ({ registry := r }, []) rfl).1.symm.trans (h' ({ registry := r }, []) rfl).1

/-- Whatever the saved contents are by then, each parcel fits when it is its turn. -/
def Orderly (env : Setting) (client : String) : List Parcel → Registry → Prop
  | [], _ => True
  | p :: rest, r => p.Fits r ∧ ∀ source r', p.Reads source →
      Takes env client source r p.message r' → Orderly env client rest r'

theorem Orderly.append {goal : Registry → Prop} {ps qs : List Parcel} {r : Registry}
    (h : Orderly env client ps r) (hdelivers : Delivers env client goal ps r)
    (hgoal : ∀ r, goal r → Orderly env client qs r) : Orderly env client (ps ++ qs) r := by
  induction ps generalizing r with
  | nil => exact hgoal r hdelivers
  | cons p rest ih =>
    refine ⟨h.1, fun source r' hreads htakes => ih (h.2 source r' hreads htakes) ?_⟩
    obtain ⟨r'', htakes', hrest⟩ := hdelivers source hreads
    rw [htakes.unique htakes']
    exact hrest

theorem orderly_changes (receiver : String) {location : String} {cs : List TextChange}
    (hcs : ∀ c ∈ cs, c.location = location) {r : Registry} {copy : WorkingCopy}
    (hf : r.find location = some copy) (opening : Option String) :
    Orderly env client (cs.map fun c => ⟨⟨receiver, .change c⟩, opening⟩) r := by
  induction cs generalizing r copy with
  | nil => trivial
  | cons c cs ih =>
    have hlocation : c.location = location := hcs c List.mem_cons_self
    refine ⟨.change receiver c opening copy (by rw [hlocation]; exact hf), fun source r' _ htakes => ?_⟩
    have hr' := (htakes ({ registry := r }, []) rfl).1
    rw [take_change, registry_onChange] at hr'
    have hf' : r'.find location = some (Registry.changeCopy (r.target source c client) c).1 := by
      rw [← hr', Registry.find_eq, Registry.get?_apply, if_pos (by rw [hlocation])]
    exact ih (fun c hc => hcs c (List.mem_cons_of_mem _ hc)) hf'

end Service

namespace Session

def MovesAway (s : Session) (i : Input) : Prop :=
  ∀ oldLocation newLocation, i = .host (.moved oldLocation newLocation) →
    s.isOpen oldLocation = true → s.isOpen newLocation = false →
    Path.clean oldLocation ≠ Path.clean newLocation

/-- What an input has the session send fits when the server has taken all that came before. -/
theorem orderly_posted {env : Setting} {client : String} (host : Host) {s : Session} {r : Registry}
    (hkept : s.Kept) (hm : s.Mirrored r) (i : Input) (hapart' : (s.react host i).1.Apart)
    (haway : s.MovesAway i) : Orderly env client (s.posted host i) r := by
  have hreacted := reacted host s i
  rw [posted]
  generalize (s.react host i).1 = s' at hapart' hreacted
  generalize messages (s.react host i).2 = ms at hreacted ⊢
  cases hreacted with
  | rested autoSave editors => trivial
  | shown r input editors => trivial
  | asked l input editors => trivial
  | told state editors => trivial
  | opened doc input closed editors =>
    rw [input]
    exact ⟨.start _ _ doc.contents rfl (find_eq_none_of_opened hm closed hapart' editors),
      fun _ _ _ _ => trivial⟩
  | changed l e edit document found fits editors => trivial
  | closed l e found editors => exact ⟨.stop _ _ _ rfl, fun _ _ _ _ => trivial⟩
  | moved oldLocation newLocation e input free moves =>
    obtain ⟨c, hf, -⟩ := hm.copies oldLocation e moves.found
    exact ⟨.move _ _ _ oldLocation c rfl rfl
      (haway oldLocation newLocation input (isOpen_of_get? moves.found) free) hf, fun _ _ _ _ => trivial⟩
  | flushed l e found editors =>
    obtain ⟨c, hf, -⟩ := hm.copies l e found
    rw [List.map_map]
    refine orderly_changes e.reporter.endpoint (fun c hc => ?_) hf i.opening
    rw [OpenEditor.location_of_mem_unsent hc]
    exact (hkept l e found).location

end Session
end EditSync
