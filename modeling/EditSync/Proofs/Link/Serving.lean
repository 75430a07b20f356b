import EditSync.Proofs.Message.Wire
import EditSync.Proofs.Text.Delta
import EditSync.Proofs.Workspace.Service

/-! How the server takes what one client sends it: which messages it takes without an answer, and what
they make of its working copies. -/

namespace EditSync

open Text

structure Parcel where
  message : Message
  /-- The contents that the document had which it starts. -/
  opening : Option String := none

/-- A started file has the contents that its document was opened with. -/
def Parcel.Reads (p : Parcel) (source : Source) : Prop :=
  ∀ o contents, p.message.payload = .file o → o.action = .start → p.opening = some contents →
    source (Path.clean o.path) = .ok contents

namespace Service

/-- Takes a message of a client while the saved contents are as `source` says. -/
def take (env : Setting) (client : String) (source : Source) (x : Sending) (m : Message) : Sending :=
  ((handlers { env with source }).dispatch (m.envelope client) x).1

def takeAll (env : Setting) (client : String) (x : Sending) (given : List (Parcel × Source)) : Sending :=
  given.foldl (fun x g => take env client g.2 x g.1.message) x

variable (env : Setting) (client : String) (source : Source)

theorem take_change (x : Sending) (receiver : String) (c : TextChange) :
    take env client source x ⟨receiver, .change c⟩ =
      ((onChange { env with source } x.1 client c).service,
        x.2 ++ (onChange { env with source } x.1 client c).sent) := by
  have hmethod : Method.editorChanges ≠ Method.fileOperation := by decide
  rw [take, Handlers.dispatch, handlers]
  simp only [Handlers.onPayload, Message.envelope, Payload.method, Payload.params,
    Table.get?_set_ne _ _ hmethod, Table.get?_set_self, TextChange.ofJson?_toJson]
  rfl

theorem take_file (x : Sending) (receiver : String) (o : FileOperation) :
    take env client source x ⟨receiver, .file o⟩ =
      ((onFileOperation { env with source } x.1 client o).service,
        x.2 ++ (onFileOperation { env with source } x.1 client o).sent) := by
  rw [take, Handlers.dispatch, handlers]
  simp only [Handlers.onPayload, Message.envelope, Payload.method, Payload.params,
    Table.get?_set_self, FileOperation.ofJson?_toJson]
  rfl

/-- Whatever else the server is busy with, it takes a message without an answer, and its copies become
those of `r'`. -/
def Takes (env : Setting) (client : String) (source : Source) (r : Registry) (m : Message)
    (r' : Registry) : Prop :=
  ∀ x : Sending, x.1.registry = r →
    (take env client source x m).1.registry = r' ∧ (take env client source x m).2 = x.2

theorem takes_change {r : Registry} {c : TextChange} {n : Nat} (receiver : String)
    (h : (r.apply source c client).2 = .ok n) :
    Takes env client source r ⟨receiver, .change c⟩ (r.apply source c client).1 := by
  rintro x rfl
  rw [take_change]
  rcases onChange_cases { env with source } x.1 client c with ⟨m, -, hr⟩ | ⟨e, he, hr⟩
  · rw [hr]
    exact ⟨registry_schedule _ _ _ _, List.append_nil _⟩
  · exact absurd (he.symm.trans h) (by simp)

/-- The whole content is taken whatever became of the copy before. -/
theorem takes_content (r : Registry) (receiver content location project owner : String) :
    ∃ r' c', Takes env client source r ⟨receiver, .change (.ofContent content location project owner)⟩ r' ∧
      (∀ k, r'.copies.get? k = if k = Path.clean location then some c' else r.copies.get? k) ∧
      c'.synchronized = true ∧ c'.content = content := by
  have hok : (r.apply source (.ofContent content location project owner) client).2 =
      .ok ((r.target source (.ofContent content location project owner) client).revision + 1) := rfl
  exact ⟨_, _, takes_change env client source receiver hok, Registry.get?_apply _ _ _ _, rfl, rfl⟩

/-- A copy that is synchronized takes a delta that fits. -/
theorem takes_delta {r : Registry} {c : WorkingCopy} {location content : String} {d : Delta}
    (hf : r.find location = some c) (hs : c.synchronized = true) (hc : d.Canonical)
    (hd : d.apply c.content = .ok content) (receiver project owner : String) :
    ∃ r' c', Takes env client source r ⟨receiver, .change (.ofDelta d location project owner)⟩ r' ∧
      (∀ k, r'.copies.get? k = if k = Path.clean location then some c' else r.copies.get? k) ∧
      c'.synchronized = true ∧ c'.content = content := by
  have htarget : r.target source (.ofDelta d location project owner) client =
      c.noteSender client owner :=
    Registry.target_of_find source (.ofDelta d location project owner) client hf
  have hchanged := Registry.changeCopy_ofDelta (c := c.noteSender client owner) hs hc hd location
    project owner
  have hok : (r.apply source (.ofDelta d location project owner) client).2 = .ok (c.revision + 1) := by
    rw [Registry.apply_snd, htarget, hchanged]
    rfl
  refine ⟨_, _, takes_change env client source receiver hok, Registry.get?_apply _ _ _ _, ?_, ?_⟩
  · rw [htarget, hchanged]
    exact hs
  · rw [htarget, hchanged]

theorem takes_start {r : Registry} {o : FileOperation} {content : String} (receiver : String)
    (ha : o.action = .start) (hr : r.find o.path = none)
    (hs : source (Path.clean o.path) = .ok content) :
    ∃ r', Takes env client source r ⟨receiver, .file o⟩ r' ∧
      ∀ k, r'.copies.get? k =
        if k = Path.clean o.path then some (.started o.path o.project content)
        else r.copies.get? k := by
  rcases r.start_cases source o.path o.project with
    ⟨copy, hf, -⟩ | ⟨content', r', -, hs', hstart, hget⟩ | ⟨e, -, he, -⟩
  · exact absurd (hr.symm.trans hf) (by simp)
  · obtain rfl := Except.ok.inj (hs.symm.trans hs')
    refine ⟨r', ?_, hget⟩
    rintro x rfl
    rw [take_file, sent_onFileOperation, List.append_nil]
    refine ⟨?_, rfl⟩
    rw [onFileOperation, operate, ha]
    simp only [hstart]
    exact registry_schedule _ _ _ _
  · exact absurd (hs.symm.trans he) (by simp)

theorem takes_stop (r : Registry) {o : FileOperation} (receiver : String) (ha : o.action = .stop) :
    Takes env client source r ⟨receiver, .file o⟩ (r.stop o.path).1 := by
  rintro x rfl
  rw [take_file, sent_onFileOperation, List.append_nil, onFileOperation, operate, ha]
  exact ⟨rfl, rfl⟩

theorem takes_move {r : Registry} {o : FileOperation} {oldPath : String} {copy : WorkingCopy}
    (receiver : String) (ha : o.action = .move) (ho : o.oldPath = some oldPath)
    (hf : r.find oldPath = some copy) :
    ∃ r', Takes env client source r ⟨receiver, .file o⟩ r' ∧
      (Path.clean oldPath = Path.clean o.path ∧ r' = r ∨
        Path.clean oldPath ≠ Path.clean o.path ∧
          ∀ k, r'.copies.get? k =
            if k = Path.clean o.path then some (copy.relocated o.path o.project)
            else if k = Path.clean oldPath then none else r.copies.get? k) := by
  have htakes : ∀ r', r.move oldPath o.path o.project = .ok r' →
      Takes env client source r ⟨receiver, .file o⟩ r' := by
    rintro r' hmove x rfl
    rw [take_file, sent_onFileOperation, List.append_nil]
    refine ⟨?_, rfl⟩
    rw [onFileOperation, operate, ha, ho]
    simp only [hmove]
    exact registry_schedule _ _ _ _
  rcases r.move_cases oldPath o.path o.project with
    ⟨hsame, hmove⟩ | ⟨copy', r', hother, hf', hmove, hget⟩ | ⟨e, -, hnone, -⟩
  · exact ⟨r, htakes r hmove, Or.inl ⟨hsame, rfl⟩⟩
  · obtain rfl := Option.some.inj (hf.symm.trans hf')
    exact ⟨r', htakes r' hmove, Or.inr ⟨hother, hget⟩⟩
  · exact absurd (hnone.symm.trans hf) (by simp)

variable {env : Setting} {client : String}

/-- Whatever the saved contents are by then, as long as started files have those they were opened with,
the server takes all parcels without an answer, and then its copies are as the goal says. -/
def Delivers (env : Setting) (client : String) (goal : Registry → Prop) :
    List Parcel → Registry → Prop
  | [], r => goal r
  | p :: rest, r => ∀ source, p.Reads source →
      ∃ r', Takes env client source r p.message r' ∧ Delivers env client goal rest r'

theorem Delivers.mono {goal goal' : Registry → Prop} {ps : List Parcel} {r : Registry}
    (h : Delivers env client goal ps r) (hgoal : ∀ r, goal r → goal' r) :
    Delivers env client goal' ps r := by
  induction ps generalizing r with
  | nil => exact hgoal r h
  | cons p rest ih =>
    intro source hreads
    obtain ⟨r', htakes, hrest⟩ := h source hreads
    exact ⟨r', htakes, ih hrest⟩

theorem Delivers.append {goal goal' : Registry → Prop} {ps : List Parcel} (qs : List Parcel)
    {r : Registry} (h : Delivers env client goal ps r)
    (hgoal : ∀ r, goal r → Delivers env client goal' qs r) : Delivers env client goal' (ps ++ qs) r := by
  induction ps generalizing r with
  | nil => exact hgoal r h
  | cons p rest ih =>
    intro source hreads
    obtain ⟨r', htakes, hrest⟩ := h source hreads
    exact ⟨r', htakes, ih hrest⟩

theorem Delivers.takeAll {goal : Registry → Prop} {given : List (Parcel × Source)} {x : Sending}
    (h : Delivers env client goal (given.map Prod.fst) x.1.registry)
    (hreads : ∀ g ∈ given, g.1.Reads g.2) :
    goal (takeAll env client x given).1.registry ∧ (takeAll env client x given).2 = x.2 := by
  induction given generalizing x with
  | nil => exact ⟨h, rfl⟩
  | cons g rest ih =>
    obtain ⟨r', htakes, hrest⟩ := h g.2 (hreads g List.mem_cons_self)
    obtain ⟨hregistry, hsent⟩ := htakes x rfl
    rw [← hregistry] at hrest
    obtain ⟨hgoal, hnone⟩ := ih hrest fun g hg => hreads g (List.mem_cons_of_mem _ hg)
    exact ⟨hgoal, hnone.trans hsent⟩

end Service
end EditSync
