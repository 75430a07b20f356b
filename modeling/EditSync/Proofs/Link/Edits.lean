import EditSync.Proofs.Editor.Operations
import EditSync.Proofs.Text.Edit
import EditSync.Proofs.Workspace.Atomicity
import EditSync.Proofs.Workspace.Independence

/-! An edit comes to the same at both ends of a link. The document of an editor takes it as a whole, a
server gets it in one change or delta by delta; if it fits, all of them splice it into the text, and else
all of them refuse it and keep the text that they have. -/

namespace EditSync

open Text

namespace WorkingCopy

variable {c : WorkingCopy}

theorem applyAll_of_ok {ds : List Delta} {next : String} (hs : c.synchronized = true)
    (h : Delta.applyAll c.content ds = .ok next) :
    c.applyAll ds = ({ c with content := next, revision := c.revision + ds.length }, .ok ()) := by
  induction ds generalizing c with
  | nil =>
    obtain rfl := Except.ok.inj h
    rfl
  | cons d ds ih =>
    obtain ⟨content, hd, hrest⟩ := Delta.applyAll_cons_eq_ok h
    rw [applyAll_cons, apply_of_ok hs hd]
    dsimp only
    rw [ih (c := { c with content, revision := c.revision + 1 }) hs hrest, List.length_cons,
      Nat.add_right_comm, Nat.add_assoc]

theorem exists_error_of_apply {d : Delta} {f : OutOfRange} (hs : c.synchronized = true)
    (hd : d.apply c.content = .error f) : ∃ e, (c.apply d).2 = .error e := by
  rw [apply, if_pos hs, hd]
  exact ⟨_, rfl⟩

theorem exists_error_of_cons {d : Delta} (ds : List Delta) (h : ∃ e, (c.apply d).2 = .error e) :
    ∃ e, (c.applyAll (d :: ds)).2 = .error e := by
  obtain ⟨e, he⟩ := h
  rw [applyAll_cons]
  rcases apply_cases c d with ⟨content, -, -, hok⟩ | ⟨f, herr⟩
  · rw [hok] at he
    exact absurd he (by simp)
  · rw [herr]
    exact ⟨f, rfl⟩

end WorkingCopy

namespace Registry

variable {r : Registry} {c : WorkingCopy} {change : TextChange} {content : String}

/-- A change to a file that is tracked does to its copy what it does to any copy. -/
theorem apply_of_find (source : Source) (endpoint : String) (hf : r.find change.location = some c) :
    (r.apply source change endpoint).2 =
        (changeCopy (c.noteSender endpoint change.owner) change).2.map
          (fun _ => (changeCopy (c.noteSender endpoint change.owner) change).1.revision) ∧
      (r.apply source change endpoint).1.find change.location =
        some (changeCopy (c.noteSender endpoint change.owner) change).1 := by
  rw [apply_snd, find_eq, get?_apply, if_pos rfl, target_of_find source change endpoint hf]
  exact ⟨rfl, rfl⟩

theorem shows_of_changeCopy {next : String} {revision : Nat} (source : Source) (change : TextChange)
    (endpoint : String)
    (hf : r.find change.location = some c) (hs : c.synchronized = true)
    (h : changeCopy (c.noteSender endpoint change.owner) change =
      ({ c.noteSender endpoint change.owner with content := next, revision }, .ok ())) :
    (∃ n, (r.apply source change endpoint).2 = .ok n) ∧
      (r.apply source change endpoint).1.Shows change.location next := by
  obtain ⟨hresult, hfind⟩ := r.apply_of_find source endpoint hf
  rw [h] at hresult hfind
  exact ⟨⟨_, hresult⟩, _, hfind, hs, rfl⟩

/-- A path is tracked, and this is the text of its copy, whether or not it is synchronized. -/
def Keeps (r : Registry) (path content : String) : Prop := ∃ c, r.find path = some c ∧ c.content = content

/-- A change that fails keeps the text that is there. -/
theorem lost_of_changeCopy {e : SyncError} (source : Source) (change : TextChange) (endpoint : String)
    (hf : r.find change.location = some c)
    (h : (changeCopy (c.noteSender endpoint change.owner) change).2 = .error e) :
    (r.apply source change endpoint).2 = .error e ∧
      ∃ c', (r.apply source change endpoint).1.find change.location = some c' ∧
        c'.synchronized = false ∧ c'.content = c.content := by
  obtain ⟨hresult, hfind⟩ := r.apply_of_find source endpoint hf
  rw [h] at hresult
  rw [(changeCopy_eq_error h).1] at hfind
  exact ⟨hresult, _, hfind, rfl, rfl⟩

theorem changeCopy_of_edit {e : Edit} (hresync : change.resync = false) (he : change.edit = e) :
    changeCopy c change = c.applyAll e.deltas := by
  rw [changeCopy, hresync, if_neg Bool.false_ne_true, TextChange.deltas, hresync, he]
  rfl

theorem changeCopy_of_delta {d : Delta} (hd : d.Canonical) (location project owner : String) :
    changeCopy c (.ofDelta d location project owner) = c.apply d := by
  rw [changeCopy, TextChange.deltas_ofDelta hd, WorkingCopy.applyAll_singleton]
  exact if_neg (by simp [TextChange.ofDelta])

variable (source : Source) (endpoint location project owner : String)

def deltaRequests (ds : List Delta) : List FileRequest :=
  ds.map fun d => .change endpoint (.ofDelta d location project owner)

/-- Deltas that fit one after the other are applied one after the other. -/
theorem serveAll_of_ok {r : Registry} {content next : String} {ds : List Delta}
    (hcanonical : ∀ d ∈ ds, d.Canonical) (hr : r.Shows location content)
    (h : Delta.applyAll content ds = .ok next) :
    let served := r.serveAll source (deltaRequests endpoint location project owner ds)
    (∀ a ∈ served.2, ∃ n, a.2 = .changed (.ok n)) ∧ served.1.Shows location next := by
  induction ds generalizing r content with
  | nil =>
    obtain rfl := Except.ok.inj h
    exact ⟨fun a ha => absurd ha List.not_mem_nil, hr⟩
  | cons d ds ih =>
    obtain ⟨c, hf, hs, rfl⟩ := hr
    obtain ⟨content, hd, hrest⟩ := Delta.applyAll_cons_eq_ok h
    have hd' := WorkingCopy.apply_of_ok (c := c.noteSender endpoint owner) hs hd
    rw [← changeCopy_of_delta (hcanonical d List.mem_cons_self) location project owner] at hd'
    obtain ⟨⟨n, hn⟩, hshows⟩ := shows_of_changeCopy source (.ofDelta d location project owner) endpoint
      hf hs hd'
    obtain ⟨hanswers, hfinal⟩ := ih (fun d hd => hcanonical d (List.mem_cons_of_mem _ hd)) hshows hrest
    refine ⟨fun a ha => ?_, hfinal⟩
    rcases List.mem_cons.1 ha with rfl | ha
    · exact ⟨n, congrArg FileAnswer.changed hn⟩
    · exact hanswers a ha

/-- Once a copy has lost its editor's text, it refuses all deltas. -/
theorem serveAll_of_lost {r : Registry} {c : WorkingCopy} {ds : List Delta}
    (hcanonical : ∀ d ∈ ds, d.Canonical) (hf : r.find location = some c) (hs : c.synchronized = false) :
    let served := r.serveAll source (deltaRequests endpoint location project owner ds)
    (∀ a ∈ served.2, ∃ e, a.2 = .changed (.error e)) ∧ served.1.Keeps location c.content := by
  induction ds generalizing r c with
  | nil => exact ⟨fun a ha => absurd ha List.not_mem_nil, c, hf, rfl⟩
  | cons d ds ih =>
    have hlost : changeCopy (c.noteSender endpoint owner) (.ofDelta d location project owner) = _ :=
      changeCopy_of_lost hs rfl
    obtain ⟨hn, c', hf', hs', hcontent⟩ := lost_of_changeCopy source (.ofDelta d location project owner)
      endpoint hf (congrArg Prod.snd hlost)
    obtain ⟨hanswers, hfinal⟩ := ih (fun d hd => hcanonical d (List.mem_cons_of_mem _ hd)) hf' hs'
    refine ⟨fun a ha => ?_, hcontent ▸ hfinal⟩
    rcases List.mem_cons.1 ha with rfl | ha
    · exact ⟨_, congrArg FileAnswer.changed hn⟩
    · exact hanswers a ha

/-- If the first delta fails, all fail. -/
theorem serveAll_of_error {r : Registry} {content : String} {d : Delta} {ds : List Delta} {f : OutOfRange}
    (hcanonical : ∀ d' ∈ d :: ds, d'.Canonical) (hr : r.Shows location content)
    (hd : d.apply content = .error f) :
    let served := r.serveAll source (deltaRequests endpoint location project owner (d :: ds))
    (∀ a ∈ served.2, ∃ e, a.2 = .changed (.error e)) ∧ served.1.Keeps location content := by
  obtain ⟨c, hf, hs, rfl⟩ := hr
  obtain ⟨e, he⟩ := WorkingCopy.exists_error_of_apply (c := c.noteSender endpoint owner) hs hd
  rw [← changeCopy_of_delta (hcanonical d List.mem_cons_self) location project owner] at he
  obtain ⟨hn, c', hf', hs', hcontent⟩ := lost_of_changeCopy source (.ofDelta d location project owner) endpoint
    hf he
  obtain ⟨hanswers, hfinal⟩ := serveAll_of_lost source endpoint location project owner
    (fun d hd => hcanonical d (List.mem_cons_of_mem _ hd)) hf' hs'
  refine ⟨fun a ha => ?_, hcontent ▸ hfinal⟩
  rcases List.mem_cons.1 ha with rfl | ha
  · exact ⟨e, congrArg FileAnswer.changed hn⟩
  · exact hanswers a ha

end Registry

namespace Text.Edit

structure Applied (e : Edit) (content next : String) : Prop where
  deltas : Delta.applyAll content e.deltas = .ok next
  document : ∀ doc : Document, doc.contents = content →
    doc.change e = .ok { doc with contents := next, dirty := true }
  editor : ∀ (s : Session) location editor, s.editors.get? location = some editor →
    editor.document.contents = content →
    (∃ n, (s.change location e).result = .ok n) ∧
      ∃ editor', (s.change location e).session.editors.get? location = some editor' ∧
        editor'.document.contents = next
  change : ∀ source (r : Registry) endpoint (c : TextChange), c.resync = false → c.edit = e →
    r.Shows c.location content →
    (∃ n, (r.apply source c endpoint).2 = .ok n) ∧ (r.apply source c endpoint).1.Shows c.location next
  messages : ∀ source (r : Registry) endpoint location project owner, r.Shows location content →
    let served := r.serveAll source (Registry.deltaRequests endpoint location project owner e.deltas)
    (∀ a ∈ served.2, ∃ n, a.2 = .changed (.ok n)) ∧ served.1.Shows location next

structure Refused (e : Edit) (content : String) : Prop where
  deltas : ∃ f, Delta.applyAll content e.deltas = .error f
  document : ∀ doc : Document, doc.contents = content → ∃ f, doc.change e = .error f
  editor : ∀ (s : Session) location editor, s.editors.get? location = some editor →
    editor.document.contents = content →
    (∃ f, (s.change location e).result = .error f) ∧ (s.change location e).session = s
  change : ∀ source (r : Registry) endpoint (c : TextChange), c.resync = false → c.edit = e →
    r.Shows c.location content →
    (∃ f, (r.apply source c endpoint).2 = .error f) ∧ (r.apply source c endpoint).1.Keeps c.location content
  messages : ∀ source (r : Registry) endpoint location project owner, r.Shows location content →
    let served := r.serveAll source (Registry.deltaRequests endpoint location project owner e.deltas)
    (∀ a ∈ served.2, ∃ f, a.2 = .changed (.error f)) ∧ served.1.Keeps location content

variable {e : Edit} {content : String}

theorem applied_of_fits (h : e.Fits content) : e.Applied content (e.splice content) := by
  have hdeltas := applyAll_deltas_of_fits h
  have hdocument : ∀ doc : Document, doc.contents = content →
      doc.change e = .ok { doc with contents := e.splice content, dirty := true } := by
    rintro doc rfl
    rw [Document.change, hdeltas]
  refine ⟨hdeltas, hdocument, ?_, ?_, ?_⟩
  · intro s location editor hget hcontents
    simp only [Session.change, hget, hdocument _ hcontents]
    exact ⟨⟨_, rfl⟩, _, Table.get?_set_self _ _ _, rfl⟩
  · rintro source r endpoint c hresync he ⟨copy, hf, hs, rfl⟩
    have hcopy := WorkingCopy.applyAll_of_ok (c := copy.noteSender endpoint c.owner) hs hdeltas
    rw [← Registry.changeCopy_of_edit hresync he] at hcopy
    exact Registry.shows_of_changeCopy source _ endpoint hf hs hcopy
  · intro source r endpoint location project owner hr
    exact Registry.serveAll_of_ok source endpoint location project owner e.canonical_deltas hr hdeltas

theorem refused_of_not_fits (h : ¬ e.Fits content) : e.Refused content := by
  obtain ⟨d, ds, f, hd, hfails⟩ := apply_deltas_of_not_fits h
  have hdeltas : Delta.applyAll content e.deltas = .error f := by
    rw [hd, Delta.applyAll, List.foldlM_cons, hfails]
    rfl
  have hdocument : ∀ doc : Document, doc.contents = content → ∃ f, doc.change e = .error f := by
    rintro doc rfl
    rw [Document.change, hdeltas]
    exact ⟨_, rfl⟩
  refine ⟨⟨f, hdeltas⟩, hdocument, ?_, ?_, ?_⟩
  · intro s location editor hget hcontents
    obtain ⟨g, hg⟩ := hdocument _ hcontents
    simp only [Session.change, hget, hg]
    exact ⟨⟨g, rfl⟩, trivial⟩
  · rintro source r endpoint c hresync he ⟨copy, hf, hs, rfl⟩
    obtain ⟨g, hg⟩ := WorkingCopy.exists_error_of_cons ds
      (WorkingCopy.exists_error_of_apply (c := copy.noteSender endpoint c.owner) hs hfails)
    rw [← hd, ← Registry.changeCopy_of_edit hresync he] at hg
    obtain ⟨hresult, c', hf', -, hcontent⟩ := Registry.lost_of_changeCopy source _ endpoint hf hg
    exact ⟨⟨g, hresult⟩, c', hf', hcontent⟩
  · intro source r endpoint location project owner hr
    have hcanonical := e.canonical_deltas
    rw [hd] at hcanonical ⊢
    exact Registry.serveAll_of_error source endpoint location project owner hcanonical hr hfails

/-- An edit fits if all that it removes lies inside the content. Then it puts its text in the place of
that, wherever it is applied; and else it is refused wherever it is applied. -/
theorem spliced_or_refused (e : Edit) (content : String) :
    (e.Fits content ∧ e.Applied content (e.splice content)) ∨ (¬ e.Fits content ∧ e.Refused content) := by
  by_cases h : e.Fits content
  · exact Or.inl ⟨h, applied_of_fits h⟩
  · exact Or.inr ⟨h, refused_of_not_fits h⟩

/-- Characters of several octets are counted as one each, and a sum beyond 64 bits is no small one. -/
theorem spliced_or_refused_wide :
    Applied ⟨1, 2, some "😀"⟩ "aé€b" "a😀b" ∧ Refused ⟨18446744073709551615, 2, some "x"⟩ "aé€b" := by
  constructor
  · rcases spliced_or_refused ⟨1, 2, some "😀"⟩ "aé€b" with ⟨-, h⟩ | ⟨h, -⟩
    · have hsplice : splice ⟨1, 2, some "😀"⟩ "aé€b" = "a😀b" := by decide
      exact hsplice ▸ h
    · exact absurd (by decide) h
  · rcases spliced_or_refused ⟨18446744073709551615, 2, some "x"⟩ "aé€b" with ⟨h, -⟩ | ⟨-, h⟩
    · exact absurd h (by decide)
    · exact h

end Text.Edit
end EditSync
