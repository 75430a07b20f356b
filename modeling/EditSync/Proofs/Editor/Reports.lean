import EditSync.Proofs.Editor.Reactions

/-! What one editor reports about its text. Once the whole content was asked for, the changes that it
sends lead to its document whatever the server knew before. -/

namespace EditSync

open Text

def Message.change? (m : Message) : Option TextChange :=
  match m.payload with
  | .change c => some c
  | _ => none

def changesOf (location : String) (ms : List Message) : List TextChange :=
  (ms.filterMap Message.change?).filter fun c => c.location = location

/-- A file operation that names the location under which a document is open or was. -/
def Message.operates (location : String) (m : Message) : Bool :=
  match m.payload with
  | .file o => o.path = location || o.oldPath = some location
  | _ => false

/-- Changes of one location that lead to a content from anything: the whole content is among them, and
the deltas after it are relative to it. -/
inductive Restores (location : String) : List TextChange → String → Prop
  | whole (earlier : List TextChange) (content project owner : String) :
      Restores location (earlier ++ [.ofContent content location project owner]) content
  | delta {changes : List TextChange} {content next : String} {d : Delta} (project owner : String)
      (before : Restores location changes content) (canonical : d.Canonical)
      (fits : d.apply content = .ok next) :
      Restores location (changes ++ [.ofDelta d location project owner]) next

theorem Restores.deltas {location content final : String} {changes : List TextChange}
    (h : Restores location changes content) (project owner : String) (ds : List Delta)
    (hcanonical : ∀ d ∈ ds, d.Canonical) (happly : Delta.applyAll content ds = .ok final) :
    Restores location (changes ++ ds.map fun d => .ofDelta d location project owner) final := by
  induction ds generalizing changes content with
  | nil =>
    obtain rfl := Except.ok.inj happly
    simpa using h
  | cons d ds ih =>
    obtain ⟨next, hd, hrest⟩ := Delta.applyAll_cons_eq_ok happly
    have hnext := ih (h.delta project owner (hcanonical d List.mem_cons_self) hd)
      (fun d hd => hcanonical d (List.mem_cons_of_mem _ hd)) hrest
    rw [List.append_assoc] at hnext
    exact hnext

namespace OpenEditor

/-- What was sent leads to the document as far as nothing is queued, or the whole content is still to be
sent. -/
def AccountedBy (location : String) (sent : List TextChange) (e : OpenEditor) : Prop :=
  e.reporter.needsResync = true ∨
    ∃ content, Restores location sent content ∧
      Delta.applyAll content e.capture.queue.deltas = .ok e.document.contents

variable {location : String} {sent : List TextChange} {e : OpenEditor}

theorem restores_unsent (hk : e.Kept location) (h : e.AccountedBy location sent) :
    Restores location (sent ++ e.unsent) e.document.contents := by
  rw [unsent, hk.location]
  cases hn : e.reporter.needsResync with
  | true => exact .whole _ _ _ _
  | false =>
    rcases h with hresync | ⟨content, hsent, happly⟩
    · exact absurd (hn.symm.trans hresync) (by simp)
    · exact hsent.deltas _ _ _ hk.canonical happly

theorem location_of_mem_unsent {c : TextChange} (hc : c ∈ e.unsent) :
    c.location = e.document.location := by
  rw [unsent] at hc
  split at hc
  · rw [List.mem_singleton.1 hc]
    rfl
  · obtain ⟨d, -, rfl⟩ := List.mem_map.1 hc
    rfl

theorem unsent_edited_ne_nil (h : e.capture.installed = true) (document : Document) (edit : Edit) :
    (e.edited document edit).unsent ≠ [] := by
  rw [unsent]
  split
  · exact List.cons_ne_nil _ _
  · have hdeltas : edit.deltas ≠ [] := by
      rcases edit.deltas_cases with ⟨d, hd⟩ | ⟨text, hd⟩ <;> simp [hd]
    simp [edited, (Session.queue_onChange h edit).1, hdeltas]

/-- An editor whose text and queue are as before, and which has not sent its whole content since. -/
theorem AccountedBy.of_rest {e' : OpenEditor} (h : e.AccountedBy location sent)
    (hcontents : e'.document.contents = e.document.contents) (hcapture : e'.capture = e.capture)
    (hresync : e.reporter.needsResync = true → e'.reporter.needsResync = true) :
    e'.AccountedBy location sent := by
  rw [AccountedBy, hcontents, hcapture]
  exact h.imp_left hresync

theorem accountedBy_edited {document : Document} {edit : Edit} (h : e.AccountedBy location sent)
    (hk : e.Kept location) (hc : e.document.change edit = .ok document) :
    (e.edited document edit).AccountedBy location sent := by
  refine h.imp_right ?_
  rintro ⟨content, hsent, happly⟩
  refine ⟨content, hsent, ?_⟩
  rw [OpenEditor.edited, (Session.queue_onChange hk.installed edit).1, Delta.applyAll_append _ happly]
  exact (Session.change_eq_ok hc).2

end OpenEditor

namespace Session

theorem changesOf_unsent (location : String) (e : OpenEditor) :
    changesOf location (e.unsent.map fun c => e.reporter.message (.change c)) =
      if e.document.location = location then e.unsent else [] := by
  have hchanges : (e.unsent.map fun c => e.reporter.message (.change c)).filterMap Message.change? =
      e.unsent := by
    simp [List.filterMap_map, Function.comp_def, Message.change?, Reporter.message]
  rw [changesOf, hchanges]
  split
  · next hl => exact List.filter_eq_self.2 fun c hc => by simp [OpenEditor.location_of_mem_unsent hc, hl]
  · next hl => exact List.filter_eq_nil_iff.2 fun c hc => by simp [OpenEditor.location_of_mem_unsent hc, hl]

variable {host : Host} {location : String} {sent : List TextChange} {e : OpenEditor}

/-- One input leaves an editor accounted for, unless its file is told to be closed or moved. -/
theorem accountedBy_reacted {s s' : Session} {i : Input} {ms : List Message} (h : Reacted host s i s' ms)
    (hk : s.Kept) (he : s.editors.get? location = some e) (hacc : e.AccountedBy location sent)
    (hstays : ∀ m ∈ ms, m.operates location = false) :
    ∃ e', s'.editors.get? location = some e' ∧
      e'.AccountedBy location (sent ++ changesOf location ms) := by
  have hnone : sent ++ changesOf location [] = sent := List.append_nil _
  cases h with
  | rested autoSave editors =>
    rw [editors, he, hnone]
    exact ⟨_, rfl, hacc.of_rest rfl rfl id⟩
  | shown r input editors =>
    rw [editors, he, hnone]
    exact ⟨_, rfl, hacc.of_rest rfl rfl id⟩
  | asked l input editors =>
    rw [editors, he, hnone]
    split
    · exact ⟨_, rfl, Or.inl rfl⟩
    · exact ⟨e, rfl, hacc⟩
  | told state editors =>
    rw [editors, he, hnone]
    cases state with
    | inProgress => exact ⟨_, rfl, hacc.of_rest rfl rfl id⟩
    | resolved => exact ⟨_, rfl, Or.inl rfl⟩
  | opened doc input closed editors =>
    have hne : location ≠ doc.location := by
      rintro rfl
      exact absurd (closed.symm.trans (isOpen_of_get? he)) (by simp)
    rw [editors, if_neg hne]
    exact ⟨e, he, by rwa [show changesOf location _ = [] from rfl, List.append_nil]⟩
  | changed l e₀ edit document found fits editors =>
    rw [editors, hnone]
    split
    · next hl =>
      rw [← hl, he] at found
      obtain rfl := Option.some.inj found
      exact ⟨_, rfl, OpenEditor.accountedBy_edited hacc (hk location e he) fits⟩
    · exact ⟨e, he, hacc⟩
  | closed l e₀ found editors =>
    have hne : location ≠ l := by
      rintro rfl
      exact absurd (hstays _ (List.mem_singleton_self _))
        (by simp [Message.operates, Reporter.stopped, Reporter.operation, Reporter.message])
    rw [editors, if_neg hne]
    exact ⟨e, he, by rwa [show changesOf location _ = [] from rfl, List.append_nil]⟩
  | moved oldLocation newLocation e₀ input free moves =>
    have hold : location ≠ oldLocation := by
      rintro rfl
      exact absurd (hstays _ (List.mem_singleton_self _))
        (by simp [Message.operates, Reporter.moved, Reporter.operation, Reporter.message, FileOperation.moved])
    have hnew : location ≠ newLocation := by
      rintro rfl
      exact absurd (free.symm.trans (isOpen_of_get? he)) (by simp)
    rw [moves.editors, if_neg hnew, if_neg hold]
    exact ⟨e, he, by rwa [show changesOf location _ = [] from rfl, List.append_nil]⟩
  | flushed l e₀ found editors =>
    rw [editors, changesOf_unsent, (hk l e₀ found).location]
    split
    · next hl =>
      rw [← hl, he] at found
      obtain rfl := Option.some.inj found
      rw [if_pos hl.symm]
      refine ⟨_, rfl, Or.inr ⟨e.document.contents, OpenEditor.restores_unsent (hk location e he) hacc, ?_⟩⟩
      rw [(flushed_flushEditor e).queue, (flushed_flushEditor e).contents, Delta.applyAll_nil]
    · next hl =>
      rw [if_neg (Ne.symm hl), List.append_nil]
      exact ⟨e, he, hacc⟩

theorem accountedBy_run {s : Session} (inputs : List Input) (hk : s.Kept)
    (he : s.editors.get? location = some e) (hacc : e.AccountedBy location [])
    (hstays : ∀ m ∈ messages (run host s inputs).2, m.operates location = false) :
    (run host s inputs).1.Kept ∧
      ∃ e', (run host s inputs).1.editors.get? location = some e' ∧
        e'.AccountedBy location (changesOf location (messages (run host s inputs).2)) := by
  induction inputs using List.reverseRecOn with
  | nil => exact ⟨hk, e, he, hacc⟩
  | append_singleton inputs i ih =>
    rw [run_concat] at hstays ⊢
    simp only [runStep, messages_append] at hstays ⊢
    obtain ⟨hkept, e', he', hacc'⟩ := ih fun m hm => hstays m (List.mem_append_left _ hm)
    refine ⟨kept_react host hkept i, ?_⟩
    have happend : ∀ ms ms', changesOf location (ms ++ ms') = changesOf location ms ++ changesOf location ms' := by
      intro ms ms'
      rw [changesOf, List.filterMap_append, List.filter_append]
      rfl
    rw [happend]
    exact accountedBy_reacted (reacted host _ i) hkept he' hacc'
      fun m hm => hstays m (List.mem_append_right _ hm)

end Session
end EditSync
