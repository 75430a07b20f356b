import EditSync.Proofs.Message.Wire
import EditSync.Proofs.Text.Edit
import EditSync.Proofs.Workspace.Atomicity

/-! What an editor writes about a delta does at a server what the delta does. A message has no form of its
own for the insertion of nothing and reads it as the removal of nothing; every other delta is read back as it
was. The whole content of a text is no delta, and a copy that gets it has it, whatever it was before. -/

namespace EditSync

open Text Json

/-- A message that inserts nothing is taken for one that removes nothing. -/
theorem TextChange.deltas_ofDelta_insert_empty (offset : UInt64) (location project owner : String) :
    (ofDelta (.insert offset "") location project owner).deltas = [.remove offset 0] := rfl

/-- Inserting nothing and removing nothing fit in the same places, and fail with the same words. -/
theorem Text.Delta.apply_insert_empty (offset : UInt64) (content : String) :
    (insert offset "").apply content = (remove offset 0).apply content := by
  rcases Nat.lt_or_ge content.length (offset.toNat + 0) with hlt | hle
  · rw [apply_of_lt (d := insert offset "") hlt, apply_of_lt (d := remove offset 0) hlt]
    rfl
  · rw [apply_of_le (d := insert offset "") hle, apply_of_le (d := remove offset 0) hle]
    rfl

namespace WorkingCopy

/-- Deltas that do the same to every text do the same to every copy. -/
theorem apply_congr {d d' : Delta} (h : ∀ content, d.apply content = d'.apply content) (w : WorkingCopy) :
    w.apply d = w.apply d' := by
  rw [apply, apply, h]

end WorkingCopy

namespace TextChange

/-- The second change is what is read back from what is written of the first, from the value and from
its text. -/
def Arrives (sent c : TextChange) : Prop :=
  ofJson? sent.toJson = some c ∧ (parseChars? (print sent.toJson [])).bind ofJson? = some c

theorem arrives (c : TextChange) : c.Arrives c :=
  have hback := accepts.readBack form_toJson legible_toJson
  ⟨hback.written c, hback.printed c⟩

/-- The change stands for one delta that does the same. -/
structure StandsFor (c : TextChange) (d : Delta) : Prop where
  exact : d.Canonical → c.deltas = [d]
  applied : ∀ content, Delta.applyAll content c.deltas = d.apply content
  mirrored : ∀ w, Registry.changeCopy w c = w.apply d

theorem standsFor_of_deltas {c : TextChange} {d d' : Delta} (hdelta : c.resync = false)
    (hdeltas : c.deltas = [d']) (hsame : ∀ content, d'.apply content = d.apply content)
    (hexact : d.Canonical → d' = d) : c.StandsFor d where
  exact hcanonical := by rw [hdeltas, hexact hcanonical]
  applied content := by rw [hdeltas, Delta.applyAll_singleton, hsame]
  mirrored w := by
    rw [Registry.changeCopy, hdelta, if_neg Bool.false_ne_true, hdeltas, WorkingCopy.applyAll_singleton]
    exact WorkingCopy.apply_congr hsame w

theorem standsFor_ofDelta (d : Delta) (location project owner : String) :
    (ofDelta d location project owner).StandsFor d := by
  by_cases hcanonical : d.Canonical
  · exact standsFor_of_deltas rfl (deltas_ofDelta hcanonical ..) (fun _ => rfl) fun _ => rfl
  · obtain ⟨offset, rfl⟩ := not_forall_not.1 hcanonical
    exact standsFor_of_deltas rfl (deltas_ofDelta_insert_empty ..)
      (fun content => (Delta.apply_insert_empty offset content).symm) fun h => absurd h hcanonical

/-- The change is no delta, and leaves a copy with this content. -/
structure Replaces (c : TextChange) (content : String) : Prop where
  deltas : c.deltas = []
  mirrored : ∀ w, Registry.changeCopy w c = (w.resync content, .ok ())
  shown : ∀ source r endpoint, (∃ revision, (Registry.apply source r c endpoint).2 = .ok revision) ∧
    (Registry.apply source r c endpoint).1.Shows c.location content

theorem replaces_ofContent (content location project owner : String) :
    (ofContent content location project owner).Replaces content := by
  have hmirrored (w : WorkingCopy) :
      Registry.changeCopy w (ofContent content location project owner) = (w.resync content, .ok ()) := rfl
  refine ⟨rfl, hmirrored, fun source r endpoint => ⟨?_, ?_⟩⟩
  · rw [Registry.apply_snd, hmirrored]
    exact ⟨_, rfl⟩
  · let copy := r.target source (ofContent content location project owner) endpoint
    refine ⟨copy.resync content, ?_, rfl, rfl⟩
    rw [Registry.find_eq, Registry.get?_apply, if_pos rfl, hmirrored]

/-- A delta that is sent in a message stands at the other end for what it was; it is itself again unless it
inserts nothing. A whole content that is sent is no delta there, and any mirror that takes it has it. -/
theorem arrives_as_sent (location project owner : String) :
    (∀ d, ∃ c, (ofDelta d location project owner).Arrives c ∧ c.StandsFor d) ∧
      ∀ content, ∃ c, (ofContent content location project owner).Arrives c ∧ c.location = location ∧
        c.Replaces content :=
  ⟨fun d => ⟨_, arrives _, standsFor_ofDelta d location project owner⟩,
    fun content => ⟨_, arrives _, rfl, replaces_ofContent content location project owner⟩⟩

/-- A letter arrives as it was typed. The insertion of nothing fails beyond the end, as what arrives of it. -/
theorem arrives_as_sent_letter :
    (∃ c, (ofDelta (.insert 1 "é") "/p/a" "/p" "").Arrives c ∧ c.deltas = [.insert 1 "é"] ∧
        Delta.applyAll "ab" c.deltas = .ok "aéb") ∧
      ∃ c, (ofDelta (.insert 3 "") "/p/a" "/p" "").Arrives c ∧
        Delta.applyAll "ab" c.deltas = .error ⟨3, 0, 2⟩ := by
  obtain ⟨c, harrives, hstands⟩ := (arrives_as_sent "/p/a" "/p" "").1 (.insert 1 "é")
  obtain ⟨c', harrives', hstands'⟩ := (arrives_as_sent "/p/a" "/p" "").1 (.insert 3 "")
  refine ⟨⟨c, harrives, hstands.exact ?_, ?_⟩, c', harrives', ?_⟩
  · intro offset h
    exact absurd (Delta.insert.inj h).2 (by decide)
  · rw [hstands.applied]
    decide
  · rw [hstands'.applied]
    decide

end TextChange
end EditSync
