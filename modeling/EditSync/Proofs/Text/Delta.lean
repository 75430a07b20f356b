import EditSync.Message.TextChange
import EditSync.Text.Splice

/-! The deltas that an edit is split into go through a message unchanged. -/

namespace EditSync

open Text

namespace Text

/-- Nothing is inserted by a delta of its own, which is what a message takes it for. -/
def Delta.Canonical (d : Delta) : Prop := ∀ offset, d ≠ .insert offset ""

/-- An edit is one delta, or a removal and an insertion in its place. -/
theorem Edit.deltas_cases (e : Edit) :
    (∃ d, e.deltas = [d]) ∨
      ∃ text, e.deltas = [.remove e.offset e.removed, .insert e.offset text] := by
  rw [deltas]
  split
  · exact Or.inl ⟨_, rfl⟩
  · next text _ =>
    split
    · exact Or.inl ⟨_, rfl⟩
    · exact Or.inr ⟨text, rfl⟩

theorem Edit.canonical_deltas (e : Edit) : ∀ d ∈ e.deltas, d.Canonical := by
  intro d hd offset hempty
  subst hempty
  rw [deltas] at hd
  split at hd
  · exact absurd hd (by simp)
  · next text htext =>
    have hne : text ≠ "" := by simpa using (Option.filter_eq_some_iff.1 htext).2
    split at hd
    · obtain ⟨-, h⟩ := Delta.insert.inj (List.mem_singleton.1 hd)
      exact hne h.symm
    · rcases List.mem_cons.1 hd with h | h
      · exact absurd h (by simp)
      · obtain ⟨-, h⟩ := Delta.insert.inj (List.mem_singleton.1 h)
        exact hne h.symm

namespace Delta

theorem applyAll_nil (content : String) : applyAll content [] = .ok content := rfl

theorem applyAll_append {content next : String} {ds : List Delta} (es : List Delta)
    (h : applyAll content ds = .ok next) : applyAll content (ds ++ es) = applyAll next es := by
  rw [applyAll, List.foldlM_append]
  rw [applyAll] at h
  rw [h]
  rfl

theorem applyAll_cons_eq_ok {content final : String} {d : Delta} {ds : List Delta}
    (h : applyAll content (d :: ds) = .ok final) :
    ∃ next, d.apply content = .ok next ∧ applyAll next ds = .ok final := by
  rw [applyAll, List.foldlM_cons] at h
  cases hd : d.apply content with
  | error e =>
    rw [hd] at h
    exact absurd h (by simp [bind, Except.bind])
  | ok next =>
    rw [hd] at h
    exact ⟨next, rfl, h⟩

end Delta
end Text

theorem TextChange.deltas_ofDelta {d : Delta} (hd : d.Canonical) (location project owner : String) :
    (ofDelta d location project owner).deltas = [d] := by
  cases d with
  | insert offset text =>
    have hne : text ≠ "" := fun h => hd offset (by rw [h])
    have hzero : UInt64.ofNat (Delta.insert offset text).removed = 0 := rfl
    simp [deltas, ofDelta, edit, Edit.deltas, Delta.offset, Delta.text, Option.filter, hne, hzero]
  | remove offset count =>
    simp [deltas, ofDelta, edit, Edit.deltas, Delta.offset, Delta.text, Delta.removed]

end EditSync
