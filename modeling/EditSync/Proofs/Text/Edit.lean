import EditSync.Proofs.Text.Delta
import EditSync.Proofs.Text.Splice

/-! The splice law. An edit is applied in one delta or in two, but it fits exactly if all that it removes
lies inside the text, and then its text stands in the place of what it removes. -/

namespace EditSync.Text

namespace Delta

theorem applyAll_singleton (content : String) (d : Delta) : applyAll content [d] = d.apply content := by
  rw [applyAll, List.foldlM_cons]
  cases d.apply content <;> rfl

/-- What is inserted where something was removed stands in its place. -/
theorem apply_insert_removed {offset : UInt64} {cs : List Char} (text : String) (tail : List Char)
    (h : offset.toNat ≤ cs.length) :
    (insert offset text).apply (String.ofList (cs.take offset.toNat ++ tail)) =
      .ok (String.ofList (cs.take offset.toNat ++ text.toList ++ tail)) := by
  have hhead : (cs.take offset.toNat).length = offset.toNat := List.length_take_of_le h
  have hfits : offset.toNat + 0 ≤ (String.ofList (cs.take offset.toNat ++ tail)).length := by
    rw [String.length_ofList, List.length_append, hhead]
    omega
  rw [apply_of_le (d := insert offset text) hfits]
  simp only [Delta.offset, Delta.removed, Delta.inserted, Nat.add_zero, String.toList_ofList]
  rw [List.take_left' hhead, List.drop_left' hhead]

end Delta

namespace Edit

/-- All that the edit removes lies inside the content. The sum is exact, even beyond 64 bits. -/
def Fits (e : Edit) (content : String) : Prop := e.offset.toNat + e.removed.toNat ≤ content.length

instance (e : Edit) (content : String) : Decidable (e.Fits content) := inferInstanceAs (Decidable (_ ≤ _))

def splice (e : Edit) (content : String) : String :=
  String.ofList (content.toList.take e.offset.toNat ++ (e.text.getD "").toList ++
    content.toList.drop (e.offset.toNat + e.removed.toNat))

/-- An edit is a removal if it has no text, an insertion if it removes nothing, and else both. -/
theorem deltas_forms (e : Edit) :
    (e.text.getD "" = "" ∧ e.deltas = [.remove e.offset e.removed]) ∨
      (e.removed = 0 ∧ e.deltas = [.insert e.offset (e.text.getD "")]) ∨
      e.deltas = [.remove e.offset e.removed, .insert e.offset (e.text.getD "")] := by
  rw [deltas]
  split
  · next h =>
    refine Or.inl ⟨?_, rfl⟩
    cases ht : e.text with
    | none => rfl
    | some text => simpa [ht, Option.filter_eq_none_iff] using h
  · next text h =>
    obtain ⟨ht, -⟩ := Option.filter_eq_some_iff.1 h
    rw [ht, Option.getD_some]
    split
    · next hr => exact Or.inr (Or.inl ⟨hr, rfl⟩)
    · exact Or.inr (Or.inr rfl)

theorem applyAll_deltas_of_fits {e : Edit} {content : String} (h : e.Fits content) :
    Delta.applyAll content e.deltas = .ok (e.splice content) := by
  have hremoved := Delta.apply_of_le (d := .remove e.offset e.removed) h
  simp only [Delta.offset, Delta.removed, Delta.inserted, String.toList_empty, List.append_nil] at hremoved
  rcases e.deltas_forms with ⟨htext, hd⟩ | ⟨hnone, hd⟩ | hd
  · rw [hd, Delta.applyAll_singleton, hremoved, splice, htext, String.toList_empty, List.append_nil]
  · have hzero : e.removed.toNat = 0 := by rw [hnone]; rfl
    rw [Fits, hzero] at h
    rw [hd, Delta.applyAll_singleton, Delta.apply_of_le (d := .insert e.offset _) h, splice, hzero]
    rfl
  · have hoffset : e.offset.toNat ≤ content.toList.length := by
      rw [String.length_toList]
      exact Nat.le_of_add_right_le h
    rw [hd, ← List.singleton_append, Delta.applyAll_append _ ((Delta.applyAll_singleton _ _).trans hremoved),
      Delta.applyAll_singleton]
    exact Delta.apply_insert_removed _ _ hoffset

/-- An edit that does not fit fails at its first delta. -/
theorem apply_deltas_of_not_fits {e : Edit} {content : String} (h : ¬ e.Fits content) :
    ∃ d ds f, e.deltas = d :: ds ∧ d.apply content = .error f := by
  have hlt : content.length < e.offset.toNat + e.removed.toNat := Nat.lt_of_not_le h
  have hremoved := Delta.apply_of_lt (d := .remove e.offset e.removed) hlt
  rcases e.deltas_forms with ⟨-, hd⟩ | ⟨hnone, hd⟩ | hd
  · exact ⟨_, _, _, hd, hremoved⟩
  · refine ⟨_, _, _, hd, Delta.apply_of_lt ?_⟩
    rw [hnone] at hlt
    exact hlt
  · exact ⟨_, _, _, hd, hremoved⟩

end Edit
end EditSync.Text
