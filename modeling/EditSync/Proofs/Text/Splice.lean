import EditSync.Text.Splice

/-! A delta fits a text exactly if it ends inside the text, and then its cuts lie between characters. So
what a replacement puts in place always fits what its removal left. -/

namespace EditSync.Text

theorem byteLength_append (xs ys : List Char) : byteLength (xs ++ ys) = byteLength xs + byteLength ys := by
  induction xs with
  | nil => simp [byteLength]
  | cons c xs ih => rw [List.cons_append, byteLength, byteLength, ih, Nat.add_assoc]

theorem cutAt_byteLength (xs ys : List Char) : cutAt (byteLength xs) (xs ++ ys) = some (xs, ys) := by
  induction xs with
  | nil => cases ys <;> rfl
  | cons c xs ih =>
    obtain ⟨n, hn⟩ := Nat.exists_eq_succ_of_ne_zero (Nat.ne_of_gt c.utf8Size_pos)
    have hlen : byteLength (c :: xs) = (n + byteLength xs) + 1 := by
      rw [byteLength, hn]
      omega
    have hrest : n + byteLength xs + 1 - c.utf8Size = byteLength xs := by omega
    rw [hlen, List.cons_append, cutAt, if_pos (by omega), hrest, ih]
    rfl

/-- Bytes that stand for whole characters are replaced as these characters. -/
theorem replaceBytes_append (head middle tail : List Char) (text : String) :
    replaceBytes (String.ofList (head ++ (middle ++ tail))) (byteLength head)
        (byteLength (head ++ middle)) text = some (String.ofList (head ++ text.toList ++ tail)) := by
  have hlt : ¬ byteLength (head ++ middle) < byteLength head := by
    rw [byteLength_append]
    omega
  have hmiddle : byteLength (head ++ middle) - byteLength head = byteLength middle := by
    rw [byteLength_append]
    omega
  rw [replaceBytes, String.toList_ofList, cutAt_byteLength, Option.bind_eq_bind, Option.bind_some]
  simp only [if_neg hlt, hmiddle, cutAt_byteLength, Option.bind_some]

/-- All between two counts of characters is replaced as a whole. -/
theorem replaceBytes_take (content text : String) {m n : Nat} (h : m ≤ n) :
    replaceBytes content (byteLength (content.toList.take m)) (byteLength (content.toList.take n)) text =
      some (String.ofList (content.toList.take m ++ text.toList ++ content.toList.drop n)) := by
  obtain ⟨k, rfl⟩ := Nat.exists_eq_add_of_le h
  have hsplit : content.toList.take (m + k) =
      content.toList.take m ++ (content.toList.drop m).take k := List.take_add
  have hcontent : String.ofList (content.toList.take m ++
      ((content.toList.drop m).take k ++ content.toList.drop (m + k))) = content := by
    rw [← List.append_assoc, ← hsplit, List.take_append_drop, String.ofList_toList]
  have hreplace := replaceBytes_append (content.toList.take m) ((content.toList.drop m).take k)
    (content.toList.drop (m + k)) text
  rwa [hcontent, ← hsplit] at hreplace

/-- Every character before the `n`-th one moves its start on by its own length. -/
theorem charStart_eq (start : Nat) (cs : List Char) (n : Nat) :
    charStart start cs n = if n < cs.length then some (start + byteLength (cs.take n)) else none := by
  induction cs generalizing start n with
  | nil => simp [charStart]
  | cons c cs ih =>
    cases n with
    | zero => rfl
    | succ n =>
      rw [charStart, ih, List.take_succ_cons, byteLength, Nat.add_assoc]
      simp only [List.length_cons, Nat.add_lt_add_iff_right]

theorem byteOffset_of_le {content : String} {n : Nat} (h : n ≤ content.length) :
    byteOffset content n = some (byteLength (content.toList.take n)) := by
  have hlen : content.toList.length = content.length := String.length_toList
  rw [byteOffset]
  split
  · next hzero =>
    subst hzero
    rfl
  · rcases Nat.lt_or_eq_of_le h with hlt | heq
    · rw [charStart_eq, if_pos (hlen ▸ hlt), Nat.zero_add]
    · rw [charStart_eq, if_neg (by omega)]
      simp only [if_pos heq.symm, List.take_of_length_le (Nat.le_of_eq (hlen.trans heq.symm))]

theorem byteOffset_of_lt {content : String} {n : Nat} (h : content.length < n) :
    byteOffset content n = none := by
  have hlen : content.toList.length = content.length := String.length_toList
  rw [byteOffset, if_neg (by omega), charStart_eq, if_neg (by omega)]
  exact if_neg (Nat.ne_of_lt h)

namespace Delta

theorem apply_of_le {d : Delta} {content : String}
    (h : d.offset.toNat + d.removed ≤ content.length) :
    d.apply content = .ok (String.ofList (content.toList.take d.offset.toNat ++ d.inserted.toList ++
      content.toList.drop (d.offset.toNat + d.removed))) := by
  have hreplace := replaceBytes_take content d.inserted (Nat.le_add_right d.offset.toNat d.removed)
  rw [apply, byteRange, byteOffset_of_le h, byteOffset_of_le (by omega)]
  simp only [Option.bind_eq_bind, Option.bind_some, hreplace]

theorem apply_of_lt {d : Delta} {content : String}
    (h : content.length < d.offset.toNat + d.removed) :
    d.apply content = .error ⟨d.offset.toNat, d.length, content.length⟩ := by
  rw [apply, byteRange, byteOffset_of_lt h]
  cases byteOffset content d.offset.toNat <;> rfl

theorem le_of_apply_eq_ok {d : Delta} {content next : String} (h : d.apply content = .ok next) :
    d.offset.toNat + d.removed ≤ content.length := by
  rcases Nat.lt_or_ge content.length (d.offset.toNat + d.removed) with hlt | hle
  · exact absurd ((apply_of_lt hlt).symm.trans h) (by simp)
  · exact hle

/-- An insertion fits wherever something was just removed. -/
theorem insert_fits_removed {offset count : UInt64} {content rest : String} (text : String)
    (h : (remove offset count).apply content = .ok rest) :
    ∃ next, (insert offset text).apply rest = .ok next := by
  have hle : offset.toNat + count.toNat ≤ content.length := le_of_apply_eq_ok h
  have hrest := Except.ok.inj ((apply_of_le (d := remove offset count) hle).symm.trans h)
  refine ⟨_, apply_of_le ?_⟩
  have hlen : content.toList.length = content.length := String.length_toList
  rw [← hrest, String.length_ofList]
  simp only [Delta.offset, Delta.removed, Delta.inserted, List.length_append, List.length_take,
    List.length_drop]
  omega

end Delta
end EditSync.Text
