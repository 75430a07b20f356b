import EditSync.Proofs.Text.Splice

/-! Positions in the UTF-8 form. Counting characters leads to every position between two of them, one after
the other, and to no position inside of one. A text can be cut at exactly these positions, so that a delta
which ends inside the text is never asked to cut anywhere else. -/

namespace EditSync.Text

theorem byteLength_eq_utf8ByteSize (cs : List Char) :
    byteLength cs = (String.ofList cs).utf8ByteSize := by
  induction cs with
  | nil => rfl
  | cons c cs ih =>
    rw [byteLength, ih, ← List.singleton_append, String.ofList_append, String.utf8ByteSize_append,
      ← String.singleton_eq_ofList, String.utf8ByteSize_singleton]

theorem byteLength_take_lt {cs : List Char} {m n : Nat} (h : m < n) (hn : n ≤ cs.length) :
    byteLength (cs.take m) < byteLength (cs.take n) := by
  obtain ⟨k, rfl⟩ := Nat.exists_eq_add_of_lt h
  have hsplit : cs.take (m + (k + 1)) = cs.take m ++ (cs.drop m).take (k + 1) := List.take_add
  have hpos : 0 < (cs[m]).utf8Size := Char.utf8Size_pos _
  rw [Nat.add_assoc, hsplit, byteLength_append, List.drop_eq_getElem_cons (by omega),
    List.take_succ_cons, byteLength]
  omega

variable {content : String} {start stop : Nat}

theorem byteOffset_eq_some_iff {n b : Nat} :
    byteOffset content n = some b ↔
      n ≤ content.length ∧ (String.ofList (content.toList.take n)).utf8ByteSize = b := by
  rw [← byteLength_eq_utf8ByteSize]
  constructor
  · intro h
    rcases Nat.lt_or_ge content.length n with hlt | hle
    · rw [byteOffset_of_lt hlt] at h
      exact absurd h (by simp)
    · rw [byteOffset_of_le hle] at h
      exact ⟨hle, Option.some.inj h⟩
  · rintro ⟨hle, rfl⟩
    exact byteOffset_of_le hle

theorem byteOffset_lt_byteOffset {m n a b : Nat} (h : m < n) (hm : byteOffset content m = some a)
    (hn : byteOffset content n = some b) : a < b := by
  obtain ⟨-, rfl⟩ := byteOffset_eq_some_iff.1 hm
  obtain ⟨hle, rfl⟩ := byteOffset_eq_some_iff.1 hn
  rw [← byteLength_eq_utf8ByteSize, ← byteLength_eq_utf8ByteSize]
  exact byteLength_take_lt h (Nat.le_trans hle (Nat.le_of_eq String.length_toList.symm))

theorem le_of_byteOffset_le {m n : Nat} (h : start ≤ stop) (hm : byteOffset content m = some start)
    (hn : byteOffset content n = some stop) : m ≤ n := by
  rcases Nat.lt_or_ge n m with hlt | hle
  · exact absurd h (Nat.not_le_of_lt (byteOffset_lt_byteOffset hlt hn hm))
  · exact hle

/-- No position between two characters is left out. -/
theorem isValid_iff_exists_byteOffset {b : Nat} :
    (⟨b⟩ : String.Pos.Raw).IsValid content ↔ ∃ n, byteOffset content n = some b := by
  rw [String.Pos.Raw.isValid_iff_exists_take_toList]
  constructor
  · rintro ⟨n, rfl⟩
    rcases Nat.lt_or_ge content.length n with hlt | hle
    · have hlen : content.toList.length = content.length := String.length_toList
      refine ⟨content.length, byteOffset_eq_some_iff.2 ⟨Nat.le_refl _, ?_⟩⟩
      rw [List.take_of_length_le (Nat.le_of_eq hlen), List.take_of_length_le (by omega)]
    · exact ⟨n, byteOffset_eq_some_iff.2 ⟨hle, rfl⟩⟩
  · rintro ⟨n, hn⟩
    exact ⟨n, (byteOffset_eq_some_iff.1 hn).2.symm⟩

theorem eq_append_of_cutAt {n : Nat} {cs xs ys : List Char} (h : cutAt n cs = some (xs, ys)) :
    xs ++ ys = cs ∧ byteLength xs = n := by
  fun_induction cutAt n cs generalizing xs with
  | case1 cs =>
    obtain ⟨rfl, rfl⟩ := Prod.mk.inj (Option.some.inj h)
    exact ⟨rfl, rfl⟩
  | case2 n => exact absurd h (by simp)
  | case3 n c cs hfits ih =>
    obtain ⟨⟨head, tail⟩, hcut, heq⟩ := Option.map_eq_some_iff.1 h
    obtain ⟨rfl, rfl⟩ := Prod.mk.inj heq
    obtain ⟨rfl, hlen⟩ := ih hcut
    refine ⟨rfl, ?_⟩
    rw [byteLength, hlen]
    omega
  | case4 n c cs hwide => exact absurd h (by simp)

theorem isValid_of_append {xs ys : List Char} (h : xs ++ ys = content.toList) :
    (⟨byteLength xs⟩ : String.Pos.Raw).IsValid content := by
  refine String.Pos.Raw.isValid_iff_exists_take_toList.2 ⟨xs.length, ?_⟩
  rw [← h, List.take_left, byteLength_eq_utf8ByteSize]

/-- The bytes from `start` to `stop` can be taken out of a text: they are in order and inside the text, and
neither end of them lies inside of a character. -/
structure Cuttable (content : String) (start stop : Nat) : Prop where
  ordered : start ≤ stop
  inside : stop ≤ content.utf8ByteSize
  start_between : (⟨start⟩ : String.Pos.Raw).IsValid content
  stop_between : (⟨stop⟩ : String.Pos.Raw).IsValid content

theorem cuttable_of_isValid (h : start ≤ stop) (hstart : (⟨start⟩ : String.Pos.Raw).IsValid content)
    (hstop : (⟨stop⟩ : String.Pos.Raw).IsValid content) : Cuttable content start stop :=
  ⟨h, hstop.le_utf8ByteSize, hstart, hstop⟩

theorem cuttable_of_replaceBytes {text next : String}
    (h : replaceBytes content start stop text = some next) : Cuttable content start stop := by
  rw [replaceBytes, Option.bind_eq_bind, Option.bind_eq_some_iff] at h
  obtain ⟨⟨head, rest⟩, hhead, h⟩ := h
  obtain ⟨hcontent, rfl⟩ := eq_append_of_cutAt hhead
  dsimp only at h
  split at h
  · exact absurd h (by simp)
  · next hordered =>
    obtain ⟨⟨middle, tail⟩, hmiddle, -⟩ := Option.bind_eq_some_iff.1 h
    obtain ⟨rfl, hlen⟩ := eq_append_of_cutAt hmiddle
    have hstop : byteLength (head ++ middle) = stop := by
      rw [byteLength_append]
      omega
    have hvalid : (⟨byteLength (head ++ middle)⟩ : String.Pos.Raw).IsValid content :=
      isValid_of_append ((List.append_assoc ..).trans hcontent)
    exact cuttable_of_isValid (Nat.le_of_not_lt hordered) (isValid_of_append hcontent) (hstop ▸ hvalid)

/-- Bytes are replaced unless the cuts for that are out of order, outside of the text or inside of a
character. -/
theorem isSome_replaceBytes_iff {text : String} :
    (replaceBytes content start stop text).isSome ↔ Cuttable content start stop := by
  constructor
  · intro h
    obtain ⟨next, hnext⟩ := Option.isSome_iff_exists.1 h
    exact cuttable_of_replaceBytes hnext
  · intro h
    obtain ⟨m, hm⟩ := isValid_iff_exists_byteOffset.1 h.start_between
    obtain ⟨n, hn⟩ := isValid_iff_exists_byteOffset.1 h.stop_between
    have hle : m ≤ n := le_of_byteOffset_le h.ordered hm hn
    obtain ⟨-, rfl⟩ := byteOffset_eq_some_iff.1 hm
    obtain ⟨-, rfl⟩ := byteOffset_eq_some_iff.1 hn
    rw [← byteLength_eq_utf8ByteSize, ← byteLength_eq_utf8ByteSize, replaceBytes_take content text hle]
    rfl

def addChecked (a b : UInt64) : Option UInt64 :=
  if a.toNat + b.toNat < UInt64.size then some (a + b) else none

namespace Delta

variable {d : Delta}

theorem byteRange_eq_some_iff :
    d.byteRange content = some (start, stop) ↔
      byteOffset content d.offset.toNat = some start ∧
        byteOffset content (d.offset.toNat + d.removed) = some stop := by
  simp [byteRange, Option.bind_eq_some_iff]

theorem cuttable_of_byteRange (h : d.byteRange content = some (start, stop)) :
    Cuttable content start stop := by
  obtain ⟨hstart, hstop⟩ := byteRange_eq_some_iff.1 h
  have hordered : start ≤ stop := by
    rcases Nat.eq_or_lt_of_le (Nat.le_add_right d.offset.toNat d.removed) with heq | hlt
    · rw [← heq, hstart] at hstop
      exact Nat.le_of_eq (Option.some.inj hstop)
    · exact Nat.le_of_lt (byteOffset_lt_byteOffset hlt hstart hstop)
  exact cuttable_of_isValid hordered (isValid_iff_exists_byteOffset.2 ⟨_, hstart⟩)
    (isValid_iff_exists_byteOffset.2 ⟨_, hstop⟩)

/-- A delta that ends behind the text is refused for that alone. All others ask for bytes that can be taken
out of the text, and these are replaced. -/
def CutsOrRefused (d : Delta) (content : String) : Prop :=
  (content.length < d.offset.toNat + d.removed ∧ d.byteRange content = none ∧
      d.apply content = .error ⟨d.offset.toNat, d.length, content.length⟩) ∨
    ∃ start stop next, d.byteRange content = some (start, stop) ∧ Cuttable content start stop ∧
      replaceBytes content start stop d.inserted = some next ∧ d.apply content = .ok next

theorem cutsOrRefused (d : Delta) (content : String) : d.CutsOrRefused content := by
  cases hrange : d.byteRange content with
  | none =>
    rcases Nat.lt_or_ge content.length (d.offset.toNat + d.removed) with hlt | hle
    · exact Or.inl ⟨hlt, hrange, apply_of_lt hlt⟩
    · have hstart := byteOffset_of_le (Nat.le_of_add_right_le hle)
      have hsome := byteRange_eq_some_iff.2 ⟨hstart, byteOffset_of_le hle⟩
      exact absurd (hsome.symm.trans hrange) (by simp)
  | some range =>
    obtain ⟨start, stop⟩ := range
    have hcuttable := cuttable_of_byteRange hrange
    obtain ⟨next, hnext⟩ := Option.isSome_iff_exists.1 (isSome_replaceBytes_iff.2 hcuttable)
    refine Or.inr ⟨start, stop, next, hrange, hcuttable, hnext, ?_⟩
    rw [apply, hrange]
    simp only [hnext]

/-- The bytes that a delta replaces, found with words alone: an end that no word stands for is refused
before the text is asked for it. -/
def wordRange (content : String) : Delta → Option (Nat × Nat)
  | insert offset _ => do
    let start ← byteOffset content offset.toNat
    some (start, start)
  | remove offset count => do
    let stop ← addChecked offset count
    let start ← byteOffset content offset.toNat
    let stop ← byteOffset content stop.toNat
    some (start, stop)

/-- Found with words, the bytes are the same: an end that no word stands for lies behind the text. -/
theorem byteRange_eq_wordRange (d : Delta) (h : content.length < UInt64.size) :
    d.byteRange content = d.wordRange content := by
  cases d with
  | insert offset text =>
    simp only [byteRange, wordRange, Delta.offset, removed, Nat.add_zero]
    cases byteOffset content offset.toNat <;> rfl
  | remove offset count =>
    simp only [byteRange, wordRange, addChecked, Delta.offset, removed]
    split
    · next hword =>
      simp only [Option.bind_eq_bind, Option.bind_some, UInt64.toNat_add, Nat.mod_eq_of_lt hword]
    · next hnone =>
      have hlt : content.length < offset.toNat + count.toNat := by omega
      rw [byteOffset_of_lt hlt]
      cases byteOffset content offset.toNat <;> rfl

end Delta

/-- A count of characters has a position exactly if there are as many in the text. The position is the
length of their UTF-8 form, it lies between two characters, and a greater count has a greater one. So each
delta either ends behind the text and is refused, or cuts the text at two such positions and in order. Its
end may as well be added up in words if a word can count the characters. -/
theorem cuts_between_characters (content : String) :
    (∀ n b, byteOffset content n = some b ↔
      n ≤ content.length ∧ (String.ofList (content.toList.take n)).utf8ByteSize = b) ∧
    (∀ n b, byteOffset content n = some b → (⟨b⟩ : String.Pos.Raw).IsValid content) ∧
    (∀ m n a b, m < n → byteOffset content m = some a → byteOffset content n = some b → a < b) ∧
    (∀ d : Delta, d.CutsOrRefused content) ∧
    (content.length < UInt64.size → ∀ d : Delta, d.byteRange content = d.wordRange content) := by
  refine ⟨fun _ _ => byteOffset_eq_some_iff, ?_, ?_, fun d => d.cutsOrRefused content, ?_⟩
  · intro n b h
    exact isValid_iff_exists_byteOffset.2 ⟨n, h⟩
  · intro m n a b hlt hm hn
    exact byteOffset_lt_byteOffset hlt hm hn
  · intro hroom d
    exact d.byteRange_eq_wordRange hroom

/-- Before and behind a character of three bytes, and at an end that no word stands for. -/
theorem cuts_between_characters_wide :
    byteOffset "día€x" 3 = some 4 ∧ byteOffset "día€x" 4 = some 7 ∧ 4 < 7 ∧
      (⟨7⟩ : String.Pos.Raw).IsValid "día€x" ∧ "día€x".length < UInt64.size ∧
      (Delta.remove 18446744073709551615 2).byteRange "día€x" =
        (Delta.remove 18446744073709551615 2).wordRange "día€x" := by
  obtain ⟨-, hbetween, hincreasing, -, hwords⟩ := cuts_between_characters "día€x"
  have hbefore : byteOffset "día€x" 3 = some 4 := by decide
  have hbehind : byteOffset "día€x" 4 = some 7 := by decide
  have hroom : "día€x".length < UInt64.size := by decide
  exact ⟨hbefore, hbehind, hincreasing 3 4 4 7 (by decide) hbefore hbehind, hbetween 4 7 hbehind, hroom,
    hwords hroom _⟩

end EditSync.Text
