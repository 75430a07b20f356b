import EditSync.Path

/-! What cleaning leaves of a path: segments that climb only at the front of a relative path, of which a
second cleaning takes nothing away. So the key that a path is found under is its own key. -/

namespace EditSync.Path

theorem pieces_ne_nil (cs : List Char) : pieces cs ≠ [] := by
  cases cs with
  | nil => simp [pieces]
  | cons c cs =>
    unfold pieces
    split
    · simp
    · split <;> simp

theorem pieces_slash (cs : List Char) : pieces ('/' :: cs) = [] :: pieces cs := by
  rw [pieces]
  split
  · next h => exact absurd h (pieces_ne_nil cs)
  · next p ps h => simp [h]

theorem pieces_cons {c : Char} (hc : c ≠ '/') {cs p : List Char} {ps : List (List Char)}
    (h : pieces cs = p :: ps) : pieces (c :: cs) = (c :: p) :: ps := by
  rw [pieces, h]
  simp [hc]

theorem slash_notMem_of_mem_pieces {cs p : List Char} (h : p ∈ pieces cs) : '/' ∉ p := by
  induction cs generalizing p with
  | nil => simp only [pieces, List.mem_singleton] at h; simp [h]
  | cons c cs ih =>
    by_cases hc : c = '/'
    · subst hc
      rw [pieces_slash] at h
      rcases List.mem_cons.1 h with rfl | h
      · exact List.not_mem_nil
      · exact ih h
    · obtain ⟨q, qs, hq⟩ := List.exists_cons_of_ne_nil (pieces_ne_nil cs)
      rw [pieces_cons hc hq] at h
      rcases List.mem_cons.1 h with rfl | h
      · have := ih (p := q) (by simp [hq])
        exact fun hm => (List.mem_cons.1 hm).elim (fun he => hc he.symm) this
      · exact ih (by simp [hq, h])

theorem pieces_of_notMem {p : List Char} (h : '/' ∉ p) : pieces p = [p] := by
  induction p with
  | nil => rfl
  | cons c p ih =>
    rw [List.mem_cons, not_or] at h
    exact pieces_cons (fun hc => h.1 hc.symm) (ih h.2)

theorem pieces_append_slash {p : List Char} (h : '/' ∉ p) (cs : List Char) :
    pieces (p ++ '/' :: cs) = p :: pieces cs := by
  induction p with
  | nil => exact pieces_slash cs
  | cons c p ih =>
    rw [List.mem_cons, not_or] at h
    exact pieces_cons (fun hc => h.1 hc.symm) (ih h.2)

structure IsSegment (p : List Char) : Prop where
  ne_nil : p ≠ []
  ne_dot : p ≠ ['.']
  noSlash : '/' ∉ p

theorem isSegment_of_mem {cs p : List Char} (h : p ∈ segments cs) : IsSegment p := by
  simp only [segments, List.mem_filter, Bool.and_eq_true, decide_eq_true_eq] at h
  exact ⟨h.2.1, h.2.2, slash_notMem_of_mem_pieces h.1⟩

theorem pieces_joinSegments {ps : List (List Char)} (hne : ps ≠ []) (h : ∀ p ∈ ps, IsSegment p) :
    pieces (joinSegments ps) = ps := by
  induction ps with
  | nil => exact absurd rfl hne
  | cons p ps ih =>
    have hp := (h p (by simp)).noSlash
    rw [joinSegments]
    cases ps with
    | nil => rw [List.intercalate_singleton, pieces_of_notMem hp]
    | cons q qs =>
      rw [List.intercalate_cons_cons, List.append_assoc]
      have := ih (by simp) fun r hr => h r (List.mem_cons_of_mem _ hr)
      rw [joinSegments] at this
      rw [List.singleton_append, pieces_append_slash hp, this]

theorem filter_isSegment {ps : List (List Char)} (h : ∀ p ∈ ps, IsSegment p) :
    (ps.filter fun p => p ≠ [] && p ≠ ['.']) = ps := by
  apply List.filter_eq_self.2
  intro p hp
  simp [(h p hp).ne_nil, (h p hp).ne_dot]

theorem segments_slash (cs : List Char) : segments ('/' :: cs) = segments cs := by
  simp [segments, pieces_slash]

theorem segments_joinSegments {ps : List (List Char)} (h : ∀ p ∈ ps, IsSegment p) :
    segments (joinSegments ps) = ps := by
  cases ps with
  | nil => rfl
  | cons p ps =>
    rw [segments, pieces_joinSegments (by simp) h]
    exact filter_isSegment h

/-- Segments, the last one first, that climbing leaves as they are: climbs only stand at the front of
a relative path. -/
def Kept (absolute : Bool) : List (List Char) → Prop
  | [] => True
  | p :: rest => (p = ['.', '.'] → absolute = false ∧ ∀ q ∈ rest, q = ['.', '.']) ∧ Kept absolute rest

theorem Kept.climb {absolute : Bool} {kept : List (List Char)} (h : Kept absolute kept)
    (p : List Char) : Kept absolute (climb absolute kept p) := by
  by_cases hp : p = ['.', '.']
  · cases kept with
    | nil => cases absolute <;> simp [Path.climb, hp, Kept]
    | cons last rest =>
      by_cases hl : last = ['.', '.']
      · obtain ⟨ha, hr⟩ := h.1 hl
        simp only [Path.climb, hp, hl, if_true]
        refine ⟨fun _ => ⟨ha, fun q hq => ?_⟩, hl ▸ h⟩
        rcases List.mem_cons.1 hq with rfl | hq
        · rfl
        · exact hr q hq
      · simp only [Path.climb, hp, hl, if_true, if_false]
        exact h.2
  · simp only [Path.climb, hp, if_false]
    exact ⟨fun he => absurd he hp, h⟩

theorem Kept.foldl {absolute : Bool} (ps : List (List Char)) {kept : List (List Char)}
    (h : Kept absolute kept) : Kept absolute (ps.foldl (Path.climb absolute) kept) := by
  induction ps generalizing kept with
  | nil => exact h
  | cons p ps ih => exact ih (h.climb p)

/-- Nothing is kept that was no segment. -/
theorem mem_foldl_climb {absolute : Bool} {ps kept : List (List Char)} {q : List Char}
    (h : q ∈ ps.foldl (climb absolute) kept) : q ∈ ps ∨ q ∈ kept := by
  induction ps generalizing kept with
  | nil => exact Or.inr h
  | cons p ps ih =>
    rcases ih h with h | h
    · exact Or.inl (List.mem_cons_of_mem _ h)
    · unfold climb at h
      split at h
      · next hp =>
        split at h
        · split at h
          · exact absurd h List.not_mem_nil
          · exact Or.inl (by simp_all)
        · split at h
          · rcases List.mem_cons.1 h with rfl | h
            · exact Or.inl (by simp)
            · exact Or.inr h
          · exact Or.inr (List.mem_cons_of_mem _ h)
      · rcases List.mem_cons.1 h with rfl | h
        · exact Or.inl (by simp)
        · exact Or.inr h

/-- Climbing through what was kept gives it back. -/
theorem Kept.foldl_reverse {absolute : Bool} {kept : List (List Char)} (h : Kept absolute kept) :
    kept.reverse.foldl (Path.climb absolute) [] = kept := by
  induction kept with
  | nil => rfl
  | cons p rest ih =>
    rw [List.reverse_cons, List.foldl_append, ih h.2]
    simp only [List.foldl_cons, List.foldl_nil, Path.climb]
    split
    · next hp =>
      obtain ⟨ha, hr⟩ := h.1 hp
      cases rest with
      | nil => simp [ha]
      | cons q qs => simp [hr q (by simp)]
    · rfl

theorem isAbsolute_joinSegments {ps : List (List Char)} (h : ∀ p ∈ ps, IsSegment p) :
    isAbsolute (joinSegments ps) = false := by
  cases ps with
  | nil => rfl
  | cons p ps =>
    obtain ⟨c, cs, rfl⟩ := List.exists_cons_of_ne_nil (h p (by simp)).ne_nil
    have hc : c ≠ '/' := fun he => (h _ List.mem_cons_self).noSlash (by simp [he])
    cases ps <;> simp [joinSegments, isAbsolute, List.intercalate_cons_cons, hc]

def remaining (cs : List Char) : List (List Char) :=
  ((segments cs).foldl (climb (isAbsolute cs)) []).reverse

theorem cleanChars_eq (cs : List Char) :
    cleanChars cs =
      if isAbsolute cs then '/' :: joinSegments (remaining cs)
      else if remaining cs = [] then ['.'] else joinSegments (remaining cs) := rfl

theorem kept_remaining (cs : List Char) : Kept (isAbsolute cs) (remaining cs).reverse := by
  rw [remaining, List.reverse_reverse]
  exact Kept.foldl (segments cs) trivial

theorem isSegment_of_mem_remaining {cs p : List Char} (h : p ∈ remaining cs) : IsSegment p := by
  rcases mem_foldl_climb (List.mem_reverse.1 h) with h | h
  · exact isSegment_of_mem h
  · exact absurd h List.not_mem_nil

theorem isAbsolute_cleanChars (cs : List Char) : isAbsolute (cleanChars cs) = isAbsolute cs := by
  rw [cleanChars_eq]
  cases isAbsolute cs with
  | true => rfl
  | false =>
    rw [if_neg Bool.false_ne_true]
    split
    · rfl
    · exact isAbsolute_joinSegments fun p => isSegment_of_mem_remaining

theorem segments_cleanChars (cs : List Char) : segments (cleanChars cs) = remaining cs := by
  have hjoin : segments (joinSegments (remaining cs)) = remaining cs :=
    segments_joinSegments fun p => isSegment_of_mem_remaining
  rw [cleanChars_eq]
  split
  · rw [segments_slash, hjoin]
  · split
    · next hnone => rw [hnone]; rfl
    · exact hjoin

/-- Cleaning finds nothing more to take away. -/
theorem remaining_cleanChars (cs : List Char) : remaining (cleanChars cs) = remaining cs := by
  have hkept := (kept_remaining cs).foldl_reverse
  rw [List.reverse_reverse] at hkept
  rw [remaining, isAbsolute_cleanChars, segments_cleanChars, hkept, List.reverse_reverse]

theorem cleanChars_cleanChars (cs : List Char) : cleanChars (cleanChars cs) = cleanChars cs := by
  rw [cleanChars_eq (cleanChars cs), isAbsolute_cleanChars, remaining_cleanChars, ← cleanChars_eq]

@[simp] theorem clean_clean (path : String) : clean (clean path) = clean path := by
  simp [clean, cleanChars_cleanChars]

end EditSync.Path
