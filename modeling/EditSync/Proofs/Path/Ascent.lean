import EditSync.Proofs.Path.Normal
import Mathlib.Data.List.Induction

/-! Paths that climb out of where they start. A climb is left in a clean path exactly if the path is
relative and at some point has climbed more often than it went down. Every other path names a file below
a root folder. -/

namespace EditSync.Path

def Rises (ps : List (List Char)) : Prop := ps.countP (· ≠ ['.', '.']) < ps.count ['.', '.']

instance (ps : List (List Char)) : Decidable (Rises ps) := inferInstanceAs (Decidable (_ < _))

/-- A relative path that is, at some point along it, above the folder that it starts from. -/
def ClimbsOut (cs : List Char) : Prop :=
  isAbsolute cs = false ∧ ∃ before, before <+: segments cs ∧ Rises before

theorem climb_of_ne {p : List Char} (hp : p ≠ ['.', '.']) (absolute : Bool) (kept : List (List Char)) :
    climb absolute kept p = p :: kept := if_neg hp

theorem climb_of_name {last : List Char} (hlast : last ≠ ['.', '.']) (absolute : Bool)
    (rest : List (List Char)) : climb absolute (last :: rest) ['.', '.'] = rest := if_neg hlast

/-- A climb that is kept stays so. -/
theorem climb_mem_climb {absolute : Bool} {kept : List (List Char)} (h : ['.', '.'] ∈ kept)
    (p : List Char) : ['.', '.'] ∈ climb absolute kept p := by
  unfold climb
  split
  · cases kept with
    | nil => exact absurd h List.not_mem_nil
    | cons last rest =>
      dsimp only
      split
      · exact List.mem_cons_of_mem p h
      · next hlast => exact (List.mem_cons.1 h).resolve_left (Ne.symm hlast)
  · exact List.mem_cons_of_mem p h

theorem count_singleton_of_ne {p : List Char} (hp : p ≠ ['.', '.']) :
    [p].countP (· ≠ ['.', '.']) = 1 ∧ [p].count ['.', '.'] = 0 := by
  simp [hp]

/-- Segments of which no climb is kept go down as often as they climb, and once more for each name that is
kept. -/
theorem countP_of_climb_notMem {ps : List (List Char)} (h : ['.', '.'] ∉ ps.foldl (climb false) []) :
    ps.countP (· ≠ ['.', '.']) = ps.count ['.', '.'] + (ps.foldl (climb false) []).length := by
  induction ps using List.reverseRecOn with
  | nil => rfl
  | append_singleton ps p ih =>
    rw [List.foldl_append, List.foldl_cons, List.foldl_nil] at h ⊢
    have hkept : ['.', '.'] ∉ ps.foldl (climb false) [] := fun hmem => h (climb_mem_climb hmem p)
    rw [List.countP_append, List.count_append, ih hkept]
    generalize ps.foldl (climb false) [] = kept at h hkept ⊢
    by_cases hp : p = ['.', '.']
    · subst hp
      cases kept with
      | nil => exact absurd (by simp [climb]) h
      | cons last rest =>
        have hlast : last ≠ ['.', '.'] := fun he => hkept (by simp [he])
        rw [climb_of_name hlast, List.count_singleton_self, List.length_cons,
          show [['.', '.']].countP (· ≠ ['.', '.']) = 0 from rfl]
        omega
    · obtain ⟨hdown, hup⟩ := count_singleton_of_ne hp
      rw [climb_of_ne hp, hdown, hup, List.length_cons]
      omega

/-- The first climb is kept where the segments rise above their start. -/
theorem climb_mem_foldl_iff (ps : List (List Char)) :
    ['.', '.'] ∈ ps.foldl (climb false) [] ↔ ∃ before, before <+: ps ∧ Rises before := by
  induction ps using List.reverseRecOn with
  | nil => simp [Rises]
  | append_singleton ps p ih =>
    rw [List.foldl_append, List.foldl_cons, List.foldl_nil]
    simp only [List.prefix_concat_iff, or_and_right, exists_or, exists_eq_left, ← ih]
    by_cases hkept : ['.', '.'] ∈ ps.foldl (climb false) []
    · exact iff_of_true (climb_mem_climb hkept p) (Or.inr hkept)
    · have hlevel := countP_of_climb_notMem hkept
      rw [or_iff_left hkept, Rises, List.countP_append, List.count_append, hlevel]
      generalize ps.foldl (climb false) [] = kept at hkept ⊢
      by_cases hp : p = ['.', '.']
      · subst hp
        cases kept with
        | nil => simp [climb]
        | cons last rest =>
          rw [List.mem_cons, not_or] at hkept
          simp [climb_of_name (Ne.symm hkept.1), hkept.2]
      · obtain ⟨hdown, hup⟩ := count_singleton_of_ne hp
        rw [climb_of_ne hp, hdown, hup, List.mem_cons, or_iff_left hkept]
        exact iff_of_false (Ne.symm hp) (by omega)

/-- The climbs that cleaning leaves are those of a path that climbs out. -/
theorem climb_mem_remaining_iff (cs : List Char) : ['.', '.'] ∈ remaining cs ↔ ClimbsOut cs := by
  cases ha : isAbsolute cs with
  | true =>
    obtain ⟨climbs, names, hsplit, named, habsolute⟩ := exists_remaining cs
    refine iff_of_false (fun hmem => ?_) (fun h => absurd (ha.symm.trans h.1) (by simp))
    rw [hsplit, habsolute ha] at hmem
    exact (named _ hmem).ne_climb rfl
  | false =>
    rw [remaining, List.mem_reverse, ha, climb_mem_foldl_iff, ClimbsOut]
    exact (and_iff_right ha).symm

theorem climb_mem_pieces_iff (cs : List Char) : ['.', '.'] ∈ pieces cs ↔ ['.', '.'] ∈ segments cs := by
  simp [segments]

theorem climb_mem_clean_iff (path : String) :
    ['.', '.'] ∈ pieces (clean path).toList ↔ ClimbsOut path.toList := by
  rw [climb_mem_pieces_iff, clean, String.toList_ofList, segments_cleanChars, climb_mem_remaining_iff]

theorem segments_dropSlashes (cs : List Char) : segments (dropSlashes cs) = segments cs := by
  induction cs with
  | nil => rfl
  | cons c cs ih =>
    by_cases hc : c = '/'
    · subst hc
      rw [segments_slash, ← ih, dropSlashes, List.dropWhile_cons_of_pos (by simp)]
      rfl
    · rw [dropSlashes, List.dropWhile_cons_of_neg (by simpa using hc)]

theorem isAbsolute_dropSlashes (cs : List Char) : isAbsolute (dropSlashes cs) = false := by
  induction cs with
  | nil => rfl
  | cons c cs ih =>
    by_cases hc : c = '/'
    · rw [dropSlashes, List.dropWhile_cons_of_pos (by simpa using hc)]
      exact ih
    · rw [dropSlashes, List.dropWhile_cons_of_neg (by simpa using hc)]
      simp [isAbsolute, hc]

theorem climbs_dropSlashes (cs : List Char) : climbs (dropSlashes cs) = true ↔ ['.', '.'] ∈ pieces cs := by
  rw [climbs, decide_eq_true_eq, climb_mem_pieces_iff, segments_dropSlashes, climb_mem_pieces_iff]

def fromRoot (path : String) : String := String.ofList (dropSlashes path.toList)

theorem isAbsolute_fromRoot (path : String) : isAbsolute (fromRoot path).toList = false := by
  rw [fromRoot, String.toList_ofList, isAbsolute_dropSlashes]

theorem climb_mem_fromRoot_iff (path : String) :
    ['.', '.'] ∈ pieces (fromRoot path).toList ↔ ['.', '.'] ∈ pieces path.toList := by
  rw [fromRoot, String.toList_ofList, climb_mem_pieces_iff, segments_dropSlashes, climb_mem_pieces_iff]

theorem leadsTo_fromRoot (path : String) :
    leadsTo [] (fromRoot path).toList = leadsTo [] path.toList := by
  rw [fromRoot, String.toList_ofList, leadsTo, leadsTo, segments_dropSlashes, ite_self, ite_self]

/-- What does not start at the top is put behind the root. -/
theorem join_of_relative (root : String) {relative : String} (h : isAbsolute relative.toList = false) :
    join root relative = join root "" ++ relative := by
  have hempty : isAbsolute "".toList = false := rfl
  simp only [join, h, hempty, Bool.false_eq_true, if_false]
  split <;> simp

/-- A file that is reached from a root by going down. -/
def Below (root file : String) : Prop :=
  ∃ relative : String, isAbsolute relative.toList = false ∧ ['.', '.'] ∉ pieces relative.toList ∧
    file = join root relative

theorem resolve_of_climb {path : String} (h : ['.', '.'] ∈ pieces path.toList) (root : String) :
    resolve root path = .error (.untracked path) :=
  if_pos ((climbs_dropSlashes path.toList).2 h)

theorem resolve_of_no_climb {path : String} (h : ['.', '.'] ∉ pieces path.toList) (root : String) :
    resolve root path = .ok (join root (fromRoot path)) :=
  if_neg (h ∘ (climbs_dropSlashes path.toList).1)

theorem below_fromRoot {path : String} (h : ['.', '.'] ∉ pieces path.toList) (root : String) :
    Below root (join root (fromRoot path)) :=
  ⟨fromRoot path, isAbsolute_fromRoot path, h ∘ (climb_mem_fromRoot_iff path).1, rfl⟩

end EditSync.Path
