import EditSync.Proofs.Path.Clean

/-! Normal forms of paths, and the places that paths lead to. A path is left as it is by cleaning exactly
if it is in normal form, which is said of its pieces alone. Cleaning keeps the place that a path leads to
from each folder; and two paths have one normal form exactly if they lead to the same places. -/

namespace EditSync.Path

structure IsName (p : List Char) : Prop extends IsSegment p where
  ne_climb : p ≠ ['.', '.']

/-- The place itself, the top, names below the top, or names below the folder some steps up. -/
inductive Normal : List Char → Prop
  | here : Normal ['.']
  | top : Normal ['/']
  | absolute {cs : List Char} (named : ∀ p ∈ pieces cs, IsName p) : Normal ('/' :: cs)
  | relative {cs : List Char} {names : List (List Char)} (climbs : Nat)
      (split : pieces cs = List.replicate climbs ['.', '.'] ++ names) (named : ∀ p ∈ names, IsName p) :
      Normal cs

theorem joinSegments_cons_cons (c : Char) (p : List Char) (ps : List (List Char)) :
    joinSegments ((c :: p) :: ps) = c :: joinSegments (p :: ps) := by
  cases ps <;> simp [joinSegments, List.intercalate_cons_cons]

theorem joinSegments_pieces (cs : List Char) : joinSegments (pieces cs) = cs := by
  induction cs with
  | nil => rfl
  | cons c cs ih =>
    obtain ⟨p, ps, hp⟩ := List.exists_cons_of_ne_nil (pieces_ne_nil cs)
    by_cases hc : c = '/'
    · subst hc
      rw [hp] at ih
      rw [pieces_slash, hp, joinSegments, List.intercalate_cons_cons, List.nil_append, List.singleton_append]
      exact congrArg ('/' :: ·) ih
    · rw [hp] at ih
      rw [pieces_cons hc hp, joinSegments_cons_cons, ih]

theorem isSegment_climb : IsSegment ['.', '.'] := ⟨by decide, by decide, by decide⟩

/-- What is kept are names below some climbs, none of them for a path from the top. -/
theorem kept_iff {absolute : Bool} {kept : List (List Char)} :
    Kept absolute kept ↔
      ∃ climbs names, kept = names ++ List.replicate climbs ['.', '.'] ∧
        (∀ p ∈ names, p ≠ ['.', '.']) ∧ (absolute = true → climbs = 0) := by
  induction kept with
  | nil => exact iff_of_true trivial ⟨0, [], rfl, by simp, fun _ => rfl⟩
  | cons p rest ih =>
    constructor
    · rintro ⟨hp, hrest⟩
      by_cases hclimb : p = ['.', '.']
      · obtain ⟨hrelative, hall⟩ := hp hclimb
        refine ⟨rest.length + 1, [], ?_, by simp, fun habsolute => by simp [hrelative] at habsolute⟩
        rw [List.nil_append, List.replicate_succ, hclimb, ← List.eq_replicate_of_mem hall]
      · obtain ⟨climbs, names, rfl, hnames, habsolute⟩ := ih.1 hrest
        refine ⟨climbs, p :: names, rfl, fun q hq => ?_, habsolute⟩
        rcases List.mem_cons.1 hq with rfl | hq
        · exact hclimb
        · exact hnames q hq
    · rintro ⟨climbs, names, hsplit, hnames, habsolute⟩
      cases names with
      | nil =>
        rw [List.nil_append] at hsplit
        cases climbs with
        | zero => cases hsplit
        | succ climbs =>
          obtain ⟨rfl, rfl⟩ := List.cons.inj hsplit
          have hrelative : absolute = false := by
            cases absolute with
            | true => exact absurd (habsolute rfl) (by simp)
            | false => rfl
          refine ⟨fun _ => ⟨hrelative, fun q hq => List.eq_of_mem_replicate hq⟩, ih.2 ?_⟩
          exact ⟨climbs, [], rfl, by simp, fun h => by simp [hrelative] at h⟩
      | cons q names =>
        obtain ⟨rfl, rfl⟩ := List.cons.inj hsplit
        refine ⟨fun hclimb => absurd hclimb (hnames p (by simp)), ih.2 ⟨climbs, names, rfl, ?_, habsolute⟩⟩
        exact fun q hq => hnames q (List.mem_cons_of_mem p hq)

/-- What cleaning leaves: some climbs, none for a path from the top, and names. -/
theorem exists_remaining (cs : List Char) :
    ∃ climbs names, remaining cs = List.replicate climbs ['.', '.'] ++ names ∧
      (∀ p ∈ names, IsName p) ∧ (isAbsolute cs = true → climbs = 0) := by
  obtain ⟨climbs, names, hsplit, hnames, habsolute⟩ := kept_iff.1 (kept_remaining cs)
  have hremaining : remaining cs = List.replicate climbs ['.', '.'] ++ names.reverse := by
    rw [← List.reverse_reverse (remaining cs), hsplit, List.reverse_append, List.reverse_replicate]
  refine ⟨climbs, names.reverse, hremaining, fun p hp => ?_, habsolute⟩
  have hsegment : IsSegment p := isSegment_of_mem_remaining (hremaining ▸ List.mem_append_right _ hp)
  exact ⟨hsegment, hnames p (List.mem_reverse.1 hp)⟩

theorem normal_cleanChars (cs : List Char) : Normal (cleanChars cs) := by
  obtain ⟨climbs, names, hsplit, hnames, habsolute⟩ := exists_remaining cs
  have hsegments : ∀ p ∈ remaining cs, IsSegment p := fun p => isSegment_of_mem_remaining
  rw [cleanChars_eq]
  by_cases hnone : remaining cs = []
  · rw [hnone]
    split
    · exact .top
    · exact .here
  · have hpieces := pieces_joinSegments hnone hsegments
    rw [if_neg hnone]
    split
    · next habs =>
      refine .absolute fun p hp => hnames p ?_
      rw [hpieces, hsplit, habsolute habs] at hp
      exact hp
    · exact .relative climbs (hpieces.trans hsplit) hnames

/-- Pieces that are climbs and names below them are all that there is to keep. -/
theorem remaining_of_pieces {cs : List Char} {climbs : Nat} {names : List (List Char)}
    (split : pieces cs = List.replicate climbs ['.', '.'] ++ names) (named : ∀ p ∈ names, IsName p)
    (absolute : Bool) (habsolute : absolute = true → climbs = 0) :
    segments cs = pieces cs ∧ (segments cs).foldl (climb absolute) [] = (pieces cs).reverse := by
  have hsegments : ∀ p ∈ pieces cs, IsSegment p := by
    intro p hp
    rw [split] at hp
    rcases List.mem_append.1 hp with hp | hp
    · rw [List.eq_of_mem_replicate hp]
      exact isSegment_climb
    · exact (named p hp).toIsSegment
  have hkept : Kept absolute (pieces cs).reverse := by
    rw [kept_iff]
    refine ⟨climbs, names.reverse, ?_, fun p hp => (named p (List.mem_reverse.1 hp)).ne_climb, habsolute⟩
    rw [split, List.reverse_append, List.reverse_replicate]
  have hfold := hkept.foldl_reverse
  rw [List.reverse_reverse] at hfold
  have hall : segments cs = pieces cs := filter_isSegment hsegments
  exact ⟨hall, by rw [hall, hfold]⟩

theorem cleanChars_of_normal {cs : List Char} (h : Normal cs) : cleanChars cs = cs := by
  cases h with
  | here => decide
  | top => decide
  | @absolute rest named =>
    have split : pieces rest = List.replicate 0 ['.', '.'] ++ pieces rest := rfl
    obtain ⟨-, hfold⟩ := remaining_of_pieces split named true fun _ => rfl
    have habs : isAbsolute ('/' :: rest) = true := rfl
    rw [cleanChars_eq, if_pos habs, remaining, segments_slash, habs, hfold, List.reverse_reverse,
      joinSegments_pieces]
  | @relative _ names climbs split named =>
    have hrelative : isAbsolute cs = false := by
      have hsegments : ∀ p ∈ pieces cs, IsSegment p := by
        obtain ⟨hall, -⟩ := remaining_of_pieces split named false (fun h => by simp at h)
        exact fun p hp => isSegment_of_mem (hall ▸ hp)
      have := isAbsolute_joinSegments hsegments
      rwa [joinSegments_pieces] at this
    obtain ⟨-, hfold⟩ := remaining_of_pieces split named false (fun h => by simp at h)
    have hremaining : remaining cs = pieces cs := by
      rw [remaining, hrelative, hfold, List.reverse_reverse]
    rw [cleanChars_eq, hrelative, if_neg Bool.false_ne_true, hremaining, if_neg (pieces_ne_nil cs),
      joinSegments_pieces]

/-- Exactly the normal forms are left as they are. -/
theorem clean_eq_self_iff {path : String} : clean path = path ↔ Normal path.toList := by
  rw [clean]
  constructor
  · intro h
    rw [← h, String.toList_ofList]
    exact normal_cleanChars path.toList
  · intro h
    rw [cleanChars_of_normal h, String.ofList_toList]

/-- One segment further: down to a name or up to the folder above. Above the top there is the top. -/
def follow (folder : List (List Char)) (segment : List Char) : List (List Char) :=
  if segment = ['.', '.'] then folder.tail else segment :: folder

/-- The place that a path leads to from a folder. Places are given by their names from the innermost on. -/
def leadsTo (folder : List (List Char)) (cs : List Char) : List (List Char) :=
  (segments cs).foldl follow (if isAbsolute cs then [] else folder)

/-- A climb that takes back a name leads where the climb would have led. -/
theorem foldl_follow_climb {absolute : Bool} {folder : List (List Char)}
    (h : absolute = true → folder = []) (kept : List (List Char)) (p : List Char) :
    (climb absolute kept p).reverse.foldl follow folder = follow (kept.reverse.foldl follow folder) p := by
  have hcons : ∀ kept : List (List Char),
      (p :: kept).reverse.foldl follow folder = follow (kept.reverse.foldl follow folder) p := by
    intro kept
    rw [List.reverse_cons, List.foldl_append]
    rfl
  unfold climb
  by_cases hp : p = ['.', '.']
  · rw [if_pos hp]
    cases kept with
    | nil =>
      dsimp only
      cases absolute with
      | true => simp [h rfl, hp, follow]
      | false => exact hcons []
    | cons last rest =>
      dsimp only
      by_cases hlast : last = ['.', '.']
      · rw [if_pos hlast]
        exact hcons (last :: rest)
      · rw [if_neg hlast, List.reverse_cons, List.foldl_append]
        simp [hp, hlast, follow]
  · rw [if_neg hp]
    exact hcons kept

theorem foldl_follow_foldl_climb {absolute : Bool} {folder : List (List Char)}
    (h : absolute = true → folder = []) (ps kept : List (List Char)) :
    (ps.foldl (climb absolute) kept).reverse.foldl follow folder =
      ps.foldl follow (kept.reverse.foldl follow folder) := by
  induction ps generalizing kept with
  | nil => rfl
  | cons p ps ih => rw [List.foldl_cons, ih, foldl_follow_climb h, List.foldl_cons]

theorem leadsTo_cleanChars (folder : List (List Char)) (cs : List Char) :
    leadsTo folder (cleanChars cs) = leadsTo folder cs := by
  rw [leadsTo, segments_cleanChars, isAbsolute_cleanChars, remaining]
  exact foldl_follow_foldl_climb (fun h => if_pos h) (segments cs) []

theorem foldl_follow_replicate (climbs : Nat) (folder : List (List Char)) :
    (List.replicate climbs ['.', '.']).foldl follow folder = folder.drop climbs := by
  induction climbs generalizing folder with
  | zero => rfl
  | succ climbs ih =>
    rw [List.replicate_succ, List.foldl_cons, ih, follow, if_pos rfl, List.drop_tail]

theorem foldl_follow_names {names : List (List Char)} (named : ∀ p ∈ names, IsName p)
    (folder : List (List Char)) : names.foldl follow folder = names.reverse ++ folder := by
  induction names generalizing folder with
  | nil => rfl
  | cons p names ih =>
    rw [List.foldl_cons, ih fun q hq => named q (List.mem_cons_of_mem p hq), follow,
      if_neg (named p List.mem_cons_self).ne_climb, List.reverse_cons, List.append_assoc,
      List.singleton_append]

theorem leadsTo_eq {cs : List Char} {climbs : Nat} {names : List (List Char)}
    (split : remaining cs = List.replicate climbs ['.', '.'] ++ names) (named : ∀ p ∈ names, IsName p)
    (folder : List (List Char)) :
    leadsTo folder cs = names.reverse ++ (if isAbsolute cs then [] else folder).drop climbs := by
  rw [← leadsTo_cleanChars, leadsTo, segments_cleanChars, isAbsolute_cleanChars, split, List.foldl_append,
    foldl_follow_replicate, foldl_follow_names named]

/-- Paths that lead to the same places have the same segments left: those that go down are told by where
they lead from the top, the climbs by what is left of a folder far below it. -/
theorem remaining_eq_of_leadsTo {cs cs' : List Char} (start : isAbsolute cs = isAbsolute cs')
    (places : ∀ folder, leadsTo folder cs = leadsTo folder cs') : remaining cs = remaining cs' := by
  obtain ⟨climbs, names, hsplit, named, habsolute⟩ := exists_remaining cs
  obtain ⟨climbs', names', hsplit', named', habsolute'⟩ := exists_remaining cs'
  have hplaces : ∀ folder : List (List Char),
      names.reverse ++ (if isAbsolute cs then [] else folder).drop climbs =
        names'.reverse ++ (if isAbsolute cs then [] else folder).drop climbs' := by
    intro folder
    have h := places folder
    rw [leadsTo_eq hsplit named, leadsTo_eq hsplit' named', ← start] at h
    exact h
  have hnames : names = names' := by simpa using hplaces []
  have hclimbs : climbs = climbs' := by
    cases hcs : isAbsolute cs with
    | true => rw [habsolute hcs, habsolute' (start ▸ hcs)]
    | false =>
      have hlength := congrArg List.length (hplaces (List.replicate (climbs + climbs') []))
      simp only [hcs, hnames, Bool.false_eq_true, if_false, List.length_append, List.length_drop,
        List.length_replicate] at hlength
      omega
  rw [hsplit, hsplit', hnames, hclimbs]

/-- Two paths have one normal form exactly if both or neither start at the top and they lead to the same
place from every folder. -/
theorem clean_eq_clean_iff {p q : String} :
    clean p = clean q ↔
      isAbsolute p.toList = isAbsolute q.toList ∧
        ∀ folder, leadsTo folder p.toList = leadsTo folder q.toList := by
  constructor
  · intro h
    have hchars : cleanChars p.toList = cleanChars q.toList := by simpa [clean] using congrArg String.toList h
    refine ⟨?_, fun folder => ?_⟩
    · rw [← isAbsolute_cleanChars, hchars, isAbsolute_cleanChars]
    · rw [← leadsTo_cleanChars, hchars, leadsTo_cleanChars]
  · rintro ⟨hstart, hplaces⟩
    have hremaining := remaining_eq_of_leadsTo hstart hplaces
    rw [clean, clean, cleanChars_eq, cleanChars_eq, hstart, hremaining]

end EditSync.Path
