import EditSync.Proofs.Frame.Lines

/-! The grammar of a header, said of its lines. Blanks at both ends of a line go, and what begins with the
name of the length counts, however often and between whatever other lines. The first such line whose rest
spells no number is an error; if there is none, the last one decides how many octets the body has. -/

namespace EditSync.Frame

open Text

/-- Decimal digits, with or without a plus sign, that come to a number of 64 bits. -/
def Spells (text : List Char) (n : UInt64) : Prop :=
  ∃ ds, ds ≠ [] ∧ (∀ c ∈ ds, c.isDigit = true) ∧ (text = ds ∨ text = '+' :: ds) ∧
    Nat.ofDigitChars 10 ds 0 = n.toNat

theorem lengthDigit_eq_ok {n m : UInt64} {c : Char} (h : lengthDigit n c = .ok m) : c.isDigit = true := by
  rw [lengthDigit] at h
  split at h
  · next hdigit => exact hdigit
  · cases h

theorem isDigit_of_foldlM_lengthDigit {cs : List Char} {n m : UInt64} (h : cs.foldlM lengthDigit n = .ok m) :
    ∀ c ∈ cs, c.isDigit = true := by
  induction cs generalizing n with
  | nil => exact fun c hc => absurd hc List.not_mem_nil
  | cons c cs ih =>
    rw [List.foldlM_cons] at h
    cases hdigit : lengthDigit n c with
    | error e =>
      rw [hdigit] at h
      cases h
    | ok next =>
      rw [hdigit] at h
      intro d hd
      rcases List.mem_cons.1 hd with rfl | hd
      · exact lengthDigit_eq_ok hdigit
      · exact ih h d hd

/-- Digits are read as what they spell, and nothing else is read. -/
theorem foldlM_lengthDigit_eq_ok {cs : List Char} {n : UInt64} :
    cs.foldlM lengthDigit 0 = .ok n ↔ (∀ c ∈ cs, c.isDigit = true) ∧ Nat.ofDigitChars 10 cs 0 = n.toNat := by
  by_cases hdigits : ∀ c ∈ cs, c.isDigit = true
  · rw [foldlM_lengthDigit hdigits, UInt64.toNat_zero, and_iff_right hdigits]
    split
    · next hfits =>
      rw [Except.ok.injEq, ← UInt64.toNat_inj, UInt64.toNat_ofNat_of_lt' hfits]
    · next hlarge => exact iff_of_false (by simp) fun h => hlarge (h ▸ n.toNat_lt)
  · exact iff_of_false (fun h => hdigits (isDigit_of_foldlM_lengthDigit h)) fun h => hdigits h.1

theorem parseLength_eq_ok_iff {text : List Char} {n : UInt64} : parseLength text = .ok n ↔ Spells text n := by
  unfold parseLength Spells
  split
  · exact iff_of_false (by simp) fun ⟨ds, hne, _, htext, _⟩ => by simp_all
  · refine iff_of_false (by simp) fun ⟨ds, hne, hdigits, htext, _⟩ => ?_
    rcases htext with rfl | htext
    · exact absurd (hdigits '+' List.mem_cons_self) (by decide)
    · exact hne (List.cons.inj htext).2.symm
  · next ds hds =>
    rw [foldlM_lengthDigit_eq_ok]
    constructor
    · rintro ⟨hdigits, hvalue⟩
      exact ⟨ds, fun hnil => hds (by rw [hnil]), hdigits, Or.inr rfl, hvalue⟩
    · rintro ⟨ds', _, hdigits, rfl | htext, hvalue⟩
      · exact absurd (hdigits '+' List.mem_cons_self) (by decide)
      · obtain rfl := (List.cons.inj htext).2
        exact ⟨hdigits, hvalue⟩
  · next hnil _ hplus =>
    rw [foldlM_lengthDigit_eq_ok]
    constructor
    · rintro ⟨hdigits, hvalue⟩
      exact ⟨text, hnil, hdigits, Or.inl rfl, hvalue⟩
    · rintro ⟨ds, _, hdigits, rfl | rfl, hvalue⟩
      · exact ⟨hdigits, hvalue⟩
      · exact absurd rfl (hplus ds)

/-- A line that begins with the name of the length, and what it writes behind that. Blanks around either do
not count. -/
def Writes (line text : List Char) : Prop := ∃ rest, trim line = lengthName ++ rest ∧ text = trim rest

def NamesLength (line : List Char) : Prop := ∃ text, Writes line text

def SaysLength (line : List Char) (n : UInt64) : Prop := ∃ text, Writes line text ∧ Spells text n

/-- The line should say a length and does not. -/
def Illegible (line : List Char) : Prop := ∃ text, Writes line text ∧ ∀ n, ¬ Spells text n

theorem Line.ofChars_of_writes {line text : List Char} (h : Writes line text) :
    Line.ofChars line =
      match parseLength text with
      | .ok n => .ok (.contentLength n)
      | .error e => .error (malformed s!"invalid Content-Length: {e.message}") := by
  obtain ⟨rest, hline, rfl⟩ := h
  have hprefix : lengthName.isPrefixOf (lengthName ++ rest) = true :=
    List.isPrefixOf_iff_prefix.2 (List.prefix_append _ _)
  have hne : lengthName ++ rest ≠ [] := List.append_ne_nil_of_left_ne_nil (List.cons_ne_nil _ _) rest
  cases hlength : parseLength (trim rest) with
  | ok n => simp [Line.ofChars, hline, hprefix, hne, hlength]
  | error e => simp [Line.ofChars, hline, hprefix, hne, hlength]

theorem Line.ofChars_of_says {line : List Char} {n : UInt64} (h : SaysLength line n) :
    Line.ofChars line = .ok (.contentLength n) := by
  obtain ⟨text, hwrites, hspells⟩ := h
  rw [Line.ofChars_of_writes hwrites, parseLength_eq_ok_iff.2 hspells]

theorem Line.ofChars_of_illegible {line : List Char} (h : Illegible line) :
    ∃ fault : LengthFault,
      Line.ofChars line = .error (malformed s!"invalid Content-Length: {fault.message}") := by
  obtain ⟨text, hwrites, hunspelled⟩ := h
  cases hparse : parseLength text with
  | ok n => exact absurd (parseLength_eq_ok_iff.1 hparse) (hunspelled n)
  | error fault => exact ⟨fault, by rw [Line.ofChars_of_writes hwrites, hparse]⟩

theorem Line.ofChars_of_blank {line : List Char} (h : trim line = []) : Line.ofChars line = .ok .blank := by
  simp only [Line.ofChars, h, if_true]

theorem Line.ofChars_of_not_names {line : List Char} (h : ¬ NamesLength line) (hblank : trim line ≠ []) :
    Line.ofChars line = .ok .other := by
  have hprefix : ¬ lengthName.isPrefixOf (trim line) = true := fun hprefix => by
    obtain ⟨rest, hrest⟩ := List.isPrefixOf_iff_prefix.1 hprefix
    exact h ⟨trim rest, rest, hrest.symm, rfl⟩
  simp only [Line.ofChars, if_neg hblank, if_neg hprefix]

/-- A line that names the length says one if it is legible. -/
theorem says_or_not_names {line : List Char} (h : ¬ Illegible line) :
    ¬ NamesLength line ∨ ∃ n, SaysLength line n := by
  by_cases hnames : NamesLength line
  · obtain ⟨text, hwrites⟩ := hnames
    by_cases hspells : ∃ n, Spells text n
    · obtain ⟨n, hn⟩ := hspells
      exact Or.inr ⟨n, text, hwrites, hn⟩
    · exact absurd ⟨text, hwrites, fun n hn => hspells ⟨n, hn⟩⟩ h
  · exact Or.inl hnames

theorem namesLength_iff {line : List Char} : NamesLength line ↔ lengthName <+: trim line :=
  ⟨fun ⟨_, rest, hrest, _⟩ => ⟨rest, hrest.symm⟩, fun ⟨rest, hrest⟩ => ⟨trim rest, rest, hrest.symm, rfl⟩⟩

theorem illegible_iff {line : List Char} : Illegible line ↔ (Line.ofChars line).isOk = false := by
  constructor
  · intro h
    obtain ⟨fault, hfault⟩ := Line.ofChars_of_illegible h
    rw [hfault]
    rfl
  · intro h
    by_contra hlegible
    have hok : ∃ said, Line.ofChars line = .ok said := by
      by_cases hblank : trim line = []
      · exact ⟨_, Line.ofChars_of_blank hblank⟩
      · rcases says_or_not_names hlegible with hsilent | ⟨n, hn⟩
        · exact ⟨_, Line.ofChars_of_not_names hsilent hblank⟩
        · exact ⟨_, Line.ofChars_of_says hn⟩
    obtain ⟨said, hsaid⟩ := hok
    rw [hsaid] at h
    cases h

instance : DecidablePred NamesLength := fun _ => decidable_of_iff _ namesLength_iff.symm

instance : DecidablePred Illegible := fun _ => decidable_of_iff _ illegible_iff.symm

def lineOctets (line : List Char) : List UInt8 := Utf8.encode line ++ [10]

/-- A line that belongs to a header and does not end it. -/
def HeaderLine (line : List Char) : Prop := '\n' ∉ line ∧ trim line ≠ []

def BlankLine (line : List Char) : Prop := '\n' ∉ line ∧ trim line = []

instance : DecidablePred HeaderLine := fun _ => inferInstanceAs (Decidable (_ ∧ _))

instance : DecidablePred BlankLine := fun _ => inferInstanceAs (Decidable (_ ∧ _))

section

variable (started : Bool) (length : Option UInt64) (rest : List UInt8)

theorem readLines_line {line : List Char} (h : '\n' ∉ line) :
    readLines started length (lineOctets line ++ rest) =
      match Line.ofChars line with
      | .error e => (.error e, rest)
      | .ok .blank => (.ok (some length), rest)
      | .ok (.contentLength n) => readLines true (some n) rest
      | .ok .other => readLines true length rest := by
  have hread := readLines_of_ne_nil started length (show Utf8.encode line ++ 10 :: rest ≠ [] by simp)
  rw [splitLine_append (newline_notMem_encode h), Line.ofBytes_encode] at hread
  rw [lineOctets, List.append_assoc, List.singleton_append]
  exact hread

/-- Lines that do not name the length do not change it. -/
theorem readLines_of_not_names {lines : List (List Char)} (hlines : ∀ line ∈ lines, HeaderLine line)
    (h : ∀ line ∈ lines, ¬ NamesLength line) :
    ∃ started', readLines started length (lines.flatMap lineOctets ++ rest) =
      readLines started' length rest := by
  induction lines generalizing started with
  | nil => exact ⟨started, rfl⟩
  | cons line lines ih =>
    rw [List.forall_mem_cons] at hlines h
    obtain ⟨started', hrest⟩ := ih true hlines.2 h.2
    refine ⟨started', ?_⟩
    rw [List.flatMap_cons, List.append_assoc, readLines_line _ _ _ hlines.1.1,
      Line.ofChars_of_not_names h.1 hlines.1.2]
    exact hrest

/-- Legible lines are read, whatever length they leave. -/
theorem readLines_of_legible {lines : List (List Char)} (hlines : ∀ line ∈ lines, HeaderLine line)
    (h : ∀ line ∈ lines, ¬ Illegible line) :
    ∃ started' length', readLines started length (lines.flatMap lineOctets ++ rest) =
      readLines started' length' rest := by
  induction lines generalizing started length with
  | nil => exact ⟨started, length, rfl⟩
  | cons line lines ih =>
    rw [List.forall_mem_cons] at hlines h
    rw [List.flatMap_cons, List.append_assoc, readLines_line _ _ _ hlines.1.1]
    rcases says_or_not_names h.1 with hsilent | ⟨n, hn⟩
    · rw [Line.ofChars_of_not_names hsilent hlines.1.2]
      exact ih true length hlines.2 h.2
    · rw [Line.ofChars_of_says hn]
      exact ih true (some n) hlines.2 h.2

/-- The line that says the length last decides it. -/
theorem readLines_of_last {before after : List (List Char)} {line : List Char} {n : UInt64}
    (hlines : ∀ l ∈ before ++ line :: after, HeaderLine l) (hbefore : ∀ l ∈ before, ¬ Illegible l)
    (hn : SaysLength line n) (hafter : ∀ l ∈ after, ¬ NamesLength l) :
    ∃ started', readLines started length ((before ++ line :: after).flatMap lineOctets ++ rest) =
      readLines started' (some n) rest := by
  rw [List.forall_mem_append, List.forall_mem_cons] at hlines
  obtain ⟨started₁, length₁, hread⟩ := readLines_of_legible started length
    ((line :: after).flatMap lineOctets ++ rest) hlines.1 hbefore
  obtain ⟨started₂, hlast⟩ := readLines_of_not_names true (some n) rest hlines.2.2 hafter
  refine ⟨started₂, ?_⟩
  rw [List.flatMap_append, List.append_assoc, hread, List.flatMap_cons, List.append_assoc,
    readLines_line _ _ _ hlines.2.1.1, Line.ofChars_of_says hn]
  exact hlast

/-- The first line that is not legible ends the reading right behind it. -/
theorem readLines_of_illegible {before : List (List Char)} {line : List Char}
    (hlines : ∀ l ∈ before ++ [line], HeaderLine l) (hbefore : ∀ l ∈ before, ¬ Illegible l)
    (hline : Illegible line) :
    ∃ fault : LengthFault, readLines started length ((before ++ [line]).flatMap lineOctets ++ rest) =
      (.error (malformed s!"invalid Content-Length: {fault.message}"), rest) := by
  rw [List.forall_mem_append, List.forall_mem_singleton] at hlines
  obtain ⟨started', length', hread⟩ := readLines_of_legible started length
    (lineOctets line ++ rest) hlines.1 hbefore
  obtain ⟨fault, hfault⟩ := Line.ofChars_of_illegible hline
  refine ⟨fault, ?_⟩
  rw [List.flatMap_append, List.flatMap_singleton, List.append_assoc, hread,
    readLines_line _ _ _ hlines.2.1, hfault]

theorem readLines_blank {blank : List Char} (h : BlankLine blank) :
    readLines started length (lineOctets blank ++ rest) = (.ok (some length), rest) := by
  rw [readLines_line _ _ _ h.1, Line.ofChars_of_blank h.2]

end

/-- Only where a stream ends before its first line there is no header. -/
theorem readLines_eq_none_iff {started : Bool} {length : Option UInt64} {bs : List UInt8} :
    (readLines started length bs).1 = .ok none ↔ started = false ∧ bs = [] := by
  fun_induction readLines started length bs with
  | case1 started => cases started <;> simp
  | case2 started length b bs split e hline => simp
  | case3 started length b bs split hline => simp
  | case4 started length b bs split n hline ih => simp [ih]
  | case5 started length b bs split hline ih => simp [ih]

theorem takeFrame_eq_none_iff {bs : List UInt8} : (takeFrame bs).1 = .ok none ↔ bs = [] := by
  have hnone : (readLines false none bs).1 = .ok none ↔ bs = [] := by
    rw [readLines_eq_none_iff, and_iff_right rfl]
  rw [← hnone, takeFrame]
  rcases readLines false none bs with ⟨_ | _ | _ | n, rest⟩
  · simp
  · simp
  · simp
  · dsimp only
    cases (takeBody n rest).1 <;> simp [Except.map]

def headerOctets (lines : List (List Char)) (blank : List Char) : List UInt8 :=
  lines.flatMap lineOctets ++ lineOctets blank

/-- Whatever lines a header has, and whatever follows it: a frame is refused at the first line that names the
length and spells none; else the line that says the length last decides. A body that is too long is refused
before any of it is taken, and one that is cut short is an error; any other is taken as it is, to its last
octet and no further. No length at all is an error. Only a stream without any octet has ended. What is taken
is what reading comes to. -/
theorem header_decides (lines : List (List Char)) (blank : List Char) (more : List UInt8)
    (hlines : ∀ line ∈ lines, HeaderLine line) (hblank : BlankLine blank) :
    (∀ before line after, lines = before ++ line :: after → (∀ l ∈ before, ¬ Illegible l) → Illegible line →
        ∃ fault : LengthFault, takeFrame (headerOctets lines blank ++ more) =
          (.error (malformed s!"invalid Content-Length: {fault.message}"), headerOctets after blank ++ more)) ∧
      ((∀ line ∈ lines, ¬ Illegible line) →
        (∀ before line after n, lines = before ++ line :: after → SaysLength line n →
            (∀ l ∈ after, ¬ NamesLength l) →
          takeFrame (headerOctets lines blank ++ more) =
            if maxBody < n then (.error (malformed s!"Content-Length {n} exceeds {maxBody} bytes"), more)
            else if more.length < n.toNat then (.error (.io .unexpectedEnd), [])
            else ((decodeBody (more.take n.toNat)).map some, more.drop n.toNat)) ∧
        ((∀ line ∈ lines, ¬ NamesLength line) →
          takeFrame (headerOctets lines blank ++ more) =
            (.error (malformed "missing Content-Length header"), more))) ∧
      (∀ bs, (takeFrame bs).1 = .ok none ↔ bs = []) ∧
      ∀ bs, read true bs = .ofTaken (takeFrame bs) := by
  refine ⟨?_, fun hlegible => ⟨?_, ?_⟩, fun bs => takeFrame_eq_none_iff, read_eq_ofTaken⟩
  · rintro before line after rfl hbefore hline
    have hsplit : headerOctets (before ++ line :: after) blank ++ more =
        (before ++ [line]).flatMap lineOctets ++ (headerOctets after blank ++ more) := by
      simp [headerOctets]
    obtain ⟨fault, hread⟩ := readLines_of_illegible false none (headerOctets after blank ++ more)
      (fun l hl => hlines l (by simp at hl ⊢; tauto)) hbefore hline
    exact ⟨fault, by rw [takeFrame, hsplit, hread]⟩
  · rintro before line after n rfl hn hafter
    obtain ⟨started, hread⟩ := readLines_of_last false none (lineOctets blank ++ more) hlines
      (fun l hl => hlegible l (List.mem_append_left _ hl)) hn hafter
    rw [takeFrame, headerOctets, List.append_assoc, hread, readLines_blank _ _ _ hblank]
    dsimp only
    rw [takeBody]
    split
    · rfl
    · split <;> rfl
  · intro hsilent
    obtain ⟨started, hread⟩ := readLines_of_not_names false none (lineOctets blank ++ more) hlines hsilent
    rw [takeFrame, headerOctets, List.append_assoc, hread, readLines_blank _ _ _ hblank]

def repeated : List (List Char) :=
  ["Content-Type: json".toList, "\tContent-Length: 9 ".toList, "Content-Length:+2\r".toList,
    "X-Content-Length: 7".toList]

def negative : List (List Char) :=
  ["Content-Length: 9".toList, "Content-Length: -1".toList, "Content-Length: 2".toList]

/-- Of two lengths the later one counts, and what is behind its body is left; a length that is none counts
wherever it stands. -/
theorem header_decides_repeated :
    (∀ line ∈ repeated ++ negative, HeaderLine line) ∧ BlankLine ['\r'] ∧
      takeFrame (headerOctets repeated ['\r'] ++ Utf8.encode "[]more".toList) =
        (.ok (some (.arr [])), Utf8.encode "more".toList) ∧
      ∃ fault : LengthFault, takeFrame (headerOctets negative ['\r'] ++ Utf8.encode "[]".toList) =
        (.error (malformed s!"invalid Content-Length: {fault.message}"),
          headerOctets (negative.drop 2) ['\r'] ++ Utf8.encode "[]".toList) := by
  have hheader : ∀ line ∈ repeated ++ negative, HeaderLine line := by decide +kernel
  have hblank : BlankLine ['\r'] := by decide
  have hrepeated := header_decides repeated ['\r'] (Utf8.encode "[]more".toList)
    (fun line hline => hheader line (List.mem_append_left _ hline)) hblank
  have hnegative := header_decides negative ['\r'] (Utf8.encode "[]".toList)
    (fun line hline => hheader line (List.mem_append_right _ hline)) hblank
  have htwo : SaysLength "Content-Length:+2\r".toList 2 :=
    ⟨_, ⟨_, rfl, rfl⟩, parseLength_eq_ok_iff.1 rfl⟩
  refine ⟨hheader, hblank, ?_, ?_⟩
  · rw [(hrepeated.2.1 (by decide +kernel)).1 (repeated.take 2) _ (repeated.drop 3) 2 rfl htwo
      (by decide +kernel)]
    rfl
  · exact hnegative.1 (negative.take 1) _ (negative.drop 2) rfl (by decide +kernel) (by decide +kernel)

end EditSync.Frame
