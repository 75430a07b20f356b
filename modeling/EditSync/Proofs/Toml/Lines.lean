import EditSync.Proofs.Json.Number
import EditSync.Proofs.Toml.Quoted
import EditSync.Toml.Reader

/-! Texts of lines that each give a value to a bare name. Such a text is read line by line, and what it says
of a name is the value that it gives to it. -/

namespace EditSync.Toml

section

variable {p : Char → Bool} {c d : Char} {w : List Char}

theorem ne_of_kinds (hc : p c = true) (hd : p d = false) : c ≠ d := ne_of_apply_ne p (by rw [hc, hd]; decide)

theorem isBlank_of_kind (hspace : p ' ' = false) (htab : p '\t' = false) (hc : p c = true) : isBlank c = false := by
  simp [isBlank, ne_of_kinds hc hspace, ne_of_kinds hc htab]

/-- Characters of a kind go up to the first that is of another. -/
theorem span_kind (hw : ∀ c ∈ w, p c = true) (hd : p d = false) (rest : List Char) :
    (w ++ d :: rest).takeWhile p = w ∧ (w ++ d :: rest).dropWhile p = d :: rest := by
  constructor
  · rw [List.takeWhile_append_of_pos hw, List.takeWhile_cons_of_neg (by simp [hd]), List.append_nil]
  · rw [List.dropWhile_append_of_pos hw, List.dropWhile_cons_of_neg (by simp [hd])]

end

/-- Characters that are read as a value up to the end of their line. -/
structure Means (w : List Char) (v : Value) : Prop where
  skip : ∀ rest, skipBlanks (' ' :: (w ++ '\n' :: rest)) = w ++ '\n' :: rest
  value : ∀ fuel rest, value? (fuel + 1) 0 (w ++ '\n' :: rest) = some (v, '\n' :: rest)

theorem skipBlanks_cons {c : Char} (h : isBlank c = false) (cs : List Char) : skipBlanks (c :: cs) = c :: cs := by
  rw [skipBlanks, List.dropWhile_cons_of_neg (by simp [h])]

theorem skipBlanks_space (cs : List Char) : skipBlanks (' ' :: cs) = skipBlanks cs := by
  rw [skipBlanks, List.dropWhile_cons_of_pos (by decide), skipBlanks]

theorem value?_of_quoted {c : Char} (hc : c = '"' ∨ c = '\'') {cs text rest : List Char}
    (h : readQuoted? (c :: cs) = some (text, rest)) (fuel : Nat) :
    value? (fuel + 1) 0 (c :: cs) = some (.text (.ofList text), rest) := by
  rw [value?]
  · rw [h]
  · rintro rest heq
    rcases hc with rfl | rfl <;> exact absurd (List.cons.inj heq).1 (by decide)
  · rintro rest heq
    rcases hc with rfl | rfl <;> exact absurd (List.cons.inj heq).1 (by decide)

theorem exists_quote (text : String) : ∃ c cs, (quote text).toList = c :: cs ∧ (c = '"' ∨ c = '\'') := by
  obtain ⟨hstyle, -⟩ := written_styleOf text.toList
  rw [quote, String.toList_ofList, writeQuoted]
  rcases hstyle with h | h | h | h <;> rw [h] <;> exact ⟨_, _, rfl, by decide⟩

theorem means_quote (text : String) : Means (quote text).toList (.text text) := by
  obtain ⟨c, cs, hquote, hc⟩ := exists_quote text
  refine ⟨fun rest => ?_, fun fuel rest => ?_⟩
  · rw [skipBlanks_space, hquote]
    exact skipBlanks_cons (by rcases hc with rfl | rfl <;> rfl) _
  · have hread := readQuoted?_quote text rest
    rw [hquote, List.cons_append] at hread ⊢
    rw [value?_of_quoted hc hread, String.ofList_toList]

/-- A scalar ends with its line. -/
theorem takeScalar_line {w : List Char} (hw : ∀ c ∈ w, isScalarChar c = true) (rest : List Char) :
    takeScalar (w ++ '\n' :: rest) = (w, '\n' :: rest) := by
  obtain ⟨htake, hdrop⟩ := span_kind hw (by decide : isScalarChar '\n' = false) rest
  rw [takeScalar, htake, hdrop]
  cases date? w with
  | none => rfl
  | some left => cases left <;> rfl

theorem value?_of_scalar {w : List Char} (hne : w ≠ []) (hw : ∀ c ∈ w, isScalarChar c = true)
    (fuel : Nat) (rest : List Char) :
    value? (fuel + 1) 0 (w ++ '\n' :: rest) = (scalarValue? w).map (·, '\n' :: rest) := by
  obtain ⟨c, cs, rfl⟩ := List.exists_cons_of_ne_nil hne
  have hother {d : Char} : isScalarChar d = false → c ≠ d := ne_of_kinds (hw c List.mem_cons_self)
  have hquoted : readQuoted? (c :: (cs ++ '\n' :: rest)) = none := by
    have hfirst (s : Style) (hs : s.delimiter.head? ≠ some c) :
        (c :: (cs ++ '\n' :: rest)).take 3 ≠ s.delimiter := fun htake => hs (by rw [← htake]; rfl)
    have hbasic : Style.basicLines.delimiter.head? = some '"' := rfl
    have hliteral : Style.literalLines.delimiter.head? = some '\'' := rfl
    rw [readQuoted?, if_neg (hfirst _ fun h => hother (by decide) (Option.some.inj (h.symm.trans hbasic))),
      if_neg (hfirst _ fun h => hother (by decide) (Option.some.inj (h.symm.trans hliteral))), readOneLine?,
      if_neg (hother (by decide)), if_neg (hother (by decide))]
  rw [List.cons_append, value?]
  · have htake := takeScalar_line hw rest
    rw [List.cons_append] at htake
    rw [hquoted, htake]
  · exact fun _ heq => hother (by decide) (List.cons.inj heq).1
  · exact fun _ heq => hother (by decide) (List.cons.inj heq).1

theorem means_of_scalar {w : List Char} {v : Value} (hne : w ≠ []) (hw : ∀ c ∈ w, isScalarChar c = true)
    (h : scalarValue? w = some v) : Means w v where
  skip rest := by
    obtain ⟨c, cs, rfl⟩ := List.exists_cons_of_ne_nil hne
    rw [skipBlanks_space]
    exact skipBlanks_cons (isBlank_of_kind (by decide) (by decide) (hw c List.mem_cons_self)) _
  value fuel rest := by rw [value?_of_scalar hne hw, h, Option.map_some]

theorem means_truth (b : Bool) : Means (if b then "true" else "false").toList (.truth b) := by
  cases b with
  | true => exact means_of_scalar (by decide) (List.all_eq_true.1 rfl) rfl
  | false => exact means_of_scalar (by decide) (List.all_eq_true.1 rfl) rfl

theorem digits?_eq_self {cs : List Char} (hne : cs ≠ []) (h : ∀ c ∈ cs, c.isDigit = true) :
    digits? Char.isDigit cs = some cs := by
  induction cs with
  | nil => exact absurd rfl hne
  | cons c cs ih =>
    rw [List.forall_mem_cons] at h
    cases cs with
    | nil => simp [digits?, h.1]
    | cons d ds =>
      have hd : d ≠ '_' := by
        rintro rfl
        exact absurd (h.2 _ List.mem_cons_self) (by decide)
      rw [digits?]
      · rw [if_pos h.1, ih (List.cons_ne_nil d ds) h.2]
        rfl
      · exact List.cons_ne_nil d ds
      · exact fun _ heq => hd (List.cons.inj heq).1

theorem wholeDigits?_toDigits (n : Nat) : wholeDigits? (Nat.toDigits 10 n) = some (Nat.toDigits 10 n) := by
  have hproper := Json.toDigits_proper n
  rw [not_or, not_and_or] at hproper
  rw [wholeDigits?, digits?_eq_self Nat.toDigits_ne_nil fun _ => Json.isDigit_of_mem_toDigits,
    Option.filter_some, if_pos]
  rcases hproper.2 with hhead | hzero
  · simp [hhead]
  · rw [not_not.1 hzero]
    rfl

/-- Only digits are no number to another base and have no sign. -/
theorem integer?_toDigits {n : Nat} (h : n < Nat.pow 2 128) : integer? (Nat.toDigits 10 n) = some (n : Int) := by
  have hall : ∀ d ∈ Nat.toDigits 10 n, d.isDigit = true := fun d => Json.isDigit_of_mem_toDigits
  have hletter {c d : Char} {cs : List Char} (hd : d.isDigit = false) : Nat.toDigits 10 n ≠ c :: d :: cs := by
    intro heq
    have := hall d (by simp [heq])
    rw [hd] at this
    cases this
  have hsigned : signed (Nat.toDigits 10 n) = (false, Nat.toDigits 10 n) := by
    obtain ⟨c, cs, hdigits⟩ := Json.exists_toDigits n
    have hc : c.isDigit = true := hall c (by simp [hdigits])
    rw [hdigits, signed]
    · rintro rest heq
      rw [(List.cons.inj heq).1] at hc
      exact absurd hc (by decide)
    · rintro rest heq
      rw [(List.cons.inj heq).1] at hc
      exact absurd hc (by decide)
  have hfits : fitsInteger n = true := by
    simp only [fitsInteger, Bool.and_eq_true, decide_eq_true_eq]
    omega
  unfold integer?
  dsimp only
  split
  · next heq => exact absurd heq (hletter (by decide))
  · next heq => exact absurd heq (hletter (by decide))
  · next heq => exact absurd heq (hletter (by decide))
  · rw [hsigned]
    dsimp only
    rw [wholeDigits?_toDigits, Option.map_some, Json.ofDigits_toDigits, if_neg Bool.false_ne_true,
      Option.filter_some, if_pos hfits]

theorem means_toDigits (n : UInt64) : Means (Nat.toDigits 10 n.toNat) (.integer n.toNat) := by
  have hall : ∀ c ∈ Nat.toDigits 10 n.toNat, c.isDigit = true := fun c => Json.isDigit_of_mem_toDigits
  have hsize : n.toNat < Nat.pow 2 128 := Nat.lt_trans n.toNat_lt (by decide)
  refine means_of_scalar Nat.toDigits_ne_nil (fun c hc => ?_) ?_
  · simp [isScalarChar, Char.isAlphanum, hall c hc]
  · have hword {w : List Char} (hw : w.any Char.isDigit = false) (hne : w ≠ []) :
        Nat.toDigits 10 n.toNat ≠ w := by
      obtain ⟨c, cs, rfl⟩ := List.exists_cons_of_ne_nil hne
      intro heq
      have hc := hall c (by simp [heq])
      rw [List.any_cons, hc] at hw
      cases hw
    rw [scalarValue?, if_neg (hword (by decide) (by decide)), if_neg (hword (by decide) (by decide)),
      integer?_toDigits hsize]

def IsBare (name : String) : Prop := name.toList ≠ [] ∧ name.toList.all isBareChar = true

instance (name : String) : Decidable (IsBare name) := inferInstanceAs (Decidable (_ ∧ _))

theorem IsBare.chars {name : String} (h : IsBare name) : ∀ c ∈ name.toList, isBareChar c = true :=
  List.all_eq_true.1 h.2

theorem IsBare.exists_cons {name : String} (h : IsBare name) :
    ∃ c cs, name.toList = c :: cs ∧ isBareChar c = true := by
  obtain ⟨c, cs, hname⟩ := List.exists_cons_of_ne_nil h.1
  exact ⟨c, cs, hname, h.chars c (by simp [hname])⟩

/-- A line of a text: a name, and how the value is written that is given to it. -/
structure Entry where
  name : String
  text : String
  value : Value

namespace Entry

def line (e : Entry) : List Char := e.name.toList ++ ' ' :: '=' :: ' ' :: (e.text.toList ++ ['\n'])

structure Sound (e : Entry) : Prop where
  bare : IsBare e.name
  means : Means e.text.toList e.value

end Entry

theorem isBlank_of_isBareChar {c : Char} (h : isBareChar c = true) : isBlank c = false :=
  isBlank_of_kind (by decide) (by decide) h

theorem simpleName?_bare {name : List Char} (hne : name ≠ []) (hbare : ∀ c ∈ name, isBareChar c = true)
    (rest : List Char) : simpleName? (name ++ ' ' :: rest) = some (.ofList name, ' ' :: rest) := by
  obtain ⟨htake, hdrop⟩ := span_kind hbare (by decide : isBareChar ' ' = false) rest
  rw [simpleName?, htake, hdrop, if_pos hne]

theorem name?_bare {name : List Char} (hne : name ≠ []) (hbare : ∀ c ∈ name, isBareChar c = true)
    (rest : List Char) :
    name? (name ++ ' ' :: '=' :: rest) = some ([], .ofList name, '=' :: rest) := by
  obtain ⟨c, cs, rfl⟩ := List.exists_cons_of_ne_nil hne
  have hskip : skipBlanks (' ' :: '=' :: rest) = '=' :: rest := rfl
  rw [name?, List.cons_append, List.length_cons, nameWith?,
    skipBlanks_cons (isBlank_of_isBareChar (hbare c List.mem_cons_self)), ← List.cons_append,
    simpleName?_bare (List.cons_ne_nil c cs) hbare]
  simp only [Option.bind_eq_bind, Option.bind_some, hskip]
  rfl

theorem finishLine?_bare {c : Char} (h : isBareChar c = true) (cs : List Char) : finishLine? (c :: cs) = none := by
  have hother {d : Char} : isBareChar d = false → c ≠ d := ne_of_kinds h
  rw [finishLine?, skipBlanks_cons (isBlank_of_isBareChar h), skipComment, lineEnd?]
  · exact List.cons_ne_nil c cs
  · exact fun _ heq => hother (by decide) (List.cons.inj heq).1
  · exact fun _ heq => hother (by decide) (List.cons.inj heq).1
  · exact fun _ heq => hother (by decide) (List.cons.inj heq).1

/-- A line gives its value to its name. -/
theorem line?_line {e : Entry} (he : e.Sound) (d : Document) (rest : List Char) :
    line? d (e.line ++ rest) = (d.insert [] e.name e.value).map (·, rest) := by
  obtain ⟨c, cs, hname, hc⟩ := he.bare.exists_cons
  have hother {d : Char} : isBareChar d = false → c ≠ d := ne_of_kinds hc
  have hline : e.line ++ rest = c :: (cs ++ ' ' :: '=' :: ' ' :: (e.text.toList ++ '\n' :: rest)) := by
    simp [Entry.line, hname]
  have hnamed : name? (c :: (cs ++ ' ' :: '=' :: ' ' :: (e.text.toList ++ '\n' :: rest))) =
      some ([], e.name, '=' :: ' ' :: (e.text.toList ++ '\n' :: rest)) := by
    have := name?_bare he.bare.1 he.bare.chars (' ' :: (e.text.toList ++ '\n' :: rest))
    rwa [String.ofList_toList, hname, List.cons_append] at this
  have hskip := he.means.skip rest
  rw [hline, line?, skipBlanks_cons (isBlank_of_isBareChar hc)]
  split
  · next heq => exact absurd (List.cons.inj heq).1 (hother (by decide))
  · next heq => exact absurd (List.cons.inj heq).1 (hother (by decide))
  · rw [finishLine?_bare hc, hnamed]
    simp only [Option.bind_eq_bind, Option.bind_some, hskip, he.means.value]
    cases d.insert [] e.name e.value <;> rfl

/-- A name that is new outside all tables gets its value there. -/
theorem insert_new {d : Document} (hhere : d.here = []) {name : String} (hnew : d.value? name = none) (v : Value) :
    ∃ d', d.insert [] name v = some d' ∧ d'.here = [] ∧
      ∀ j, d'.value? j = if j = name then some v else d.value? j := by
  have hlookup : d.root.lookup name = none := by simpa [Document.value?] using hnew
  refine ⟨{ d with root := assign name (.value v) d.root }, ?_, hhere, fun j => ?_⟩
  · simp [Document.insert, hhere, Members.modifyAt, Members.insert, Members.add, hlookup]
  · rw [Document.value?, lookup_assign]
    split <;> rfl

def said (es : List Entry) (name : String) : Option Value := (es.map fun e => (e.name, e.value)).lookup name

theorem said_nil (name : String) : said [] name = none := rfl

theorem said_cons (e : Entry) (es : List Entry) (name : String) :
    said (e :: es) name = if name = e.name then some e.value else said es name := by
  rw [said, List.map_cons, List.lookup_cons]
  by_cases h : name = e.name
  · rw [if_pos h, h, beq_self_eq_true]
  · rw [if_neg h, beq_false_of_ne h]
    rfl

theorem said_eq_none {es : List Entry} {name : String} (h : name ∉ es.map Entry.name) : said es name = none := by
  induction es with
  | nil => rfl
  | cons e es ih =>
    rw [List.map_cons, List.mem_cons, not_or] at h
    rw [said_cons, if_neg h.1, ih h.2]

/-- Lines with names of their own add what they say. -/
theorem lines?_flatMap {es : List Entry} (hsound : ∀ e ∈ es, e.Sound) (hnames : (es.map Entry.name).Nodup)
    {d : Document} (hhere : d.here = []) (hnew : ∀ e ∈ es, d.value? e.name = none) {fuel : Nat}
    (hfuel : es.length ≤ fuel) :
    ∃ d', lines? fuel d (es.flatMap Entry.line) = some d' ∧
      ∀ name, d'.value? name = (said es name).or (d.value? name) := by
  induction es generalizing d fuel with
  | nil => exact ⟨d, by rw [List.flatMap_nil, lines?], fun _ => rfl⟩
  | cons e es ih =>
    rw [List.forall_mem_cons] at hsound hnew
    rw [List.map_cons, List.nodup_cons] at hnames
    obtain ⟨fuel, rfl⟩ := Nat.exists_eq_add_of_lt hfuel
    obtain ⟨d₁, hinsert, hhere₁, hvalue₁⟩ := insert_new hhere hnew.1 e.value
    have hnew₁ : ∀ e' ∈ es, d₁.value? e'.name = none := by
      intro e' he'
      have hother : e'.name ≠ e.name := fun heq => hnames.1 (heq ▸ List.mem_map_of_mem he')
      rw [hvalue₁, if_neg hother, hnew.2 e' he']
    obtain ⟨d', hlines, hvalue⟩ := ih hsound.2 hnames.2 hhere₁ hnew₁ (Nat.le_add_right es.length fuel)
    refine ⟨d', ?_, fun name => ?_⟩
    · rw [List.flatMap_cons, lines?]
      · rw [line?_line hsound.1, hinsert]
        exact hlines
      · simp [Entry.line]
    · rw [hvalue, hvalue₁, said_cons]
      by_cases h : name = e.name
      · rw [if_pos h, if_pos h, h, said_eq_none hnames.1]
        rfl
      · rw [if_neg h, if_neg h]

theorem length_le_flatMap_line (es : List Entry) : es.length ≤ (es.flatMap Entry.line).length := by
  induction es with
  | nil => exact Nat.le_refl 0
  | cons e es ih =>
    have hline : 1 ≤ e.line.length := by
      rw [Entry.line, List.length_append, List.length_cons]
      omega
    rw [List.flatMap_cons, List.length_append, List.length_cons]
    omega

/-- A text of lines with names of their own says what they say. -/
theorem parse?_of_lines {text : String} {es : List Entry} (htext : text.toList = es.flatMap Entry.line)
    (hsound : ∀ e ∈ es, e.Sound) (hnames : (es.map Entry.name).Nodup) :
    ∃ d, parse? text = some d ∧ d.value? = said es := by
  obtain ⟨d, hlines, hvalue⟩ := lines?_flatMap hsound hnames (d := {}) rfl (fun _ _ => rfl)
    (length_le_flatMap_line es)
  have hmark : (es.flatMap Entry.line).head? ≠ some byteOrderMark := by
    cases es with
    | nil => nofun
    | cons e es =>
      obtain ⟨c, cs, hname, hc⟩ := (hsound e List.mem_cons_self).bare.exists_cons
      rw [List.flatMap_cons, Entry.line, hname]
      exact fun hfirst => ne_of_kinds hc (by decide) (Option.some.inj hfirst)
  refine ⟨d, ?_, funext fun name => (hvalue name).trans Option.or_none⟩
  simp only [parse?, htext, if_neg hmark, hlines]

end EditSync.Toml
