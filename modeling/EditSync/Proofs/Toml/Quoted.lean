import EditSync.Toml.Quoted

/-! Strings are read as they were written, whatever characters they have. Every form spells a text character
by character: with escapes, as it is, or, over several lines, with quotes that are too few to end it. A reader
keeps quotes back until it knows that they do not. -/

namespace EditSync.Toml

open Decimal

namespace QuotedState

def afterQuotes (n : Nat) : QuotedState := if n = 0 then .plain else .quotes n

/-- The characters `w` spell `c` in a form, and do not begin like anything else. -/
structure Spells (s : Style) (w : List Char) (c : Char) : Prop where
  read : ∀ rest, read s .plain (w ++ rest) = (read s .plain rest).map fun p => (c :: p.1, p.2)
  head : ∃ x xs, w = x :: xs ∧ x ≠ s.quote ∧ x ≠ '\r' ∧ (x = '\n' → c = '\n')

variable {s : Style} {c e : Char}

theorem read_cons_of_go {state next : QuotedState} {text : List Char} (h : step s state c = .go text next)
    (rest : List Char) :
    read s state (c :: rest) = (read s next rest).map fun p => (text ++ p.1, p.2) := by
  rw [read, h]

theorem read_cons_of_silent {state next : QuotedState} (h : step s state c = .go [] next)
    (rest : List Char) : read s state (c :: rest) = read s next rest := by
  rw [read_cons_of_go h]
  exact Option.map_id'

theorem after_nil (m : QuotedMove) : m.after [] = m := by cases m <;> rfl

/-- A character that is no quote ends the quotes before it, which were too few to end the string. -/
theorem step_afterQuotes {n : Nat} (hn : n < 3) (hc : c ≠ s.quote) :
    step s (afterQuotes n) c = (step s .plain c).after (List.replicate n s.quote) := by
  rw [afterQuotes]
  split
  · next hzero =>
    rw [hzero]
    exact (after_nil _).symm
  · simp only [step, if_neg hc, if_pos hn]

theorem read_afterQuotes {n : Nat} (hn : n < 3) (hc : c ≠ s.quote) (rest : List Char) :
    read s (afterQuotes n) (c :: rest) =
      (read s .plain (c :: rest)).map fun p => (List.replicate n s.quote ++ p.1, p.2) := by
  rw [read, read, step_afterQuotes hn hc]
  cases step s .plain c with
  | fail => rfl
  | stop text inside => rfl
  | go text next =>
    dsimp only [QuotedMove.after]
    rw [Option.map_map]
    exact congrArg (Option.map · _) (funext fun p => by simp)

theorem spells_self (hquote : c ≠ s.quote) (hcarriage : c ≠ '\r') (h : step s .plain c = .go [c] .plain) :
    Spells s [c] c where
  read := read_cons_of_go h
  head := ⟨c, [], rfl, hquote, hcarriage, id⟩

theorem hexValue?_hexDigit : ∀ n < 16, hexValue? (hexDigit n) = some n := by decide

theorem isControl_lt (h : isControl c = true) : c.toNat < 0x80 := by
  simp only [isControl, Bool.or_eq_true, Bool.and_eq_true, decide_eq_true_eq] at h
  omega

section

variable (hescapes : s.escapes = true) (hquote : s.quote = '"')

include hescapes hquote

theorem step_slash : step s .plain '\\' = .go [] .slash := by
  simp [step, start, hescapes, hquote]

/-- Some letters after a slash are short for a character. -/
theorem spells_letter (h : unescape? c = some e) : Spells s ['\\', c] e where
  read rest := by
    have hletter : step s .slash c = .go [e] .plain := by simp [step, escape, h]
    rw [List.cons_append, read_cons_of_silent (step_slash hescapes hquote)]
    exact read_cons_of_go hletter rest
  head := ⟨'\\', [c], rfl, by simp [hquote], by decide, fun h => absurd h (by decide)⟩

/-- A control character is spelled by its number. -/
theorem spells_code (h : isControl c = true) :
    Spells s ['\\', 'u', '0', '0', hexDigit (c.toNat / 16), hexDigit (c.toNat % 16)] c where
  read rest := by
    have hlt : c.toNat < 0x80 := isControl_lt h
    have hhigh := hexValue?_hexDigit (c.toNat / 16) (by omega)
    have hlow := hexValue?_hexDigit (c.toNat % 16) (by omega)
    have hzero : hexValue? '0' = some 0 := rfl
    have hu : step s .slash 'u' = .go [] (.code 4 0) := rfl
    have hfirst : step s (.code 4 0) '0' = .go [] (.code 3 0) := rfl
    have hsecond : step s (.code 3 0) '0' = .go [] (.code 2 0) := rfl
    have hthird : step s (.code 2 0) (hexDigit (c.toNat / 16)) = .go [] (.code 1 (c.toNat / 16)) := by
      simp [step, hhigh]
    have hvalue : 16 * (c.toNat / 16) + c.toNat % 16 = c.toNat := Nat.div_add_mod _ _
    have hfourth : step s (.code 1 (c.toNat / 16)) (hexDigit (c.toNat % 16)) = .go [c] .plain := by
      have hscalar : scalar? c.toNat = some c := by
        rw [scalar?, if_pos (by omega), Char.ofNat_toNat]
      simp only [step, hlow, if_true, hvalue, hscalar]
      rfl
    simp only [List.cons_append, List.nil_append]
    rw [read_cons_of_silent (step_slash hescapes hquote), read_cons_of_silent hu, read_cons_of_silent hfirst,
      read_cons_of_silent hsecond, read_cons_of_silent hthird, read_cons_of_go hfourth]
    rfl
  head := ⟨'\\', _, rfl, by simp [hquote], by decide, fun h => absurd h (by decide)⟩

theorem spells_escapeChar (hc : c ≠ '"') : Spells s (escapeChar c) c := by
  unfold escapeChar
  split
  · exact spells_letter hescapes hquote rfl
  · exact spells_letter hescapes hquote rfl
  · exact spells_letter hescapes hquote rfl
  · exact spells_letter hescapes hquote rfl
  · exact spells_letter hescapes hquote rfl
  · exact spells_letter hescapes hquote rfl
  · next hback htab hline hform hreturn hslash =>
    split
    · next hcontrol => exact spells_code hescapes hquote hcontrol
    · next hcontrol =>
      refine spells_self (by rwa [hquote]) hreturn ?_
      have hplain : ¬(c = '\\' ∧ s.escapes = true) := fun h => hslash h.1
      rw [step, start, hquote, if_neg hc, if_neg hplain, if_neg hline, if_neg hreturn, if_neg hcontrol]

end

/-- A character that is not special stands for itself where nothing is escaped. -/
theorem spells_raw (hescapes : s.escapes = false) (hquote : c ≠ s.quote) (hcontrol : isControl c = false)
    (hline : c = '\n' → s.lines = true) : Spells s [c] c := by
  have hcarriage : c ≠ '\r' := by
    rintro rfl
    exact absurd hcontrol (by decide)
  refine spells_self hquote hcarriage ?_
  simp only [step, start, if_neg hquote, hescapes, hcontrol, if_neg hcarriage]
  by_cases h : c = '\n'
  · simp [h, hline h]
  · simp [h]

/-- A text in a form, behind so many quotes in a row. Only over several lines a quote stands for itself. -/
inductive Written (s : Style) : Nat → List Char → List Char → Prop
  | nil (n : Nat) : Written s n [] []
  | quote {n : Nat} {cs w : List Char} (hlines : s.lines = true) (hn : n < 2)
      (h : Written s (n + 1) cs w) : Written s n (s.quote :: cs) (s.quote :: w)
  | char {n : Nat} {c : Char} {cs v w : List Char} (hc : Spells s v c) (h : Written s 0 cs w) :
      Written s n (c :: cs) (v ++ w)

theorem written_escapeAll {s : Style} (hescapes : s.escapes = true) (hquote : s.quote = '"') (n : Nat)
    (cs : List Char) : Written s n cs (escapeAll s.lines n cs) := by
  induction cs generalizing n with
  | nil => exact .nil n
  | cons c cs ih =>
    rw [escapeAll]
    split
    · next hc =>
      split
      · next hfew =>
        rw [Bool.and_eq_true, decide_eq_true_eq] at hfew
        rw [hc, ← hquote]
        exact .quote hfew.1 hfew.2 (ih (n + 1))
      · rw [hc]
        exact .char (v := ['\\', '"']) (spells_letter hescapes hquote rfl) (ih 0)
    · next hc =>
      split
      · next hline =>
        refine .char (v := [c]) ?_ (ih 0)
        obtain ⟨rfl, hlines⟩ := hline
        exact spells_self (by simp [hquote]) (by decide) (by simp [step, start, hquote, hlines])
      · exact .char (spells_escapeChar hescapes hquote hc) (ih 0)

/-- Without escapes a text is written as it is. -/
theorem written_self {s : Style} (hescapes : s.escapes = false) {n : Nat} {cs : List Char}
    (hcontrol : ∀ c ∈ cs, isControl c = false)
    (hline : s.lines = false → '\n' ∉ cs ∧ s.quote ∉ cs) (hn : n < 3) (htriple : hasTriple s.quote n cs = false) :
    Written s n cs cs := by
  induction cs generalizing n with
  | nil => exact .nil n
  | cons c cs ih =>
    rw [List.forall_mem_cons] at hcontrol
    have hrest : s.lines = false → '\n' ∉ cs ∧ s.quote ∉ cs := fun h =>
      ⟨fun hmem => (hline h).1 (List.mem_cons_of_mem c hmem),
        fun hmem => (hline h).2 (List.mem_cons_of_mem c hmem)⟩
    rw [hasTriple] at htriple
    by_cases hc : c = s.quote
    · subst hc
      rw [if_pos rfl, Bool.or_eq_false_iff, decide_eq_false_iff_not] at htriple
      have hlines : s.lines = true := by
        cases h : s.lines with
        | true => rfl
        | false => exact absurd List.mem_cons_self (hline h).2
      exact .quote hlines (by omega) (ih hcontrol.2 hrest (by omega) htriple.2)
    · rw [if_neg hc] at htriple
      refine .char (v := [c]) (spells_raw hescapes hc hcontrol.1 fun h => ?_)
        (ih hcontrol.2 hrest (by omega) htriple)
      cases hlines : s.lines with
      | true => rfl
      | false => exact absurd (h ▸ List.mem_cons_self) (hline hlines).1

/-- The end of a string over several lines is that after its last three quotes. -/
theorem read_delimiter {s : Style} (hlines : s.lines = true) (hquote : s.quote ≠ '\n') {n : Nat} (hn : n < 3)
    (rest : List Char) :
    read s (afterQuotes n) (s.quote :: s.quote :: s.quote :: '\n' :: rest) =
      some (List.replicate n s.quote, '\n' :: rest) := by
  have hopen : step s .plain s.quote = .go [] (.quotes 1) := by simp [step, start, hlines]
  have hmore {m : Nat} (hm : m ≠ 4) : step s (.quotes m) s.quote = .go [] (.quotes (m + 1)) := by
    simp [step, hm]
  have hend {m : Nat} (hm : ¬ m < 3) :
      step s (.quotes m) '\n' = .stop (List.replicate (m - 3) s.quote) false := by
    simp [step, hquote.symm, hm]
  match n, hn with
  | 0, _ =>
    rw [afterQuotes, if_pos rfl, read_cons_of_silent hopen, read_cons_of_silent (hmore (by omega)),
      read_cons_of_silent (hmore (by omega)), read, hend (by omega)]
    rfl
  | 1, _ =>
    rw [afterQuotes, if_neg (by omega), read_cons_of_silent (hmore (by omega)),
      read_cons_of_silent (hmore (by omega)), read_cons_of_silent (hmore (by omega)), read, hend (by omega)]
    rfl
  | 2, _ =>
    rw [afterQuotes, if_neg (by omega), read_cons_of_silent (hmore (by omega)),
      read_cons_of_silent (hmore (by omega)), read, step, if_pos rfl]
    rfl

/-- What was written is read up to its end, the quotes before it included. -/
theorem Written.read {s : Style} {n : Nat} {cs w : List Char} (h : Written s n cs w)
    (hquote : s.quote ≠ '\n') (hn : if s.lines then n < 3 else n = 0) (rest : List Char) :
    QuotedState.read s (afterQuotes n) (w ++ (s.delimiter ++ '\n' :: rest)) =
      some (List.replicate n s.quote ++ cs, '\n' :: rest) := by
  induction h with
  | nil n =>
    rw [List.append_nil, List.nil_append, Style.delimiter]
    cases hlines : s.lines with
    | true =>
      rw [hlines, if_pos rfl] at hn
      exact read_delimiter hlines hquote hn rest
    | false =>
      rw [hlines, if_neg Bool.false_ne_true] at hn
      subst hn
      have hstop : step s .plain s.quote = .stop [] true := by simp [step, start, hlines]
      have hend : List.replicate (if false = true then 3 else 1) s.quote ++ '\n' :: rest =
          s.quote :: '\n' :: rest := rfl
      rw [afterQuotes, if_pos rfl, hend, QuotedState.read, hstop]
      rfl
  | @quote n cs w hlines hfew _ ih =>
    have hgo : step s (afterQuotes n) s.quote = .go [] (afterQuotes (n + 1)) := by
      rw [afterQuotes]
      split
      · next hzero => simp [step, start, hlines, hzero, afterQuotes]
      · simp [step, afterQuotes, show n ≠ 4 by omega]
    rw [List.cons_append, read_cons_of_silent hgo, ih (by rw [hlines, if_pos rfl]; omega),
      List.replicate_succ', List.append_assoc]
    rfl
  | @char n c cs v w hc _ ih =>
    have hplain := ih (by cases s.lines <;> simp)
    rw [afterQuotes, if_pos rfl] at hplain
    obtain ⟨x, xs, hv, hx, -⟩ := hc.head
    have hfew : n < 3 := by
      cases hlines : s.lines <;> simp [hlines] at hn <;> omega
    have hchar := hc.read (w ++ (s.delimiter ++ '\n' :: rest))
    rw [hplain, hv, List.cons_append] at hchar
    rw [hv, List.append_assoc, List.cons_append, read_afterQuotes hfew hx, hchar]
    rfl

/-- A text begins like itself: with a quote only over several lines, and with a newline only if it has one. -/
theorem Written.head {s : Style} {n : Nat} {cs w : List Char} (h : Written s n cs w)
    (hquote : s.quote ≠ '\n' ∧ s.quote ≠ '\r') {x : Char} {xs : List Char} (hw : w = x :: xs) :
    (x = s.quote → s.lines = true) ∧ x ≠ '\r' ∧ (x = '\n' → '\n' ∈ cs) := by
  cases h with
  | nil => exact absurd hw (by simp)
  | quote hlines _ _ =>
    obtain ⟨rfl, -⟩ := List.cons.inj hw
    exact ⟨fun _ => hlines, hquote.2, fun h => absurd h hquote.1⟩
  | char hc _ =>
    obtain ⟨y, ys, rfl, hy, hcarriage, hline⟩ := hc.head
    obtain ⟨rfl, -⟩ := List.cons.inj hw
    exact ⟨fun h => absurd h hy, hcarriage, fun h => by simp [hline h]⟩

end QuotedState

open QuotedState

variable {s : Style} {cs w : List Char}

/-- A string over several lines is read behind its first quotes, and behind the newline after these. -/
theorem readQuoted?_lines (hs : s = .basicLines ∨ s = .literalLines) (h : Written s 0 cs w)
    (rest : List Char) :
    readQuoted? (s.delimiter ++ (if cs.contains '\n' then ['\n'] else []) ++ w ++ s.delimiter ++ '\n' :: rest) =
      some (cs, '\n' :: rest) := by
  have hquote : s.quote ≠ '\n' ∧ s.quote ≠ '\r' := by rcases hs with rfl | rfl <;> decide
  have hlines : s.lines = true := by rcases hs with rfl | rfl <;> rfl
  have hopen (text : List Char) :
      readQuoted? (s.delimiter ++ text) = QuotedState.read s .plain (dropLineEnd text) := by
    rcases hs with rfl | rfl <;> rfl
  have hdrop : dropLineEnd ((if cs.contains '\n' then ['\n'] else []) ++ (w ++ (s.delimiter ++ '\n' :: rest))) =
      w ++ (s.delimiter ++ '\n' :: rest) := by
    split
    · rfl
    · next hcontains =>
      have hfirst : ∃ x xs, w ++ (s.delimiter ++ '\n' :: rest) = x :: xs ∧ x ≠ '\n' ∧ x ≠ '\r' := by
        cases hw : w with
        | nil =>
          refine ⟨s.quote, s.quote :: s.quote :: '\n' :: rest, ?_, hquote⟩
          rw [Style.delimiter, hlines]
          rfl
        | cons x xs =>
          obtain ⟨-, hcarriage, hline⟩ := h.head hquote hw
          exact ⟨x, xs ++ (s.delimiter ++ '\n' :: rest), rfl,
            fun hx => hcontains (List.contains_iff_mem.2 (hline hx)), hcarriage⟩
      obtain ⟨x, xs, hx, hline, hcarriage⟩ := hfirst
      rw [List.nil_append, hx]
      unfold dropLineEnd
      split
      · next heq => exact absurd (List.cons.inj heq).1 hline
      · next heq => exact absurd (List.cons.inj heq).1 hcarriage
      · rfl
  have hread := h.read hquote.1 (by simp [hlines]) rest
  rw [afterQuotes, if_pos rfl] at hread
  simp only [List.append_assoc]
  rw [hopen, hdrop, hread]
  rfl

/-- A string on one line is not taken for one over several: its second quote is its last. -/
theorem readQuoted?_line (hs : s = .basic ∨ s = .literal) (h : Written s 0 cs w) (rest : List Char) :
    readQuoted? (s.delimiter ++ w ++ s.delimiter ++ '\n' :: rest) = some (cs, '\n' :: rest) := by
  have hquote : s.quote ≠ '\n' ∧ s.quote ≠ '\r' := by rcases hs with rfl | rfl <;> decide
  have hlines : s.lines = false := by rcases hs with rfl | rfl <;> rfl
  have hread := h.read hquote.1 (by simp [hlines]) rest
  have hdelimiter : s.delimiter = [s.quote] := by rw [Style.delimiter, hlines]; rfl
  rw [afterQuotes, if_pos rfl, hdelimiter] at hread
  have hopen : ∀ text, text.take 2 ≠ [s.quote, s.quote] →
      readQuoted? (s.quote :: text) = QuotedState.read s .plain text := by
    intro text htext
    have hshort {t : Style} (ht : t.delimiter = [t.quote, t.quote, t.quote]) :
        (s.quote :: text).take 3 ≠ t.delimiter := by
      rw [ht]
      intro htake
      obtain ⟨hfirst, hothers⟩ := List.cons.inj htake
      exact htext (hfirst ▸ hothers)
    rw [readQuoted?, if_neg (hshort rfl), if_neg (hshort rfl)]
    rcases hs with rfl | rfl <;> rfl
  rw [hdelimiter, List.singleton_append, List.append_assoc, List.cons_append, hopen]
  · rw [hread]
    rfl
  · cases hw : w with
    | nil => simp [hquote.1.symm]
    | cons x xs =>
      have hx : x ≠ s.quote := fun hx => by
        have := (h.head hquote hw).1 hx
        rw [hlines] at this
        cases this
      simp [hx]

theorem readQuoted?_writeQuoted (hs : s = .basic ∨ s = .literal ∨ s = .basicLines ∨ s = .literalLines)
    (h : s.escapes = false → Written s 0 cs cs) (rest : List Char) :
    readQuoted? (writeQuoted s cs ++ '\n' :: rest) = some (cs, '\n' :: rest) := by
  have hwritten : Written s 0 cs (if s.escapes then escapeAll s.lines 0 cs else cs) := by
    cases hescapes : s.escapes with
    | true =>
      refine written_escapeAll hescapes ?_ 0 cs
      rcases hs with rfl | rfl | rfl | rfl
      · rfl
      · cases hescapes
      · rfl
      · cases hescapes
    | false => exact h hescapes
  have hbreak : (if s.lines ∧ cs.contains '\n' then ['\n'] else []) =
      if s.lines then if cs.contains '\n' then ['\n'] else [] else [] := by
    cases s.lines <;> simp
  rw [writeQuoted, hbreak]
  rcases hs with rfl | rfl | rfl | rfl
  · exact readQuoted?_line (Or.inl rfl) hwritten rest
  · exact readQuoted?_line (Or.inr rfl) hwritten rest
  · exact readQuoted?_lines (Or.inl rfl) hwritten rest
  · exact readQuoted?_lines (Or.inr rfl) hwritten rest

theorem hasTriple_eq_false_of_notMem {q : Char} {n : Nat} {cs : List Char} (h : q ∉ cs) :
    hasTriple q n cs = false := by
  induction cs generalizing n with
  | nil => rfl
  | cons c cs ih =>
    rw [List.mem_cons, not_or] at h
    rw [hasTriple, if_neg (Ne.symm h.1), ih h.2]

/-- The form that is chosen for a text can hold it. -/
theorem written_styleOf (cs : List Char) :
    (styleOf cs = .basic ∨ styleOf cs = .literal ∨ styleOf cs = .basicLines ∨ styleOf cs = .literalLines) ∧
      ((styleOf cs).escapes = false → Written (styleOf cs) 0 cs cs) := by
  have hplain (h : cs.any isControl = false) : ∀ c ∈ cs, isControl c = false := fun c hc => by
    simpa using List.any_eq_false.1 h c hc
  unfold styleOf
  dsimp only
  split
  · exact ⟨Or.inl rfl, nofun⟩
  · split
    · next hliteral =>
      simp only [Bool.and_eq_true, Bool.not_eq_true', List.contains_eq_mem, decide_eq_false_iff_not] at hliteral
      obtain ⟨⟨hcontrols, hquote⟩, hline⟩ := hliteral
      exact ⟨Or.inr (Or.inl rfl), fun _ => written_self rfl (hplain hcontrols) (fun _ => ⟨hline, hquote⟩)
        (by omega) (hasTriple_eq_false_of_notMem hquote)⟩
    · split
      · exact ⟨Or.inr (Or.inr (Or.inl rfl)), nofun⟩
      · split
        · next hlines =>
          simp only [Bool.and_eq_true, Bool.not_eq_true'] at hlines
          exact ⟨Or.inr (Or.inr (Or.inr rfl)), fun _ => written_self rfl (hplain hlines.1) nofun
            (by omega) hlines.2⟩
        · split
          · exact ⟨Or.inr (Or.inr (Or.inl rfl)), nofun⟩
          · exact ⟨Or.inl rfl, nofun⟩

/-- A text is read as it was written, up to the end of its string. -/
theorem readQuoted?_quote (text : String) (rest : List Char) :
    readQuoted? ((quote text).toList ++ '\n' :: rest) = some (text.toList, '\n' :: rest) := by
  obtain ⟨hstyle, hwritten⟩ := written_styleOf text.toList
  rw [quote, String.toList_ofList]
  exact readQuoted?_writeQuoted hstyle hwritten rest

end EditSync.Toml
