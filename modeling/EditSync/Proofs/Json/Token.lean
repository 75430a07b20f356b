import EditSync.Json.Token
import EditSync.Proofs.Json.Number

/-! The tokens of a printed value. A number or a word ends only where another character follows, so the
lexer is judged by what it stands for: `Settles` names the lexer that the next delimiter makes of it. -/

namespace EditSync.Json

open Decimal

/-- Values as JSON has them: whole numbers fit into 64 bits, other numbers have a finite double near
them, and the members of an object stand by increasing name, each name once. -/
inductive WellFormed : Json → Prop
  | null : WellFormed .null
  | bool (b : Bool) : WellFormed (.bool b)
  | int {n : Int} (low : -2 ^ 63 ≤ n) (high : n < 2 ^ 64) : WellFormed (.int n)
  | decimal {negative : Bool} {digits : Nat} {exponent : Int} (finite : overflows digits exponent = false) :
      WellFormed (.decimal negative digits exponent)
  | str (s : String) : WellFormed (.str s)
  | arr {items : List Json} (values : ∀ v ∈ items, WellFormed v) : WellFormed (.arr items)
  | obj {members : List (String × Json)} (ordered : (members.map Prod.fst).Pairwise (· < ·))
      (values : ∀ m ∈ members, WellFormed m.2) : WellFormed (.obj members)

theorem mem_insertMember {name : String} {v : Json} {ms : List (String × Json)} {m : String × Json}
    (h : m ∈ insertMember name v ms) : m = (name, v) ∨ m ∈ ms := by
  induction ms with
  | nil => exact Or.inl (List.mem_singleton.1 h)
  | cons n ms ih =>
    rw [insertMember] at h
    split at h
    · exact List.mem_cons.1 h
    · split at h
      · rcases List.mem_cons.1 h with h | h
        · exact Or.inl h
        · exact Or.inr (List.mem_cons_of_mem n h)
      · rcases List.mem_cons.1 h with rfl | h
        · exact Or.inr List.mem_cons_self
        · exact (ih h).imp_right (List.mem_cons_of_mem n)

theorem ordered_insertMember (name : String) (v : Json) {ms : List (String × Json)}
    (h : (ms.map Prod.fst).Pairwise (· < ·)) :
    ((insertMember name v ms).map Prod.fst).Pairwise (· < ·) := by
  induction ms with
  | nil => exact List.pairwise_singleton _ _
  | cons m ms ih =>
    obtain ⟨hfirst, hrest⟩ := List.pairwise_cons.1 h
    rw [insertMember]
    split
    · next hlt =>
      refine List.pairwise_cons.2 ⟨fun k hk => ?_, h⟩
      rcases List.mem_cons.1 hk with rfl | hk
      · exact hlt
      · exact String.lt_trans hlt (hfirst k hk)
    · next hlt =>
      split
      · next heq => exact List.pairwise_cons.2 ⟨heq ▸ hfirst, hrest⟩
      · next hne =>
        have hgt : m.1 < name := by
          rcases Std.lt_trichotomy name m.1 with h | h | h
          · exact absurd h hlt
          · exact absurd h hne
          · exact h
        refine List.pairwise_cons.2 ⟨fun k hk => ?_, ih hrest⟩
        obtain ⟨n, hn, rfl⟩ := List.mem_map.1 hk
        rcases mem_insertMember hn with rfl | hn
        · exact hgt
        · exact hfirst _ (List.mem_map_of_mem hn)

/-- An object may be given its members in any order, and names more than once. -/
theorem WellFormed.object {members : List (String × Json)} (h : ∀ m ∈ members, WellFormed m.2) :
    WellFormed (Json.object members) := by
  have hinsert (ms : List (String × Json)) (hordered : (ms.map Prod.fst).Pairwise (· < ·))
      (hvalues : ∀ m ∈ ms, WellFormed m.2) :
      WellFormed (.obj (members.foldl (fun ms m => insertMember m.1 m.2 ms) ms)) := by
    induction members generalizing ms with
    | nil => exact .obj hordered hvalues
    | cons m members ih =>
      refine ih (fun n hn => h n (List.mem_cons_of_mem m hn)) _
        (ordered_insertMember m.1 m.2 hordered) fun n hn => ?_
      rcases mem_insertMember hn with rfl | hn
      · exact h m List.mem_cons_self
      · exact hvalues n hn
  exact hinsert [] List.Pairwise.nil (fun m hm => absurd hm List.not_mem_nil)

mutual

def tokens : Json → List Token
  | .arr [] => [.openArray, .closeArray]
  | .arr (v :: vs) => .openArray :: (tokens v ++ itemTokens vs)
  | .obj [] => [.openObject, .closeObject]
  | .obj (m :: ms) => .openObject :: .text m.1 :: .colon :: (tokens m.2 ++ memberTokens ms)
  | .str s => [.text s]
  | .null => [.scalar .null]
  | .bool b => [.scalar (.bool b)]
  | .int n => [.scalar (.int n)]
  | .decimal negative digits exponent => [.scalar (.decimal negative digits exponent)]

def itemTokens : List Json → List Token
  | [] => [.closeArray]
  | v :: vs => .comma :: (tokens v ++ itemTokens vs)

def memberTokens : List (String × Json) → List Token
  | [] => [.closeObject]
  | m :: ms => .comma :: .text m.1 :: .colon :: (tokens m.2 ++ memberTokens ms)

end

theorem printChar_append (c : Char) (cs rest : List Char) :
    printChar c (cs ++ rest) = printChar c cs ++ rest := by
  unfold printChar
  split
  · rfl
  · split <;> rfl

theorem printChars_append (cs rest : List Char) : printChars cs rest = printChars cs [] ++ rest := by
  induction cs with
  | nil => rfl
  | cons c cs ih => rw [printChars, printChars, ih, printChar_append]

theorem printString_append (s : String) (rest : List Char) :
    printString s rest = printString s [] ++ rest := by
  rw [printString, printString, printChars_append, List.cons_append]

theorem printNat_append (n : Nat) (rest : List Char) : printNat n rest = printNat n [] ++ rest := by
  rw [printNat, printNat, List.append_nil]

theorem printInt_append (n : Int) (rest : List Char) : printInt n rest = printInt n [] ++ rest := by
  rw [printInt, printInt, printNat_append]
  split <;> rfl

mutual

theorem print_append : ∀ (v : Json) (rest : List Char), print v rest = print v [] ++ rest
  | .null, _ | .bool true, _ | .bool false, _ | .arr [], _ | .obj [], _ => rfl
  | .int n, rest => printInt_append n rest
  | .decimal negative digits exponent, rest => by
    rw [print, print, printInt_append, printNat_append, printNat_append digits ('e' :: printInt exponent [])]
    split <;> simp
  | .str s, rest => printString_append s rest
  | .arr (v :: vs), rest => by
    rw [print, print, print_append v, printItems_append vs rest, print_append v (printItems vs [])]
    simp
  | .obj (m :: ms), rest => by
    rw [print, print, print_append m.2, printMembers_append ms rest,
      print_append m.2 (printMembers ms []), printString_append, printString_append m.1 (':' :: _)]
    simp

theorem printItems_append : ∀ (vs : List Json) (rest : List Char),
    printItems vs rest = printItems vs [] ++ rest
  | [], _ => rfl
  | v :: vs, rest => by
    rw [printItems, printItems, print_append v, printItems_append vs rest,
      print_append v (printItems vs [])]
    simp

theorem printMembers_append : ∀ (ms : List (String × Json)) (rest : List Char),
    printMembers ms rest = printMembers ms [] ++ rest
  | [], _ => rfl
  | m :: ms, rest => by
    rw [printMembers, printMembers, print_append m.2, printMembers_append ms rest,
      print_append m.2 (printMembers ms []), printString_append, printString_append m.1 (':' :: _)]
    simp

end

def delimiters : List Char := [',', ':', ']', '\x7d']

/-- A lexer goes on as `done` when its text ends and when a delimiter follows. -/
def Settles (l done : Lexer) : Prop :=
  l.flush = some done ∧ ∀ c ∈ delimiters, l.step c = done.step c

/-- A text between tokens is read as these tokens. -/
def Spells (cs : List Char) (ts : List Token) : Prop :=
  ∀ before, ∃ l, cs.foldlM Lexer.step ⟨before, .outside⟩ = some l ∧ Settles l ⟨ts.reverse ++ before, .outside⟩

theorem foldlM_cons_of_step {l next : Lexer} {c : Char} (h : l.step c = some next) (cs : List Char) :
    (c :: cs).foldlM Lexer.step l = cs.foldlM Lexer.step next := by
  rw [List.foldlM_cons, h]
  rfl

theorem Settles.refl (ts : List Token) : Settles ⟨ts, .outside⟩ ⟨ts, .outside⟩ := ⟨rfl, fun _ _ => rfl⟩

theorem Spells.append {cs ds : List Char} {ts us : List Token} {c : Char} (h : Spells cs ts)
    (hd : Spells (c :: ds) us) (hc : c ∈ delimiters) : Spells (cs ++ c :: ds) (ts ++ us) := by
  intro before
  obtain ⟨l, hl, hsettles⟩ := h before
  obtain ⟨l', hl', hsettles'⟩ := hd (ts.reverse ++ before)
  refine ⟨l', ?_, by rwa [List.reverse_append, List.append_assoc]⟩
  rw [List.foldlM_cons, ← hsettles.2 c hc] at hl'
  rw [List.foldlM_append, hl]
  exact hl'

/-- A character that is a token by itself. -/
theorem Spells.cons {c : Char} {t : Token} {cs : List Char} {ts : List Token}
    (hc : ∀ before, Lexer.step ⟨before, .outside⟩ c = some ⟨t :: before, .outside⟩) (h : Spells cs ts) :
    Spells (c :: cs) (t :: ts) := by
  intro before
  obtain ⟨l, hl, hsettles⟩ := h (t :: before)
  exact ⟨l, (foldlM_cons_of_step (hc before) cs).trans hl, by simpa using hsettles⟩

theorem spells_nil : Spells [] [] := fun before => ⟨_, rfl, Settles.refl before⟩

theorem spells_singleton {c : Char} {t : Token}
    (hc : ∀ before, Lexer.step ⟨before, .outside⟩ c = some ⟨t :: before, .outside⟩) : Spells [c] [t] :=
  spells_nil.cons hc

theorem mem_delimiters {c : Char} (h : c ∈ delimiters) :
    isWordChar c = false ∧ isNumberChar c = false := by
  simp only [delimiters, List.mem_cons, List.not_mem_nil, or_false] at h
  rcases h with rfl | rfl | rfl | rfl <;> decide

theorem settles_word {before : List Token} {letters : List Char} {t : Token}
    (h : wordToken? letters.reverse = some t) :
    Settles ⟨before, .word letters⟩ ⟨t :: before, .outside⟩ := by
  have hflush : Lexer.flush ⟨before, .word letters⟩ = some ⟨t :: before, .outside⟩ := by
    simp only [Lexer.flush, h, Option.map_some, Lexer.emit]
  refine ⟨hflush, fun c hc => ?_⟩
  simp only [Lexer.step, (mem_delimiters hc).1, Bool.false_eq_true, if_false, hflush, Option.bind_some]

theorem settles_number {before : List Token} {chars : List Char} {v : Json}
    (h : number? chars.reverse = some v) :
    Settles ⟨before, .number chars⟩ ⟨.scalar v :: before, .outside⟩ := by
  have hflush : Lexer.flush ⟨before, .number chars⟩ = some ⟨.scalar v :: before, .outside⟩ := by
    simp only [Lexer.flush, h, Option.map_some, Lexer.emit]
  refine ⟨hflush, fun c hc => ?_⟩
  simp only [Lexer.step, (mem_delimiters hc).2, Bool.false_eq_true, if_false, hflush, Option.bind_some]

theorem spells_null : Spells ['n', 'u', 'l', 'l'] [.scalar .null] :=
  fun _ => ⟨_, rfl, settles_word rfl⟩

theorem spells_true : Spells ['t', 'r', 'u', 'e'] [.scalar (.bool true)] :=
  fun _ => ⟨_, rfl, settles_word rfl⟩

theorem spells_false : Spells ['f', 'a', 'l', 's', 'e'] [.scalar (.bool false)] :=
  fun _ => ⟨_, rfl, settles_word rfl⟩

theorem foldlM_number (before : List Token) {cs : List Char} (h : ∀ c ∈ cs, isNumberChar c = true)
    (read : List Char) :
    cs.foldlM Lexer.step ⟨before, .number read⟩ = some ⟨before, .number (cs.reverse ++ read)⟩ := by
  induction cs generalizing read with
  | nil => rfl
  | cons c cs ih =>
    have hstep : Lexer.step ⟨before, .number read⟩ c = some ⟨before, .number (c :: read)⟩ := by
      simp only [Lexer.step, h c List.mem_cons_self, if_true]
    rw [foldlM_cons_of_step hstep, ih (fun d hd => h d (List.mem_cons_of_mem c hd)) (c :: read),
      List.reverse_cons, List.append_assoc, List.singleton_append]

theorem start_number (before : List Token) {c : Char} (h : c = '-' ∨ c.isDigit = true) :
    Lexer.step ⟨before, .outside⟩ c = some ⟨before, .number [c]⟩ := by
  have hspace : isSpace c = false := by
    cases hs : isSpace c with
    | false => rfl
    | true =>
      simp only [isSpace, Bool.or_eq_true, decide_eq_true_eq] at hs
      rcases hs with ((rfl | rfl) | rfl) | rfl <;> revert h <;> decide
  have hquote : c ≠ '"' := by rintro rfl; revert h; decide
  have hnumber : (decide (c = '-') || c.isDigit) = true := by simpa using h
  rw [Lexer.step, Lexer.start, hspace, if_neg Bool.false_ne_true, if_neg hquote, if_pos hnumber]

/-- A number is read whole, as it contains nothing but characters of numbers. -/
theorem spells_number {c : Char} {cs : List Char} {v : Json} (hc : c = '-' ∨ c.isDigit = true)
    (hcs : ∀ d ∈ cs, isNumberChar d = true) (h : number? (c :: cs) = some v) :
    Spells (c :: cs) [.scalar v] := by
  intro before
  refine ⟨⟨before, .number (cs.reverse ++ [c])⟩, ?_, settles_number (by simpa using h)⟩
  rw [foldlM_cons_of_step (start_number before hc), foldlM_number before hcs [c]]

theorem isNumberChar_of_isDigit {c : Char} (h : c.isDigit = true) : isNumberChar c = true := by
  simp [isNumberChar, h]

theorem isNumberChar_of_mem_printInt {n : Int} {c : Char} (h : c ∈ printInt n []) :
    isNumberChar c = true := by
  rw [printInt, printNat, List.append_nil] at h
  split at h
  · rcases List.mem_cons.1 h with rfl | h
    · rfl
    · exact isNumberChar_of_isDigit (isDigit_of_mem_toDigits h)
  · exact isNumberChar_of_isDigit (isDigit_of_mem_toDigits h)

/-- What a printed number begins with. -/
theorem exists_printInt (n : Int) : ∃ c cs, printInt n [] = c :: cs ∧ (c = '-' ∨ c.isDigit = true) := by
  rw [printInt, printNat, List.append_nil]
  split
  · exact ⟨_, _, rfl, Or.inl rfl⟩
  · obtain ⟨c, cs, h⟩ := exists_toDigits n.natAbs
    exact ⟨c, cs, h, Or.inr (isDigit_of_mem_toDigits (h ▸ List.mem_cons_self))⟩

theorem spells_int {n : Int} (low : -2 ^ 63 ≤ n) (high : n < 2 ^ 64) :
    Spells (print (.int n) []) [.scalar (.int n)] := by
  rw [print]
  have hread := number?_printInt low high
  have hchars : ∀ c ∈ printInt n [], isNumberChar c = true := fun _ => isNumberChar_of_mem_printInt
  obtain ⟨c, cs, h, hc⟩ := exists_printInt n
  rw [h] at hread hchars ⊢
  exact spells_number hc (fun d hd => hchars d (List.mem_cons_of_mem c hd)) hread

theorem spells_decimal {digits : Nat} {exponent : Int} (finite : overflows digits exponent = false)
    (negative : Bool) :
    Spells (print (.decimal negative digits exponent) []) [.scalar (.decimal negative digits exponent)] := by
  have hread := number?_decimal finite negative
  have hchars : ∀ c ∈ Nat.toDigits 10 digits ++ 'e' :: printInt exponent [], isNumberChar c = true := by
    intro c hc
    rcases List.mem_append.1 hc with hc | hc
    · exact isNumberChar_of_isDigit (isDigit_of_mem_toDigits hc)
    · rcases List.mem_cons.1 hc with rfl | hc
      · rfl
      · exact isNumberChar_of_mem_printInt hc
  rw [print, printNat] at hread ⊢
  obtain ⟨c, cs, h⟩ := exists_toDigits digits
  have hc : c.isDigit = true := isDigit_of_mem_toDigits (h ▸ List.mem_cons_self)
  rw [h, List.cons_append] at hread hchars ⊢
  cases negative with
  | false => exact spells_number (Or.inr hc) (fun d hd => hchars d (List.mem_cons_of_mem c hd)) hread
  | true => exact spells_number (Or.inl rfl) hchars hread

theorem hexValue?_hexDigit : ∀ n < 16, hexValue? (hexDigit n) = some n := by decide

theorem unescape?_of_shortEscape? {c e : Char} (h : shortEscape? c = some e) :
    unescape? e = some c ∧ e ≠ 'u' := by
  unfold shortEscape? at h
  split at h
  case h_8 => exact absurd h (by simp)
  all_goals
    obtain rfl := Option.some.inj h
    decide

theorem shortEscape?_eq_none {c : Char} (h : shortEscape? c = none) : c ≠ '"' ∧ c ≠ '\\' := by
  constructor <;> (rintro rfl; exact absurd h (by decide))

theorem step_code (before : List Token) (chars : List Char) {c : Char} {d value count : Nat}
    (hd : hexValue? c = some d) (hcount : count ≠ 3) :
    Lexer.step ⟨before, .code chars none value count⟩ c =
      some ⟨before, .code chars none (16 * value + d) (count + 1)⟩ := by
  simp only [Lexer.step, hd, Option.bind_some, hcount, if_false]

/-- The last of the four digits after `\u`, for a character below the surrogates. -/
theorem step_code_last (before : List Token) (chars : List Char) {c : Char} {d value : Nat}
    (hd : hexValue? c = some d) (hlt : 16 * value + d < 0xD800) :
    Lexer.step ⟨before, .code chars none value 3⟩ c =
      some ⟨before, .text (Char.ofNat (16 * value + d) :: chars)⟩ := by
  have hhigh : ¬(0xD800 ≤ 16 * value + d ∧ 16 * value + d < 0xDC00) := by omega
  have hlow : ¬(0xDC00 ≤ 16 * value + d ∧ 16 * value + d < 0xE000) := by omega
  simp only [Lexer.step, hd, Option.bind_some, if_true, Lexer.codeUnit, if_neg hhigh, if_neg hlow]

/-- Inside a string, the printed form of a character is read as that character. -/
theorem foldlM_printChar (before : List Token) (chars : List Char) (c : Char) (rest : List Char) :
    (printChar c rest).foldlM Lexer.step ⟨before, .text chars⟩ =
      rest.foldlM Lexer.step ⟨before, .text (c :: chars)⟩ := by
  unfold printChar
  split
  · next e he =>
    obtain ⟨hread, hne⟩ := unescape?_of_shortEscape? he
    have hescape : Lexer.step ⟨before, .escape chars⟩ e = some ⟨before, .text (c :: chars)⟩ := by
      simp only [Lexer.step, hne, if_false, hread, Option.map_some]
    have hslash : Lexer.step ⟨before, .text chars⟩ '\\' = some ⟨before, .escape chars⟩ := rfl
    rw [foldlM_cons_of_step hslash, foldlM_cons_of_step hescape]
  · next he =>
    obtain ⟨hquote, hslash⟩ := shortEscape?_eq_none he
    split
    · next hlt =>
      have hzero : hexValue? '0' = some 0 := rfl
      have hhigh := hexValue?_hexDigit (c.toNat / 16) (by omega)
      have hlow := hexValue?_hexDigit (c.toNat % 16) (by omega)
      have hvalue : 16 * (16 * (16 * (16 * 0 + 0) + 0) + c.toNat / 16) + c.toNat % 16 = c.toNat := by omega
      have hescape : Lexer.step ⟨before, .text chars⟩ '\\' = some ⟨before, .escape chars⟩ := rfl
      have hcode : Lexer.step ⟨before, .escape chars⟩ 'u' = some ⟨before, .code chars none 0 0⟩ := rfl
      rw [foldlM_cons_of_step hescape, foldlM_cons_of_step hcode,
        foldlM_cons_of_step (step_code before chars hzero (by omega)),
        foldlM_cons_of_step (step_code before chars hzero (by omega)),
        foldlM_cons_of_step (step_code before chars hhigh (by omega)),
        foldlM_cons_of_step (step_code_last before chars hlow (by omega)), hvalue, Char.ofNat_toNat]
    · next hge =>
      have hstep : Lexer.step ⟨before, .text chars⟩ c = some ⟨before, .text (c :: chars)⟩ := by
        simp only [Lexer.step, hquote, hslash, hge, if_false]
      exact foldlM_cons_of_step hstep rest

theorem foldlM_printChars (before : List Token) (chars cs : List Char) :
    (printChars cs []).foldlM Lexer.step ⟨before, .text chars⟩ =
      some ⟨.text (String.ofList (chars.reverse ++ cs)) :: before, .outside⟩ := by
  induction cs generalizing chars with
  | nil =>
    rw [List.append_nil]
    rfl
  | cons c cs ih =>
    rw [printChars, foldlM_printChar, ih, List.reverse_cons, List.append_assoc, List.singleton_append]

theorem spells_string (s : String) : Spells (printString s []) [.text s] := by
  intro before
  refine ⟨_, ?_, Settles.refl (.text s :: before)⟩
  have hchars := foldlM_printChars before [] s.toList
  rw [List.reverse_nil, List.nil_append, String.ofList_toList] at hchars
  have hquote : Lexer.step ⟨before, .outside⟩ '"' = some ⟨before, .text []⟩ := rfl
  rw [printString, foldlM_cons_of_step hquote, hchars]

theorem spells_items {vs : List Json} (h : ∀ v ∈ vs, Spells (print v []) (tokens v)) :
    ∃ c cs, printItems vs [] = c :: cs ∧ c ∈ delimiters ∧ Spells (c :: cs) (itemTokens vs) := by
  induction vs with
  | nil => exact ⟨']', [], rfl, by decide, spells_singleton fun _ => rfl⟩
  | cons v vs ih =>
    obtain ⟨c, cs, hprint, hc, hspells⟩ := ih fun w hw => h w (List.mem_cons_of_mem v hw)
    refine ⟨',', print v [] ++ printItems vs [], ?_, by decide, ?_⟩
    · rw [printItems, print_append]
    · rw [itemTokens, hprint]
      exact ((h v List.mem_cons_self).append hspells hc).cons fun _ => rfl

theorem spells_member {name : String} {v : Json} {rest : List Char} {ts : List Token} {c : Char}
    (h : Spells (print v []) (tokens v)) (hc : c ∈ delimiters) (hrest : Spells (c :: rest) ts) :
    Spells (printString name (':' :: print v (c :: rest))) (.text name :: .colon :: (tokens v ++ ts)) := by
  rw [printString_append, print_append]
  exact (spells_string name).append ((h.append hrest hc).cons fun _ => rfl) (by decide)

theorem spells_members {ms : List (String × Json)} (h : ∀ m ∈ ms, Spells (print m.2 []) (tokens m.2)) :
    ∃ c cs, printMembers ms [] = c :: cs ∧ c ∈ delimiters ∧ Spells (c :: cs) (memberTokens ms) := by
  induction ms with
  | nil => exact ⟨'\x7d', [], rfl, by decide, spells_singleton fun _ => rfl⟩
  | cons m ms ih =>
    obtain ⟨c, cs, hprint, hc, hspells⟩ := ih fun n hn => h n (List.mem_cons_of_mem m hn)
    refine ⟨',', printString m.1 (':' :: print m.2 (printMembers ms [])), by rw [printMembers], by decide, ?_⟩
    rw [memberTokens, hprint]
    exact (spells_member (h m List.mem_cons_self) hc hspells).cons fun _ => rfl

theorem WellFormed.spells {v : Json} (h : WellFormed v) : Spells (print v []) (tokens v) := by
  induction h with
  | null => exact spells_null
  | bool b => cases b with
    | false => exact spells_false
    | true => exact spells_true
  | int low high => exact spells_int low high
  | decimal finite => exact spells_decimal finite _
  | str s => exact spells_string s
  | @arr items values ih =>
    cases items with
    | nil => exact (spells_singleton fun _ => rfl).cons fun _ => rfl
    | cons v vs =>
      obtain ⟨c, cs, hprint, hc, hspells⟩ := spells_items fun w hw => ih w (List.mem_cons_of_mem v hw)
      rw [print, tokens, print_append, hprint]
      exact ((ih v List.mem_cons_self).append hspells hc).cons fun _ => rfl
  | @obj members ordered values ih =>
    cases members with
    | nil => exact (spells_singleton fun _ => rfl).cons fun _ => rfl
    | cons m ms =>
      obtain ⟨c, cs, hprint, hc, hspells⟩ := spells_members fun n hn => ih n (List.mem_cons_of_mem m hn)
      rw [print, tokens, hprint]
      exact (spells_member (ih m List.mem_cons_self) hc hspells).cons fun _ => rfl

theorem tokens?_print {v : Json} (h : WellFormed v) : tokens? (print v []) = some (tokens v) := by
  obtain ⟨l, hl, hflush, -⟩ := h.spells []
  rw [tokens?, hl, Option.bind_some, hflush, Option.map_some, List.append_nil, List.reverse_reverse]

end EditSync.Json
