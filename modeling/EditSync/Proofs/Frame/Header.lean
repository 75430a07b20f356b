import EditSync.Frame.Header
import EditSync.Frame.Writer
import EditSync.Proofs.Json.Number
import Mathlib.Data.List.Basic

/-! The header of a frame. A line of UTF-8 is read as the characters it was written as; a length in
decimal digits is read as itself while it fits into 64 bits. -/

namespace EditSync

open Text

namespace Text

/-- The octet of a newline stands for nothing else. -/
theorem eq_newline_of_mem_utf8EncodeChar {c : Char} (h : 10 ∈ String.utf8EncodeChar c) : c = '\n' := by
  have hoctet {n : Nat} (hn : (10 : UInt8) = UInt8.ofNat n) : n % 256 = 10 := by
    simpa using (congrArg UInt8.toNat hn).symm
  rw [String.utf8EncodeChar] at h
  have hvalue : c.val.toNat = 10 := by
    split at h
    · have := hoctet (List.mem_singleton.1 h)
      omega
    · split at h
      · simp only [List.mem_cons, List.not_mem_nil, or_false] at h
        rcases h with h | h <;> have := hoctet h <;> omega
      · split at h
        · simp only [List.mem_cons, List.not_mem_nil, or_false] at h
          rcases h with h | h | h <;> have := hoctet h <;> omega
        · simp only [List.mem_cons, List.not_mem_nil, or_false] at h
          rcases h with h | h | h | h <;> have := hoctet h <;> omega
  exact Char.ext (UInt32.toNat_inj.1 hvalue)

theorem newline_notMem_encode {cs : List Char} (h : '\n' ∉ cs) : 10 ∉ Utf8.encode cs := by
  intro hmem
  obtain ⟨c, hc, hoctet⟩ := List.mem_flatMap.1 hmem
  exact h (eq_newline_of_mem_utf8EncodeChar hoctet ▸ hc)

theorem dropWhile_isBlank_append {before cs : List Char} (hbefore : ∀ c ∈ before, isBlank c = true)
    (hhead : ∀ c, cs.head? = some c → isBlank c = false) :
    (before ++ cs).dropWhile isBlank = cs := by
  rw [List.dropWhile_append_of_pos hbefore]
  cases cs with
  | nil => rfl
  | cons c cs => rw [List.dropWhile_cons_of_neg (by simp [hhead c rfl])]

/-- Blanks around a text go, and no others. -/
theorem trim_append (before : List Char) {cs : List Char} (after : List Char)
    (hbefore : ∀ c ∈ before, isBlank c = true) (hafter : ∀ c ∈ after, isBlank c = true)
    (hhead : ∀ c, cs.head? = some c → isBlank c = false) (hlast : ∀ c, cs.getLast? = some c → isBlank c = false) (hcs : cs ≠ []) :
    trim (before ++ (cs ++ after)) = cs := by
  have hfront : (before ++ (cs ++ after)).dropWhile isBlank = cs ++ after := by
    refine dropWhile_isBlank_append hbefore fun c hc => hhead c ?_
    rwa [List.head?_append, Option.or_of_isSome (by simpa using hcs)] at hc
  have hback : (after.reverse ++ cs.reverse).dropWhile isBlank = cs.reverse := by
    refine dropWhile_isBlank_append (fun c hc => hafter c (List.mem_reverse.1 hc)) fun c hc => hlast c ?_
    rwa [List.head?_reverse] at hc
  rw [trim, hfront, List.reverse_append, hback, List.reverse_reverse]

theorem isBlank_of_isDigit {c : Char} (h : c.isDigit = true) : isBlank c = false := by
  simp only [Char.isDigit, Bool.and_eq_true, decide_eq_true_eq] at h
  have hlow : 48 ≤ c.toNat := h.1
  have hhigh : c.toNat ≤ 57 := h.2
  simp only [isBlank, Bool.or_eq_false_iff, Bool.and_eq_false_imp, decide_eq_true_eq, decide_eq_false_iff_not]
  omega

end Text

namespace Frame

theorem lengthDigit_of_isDigit {c : Char} (h : c.isDigit = true) (n : UInt64) :
    lengthDigit n c =
      if 10 * n.toNat + (c.toNat - 0x30) < UInt64.size then
        .ok (UInt64.ofNat (10 * n.toNat + (c.toNat - 0x30)))
      else .error .tooLarge := by
  rw [lengthDigit, if_pos h]

/-- More digits make no number smaller. -/
theorem le_ofDigitChars (cs : List Char) (n : Nat) : n ≤ Nat.ofDigitChars 10 cs n := by
  rw [Nat.ofDigitChars_eq_ofDigitChars_zero]
  exact Nat.le_add_right_of_le (Nat.le_mul_of_pos_left _ (Nat.pow_pos (by omega)))

/-- A number that no longer fits does not fit again with more digits. -/
theorem foldlM_lengthDigit {cs : List Char} (h : ∀ c ∈ cs, c.isDigit = true) (n : UInt64) :
    cs.foldlM lengthDigit n =
      if Nat.ofDigitChars 10 cs n.toNat < UInt64.size then
        .ok (UInt64.ofNat (Nat.ofDigitChars 10 cs n.toNat))
      else .error .tooLarge := by
  induction cs generalizing n with
  | nil =>
    rw [Nat.ofDigitChars_nil, if_pos n.toNat_lt, UInt64.ofNat_toNat]
    rfl
  | cons c cs ih =>
    rw [List.foldlM_cons, lengthDigit_of_isDigit (h c List.mem_cons_self), Nat.ofDigitChars_cons]
    have hzero : '0'.toNat = 0x30 := rfl
    rw [hzero]
    by_cases hfits : 10 * n.toNat + (c.toNat - 0x30) < UInt64.size
    · have hnext := ih (fun d hd => h d (List.mem_cons_of_mem c hd))
        (UInt64.ofNat (10 * n.toNat + (c.toNat - 0x30)))
      rw [UInt64.toNat_ofNat_of_lt' hfits] at hnext
      rw [if_pos hfits]
      exact hnext
    · have hmore := le_ofDigitChars cs (10 * n.toNat + (c.toNat - 0x30))
      rw [if_neg hfits, if_neg (by omega)]
      rfl

/-- Digits are read as their number, if that fits. -/
theorem parseLength_of_digits {cs : List Char} (hne : cs ≠ []) (h : ∀ c ∈ cs, c.isDigit = true) :
    parseLength cs =
      if Nat.ofDigitChars 10 cs 0 < UInt64.size then .ok (UInt64.ofNat (Nat.ofDigitChars 10 cs 0))
      else .error .tooLarge := by
  have hfold := foldlM_lengthDigit h 0
  rw [UInt64.toNat_zero] at hfold
  rw [← hfold]
  unfold parseLength
  split
  · exact absurd rfl hne
  · exact absurd (h '+' List.mem_cons_self) (by decide)
  · exact absurd (h '+' List.mem_cons_self) (by decide)
  · rfl

theorem parseLength_toDigits (n : Nat) :
    parseLength (Nat.toDigits 10 n) =
      if n < UInt64.size then .ok (UInt64.ofNat n) else .error .tooLarge := by
  rw [parseLength_of_digits Nat.toDigits_ne_nil fun _ => Json.isDigit_of_mem_toDigits,
    Nat.ofDigitChars_ten_toDigits]

theorem Line.ofBytes_encode (cs : List Char) : Line.ofBytes (Utf8.encode cs) = Line.ofChars cs := by
  rw [Line.ofBytes, Utf8.decode?_encode]

def lengthLine (n : Nat) : List Char := lengthName ++ ' ' :: (Nat.toDigits 10 n ++ ['\r'])

theorem newline_notMem_lengthLine (n : Nat) : '\n' ∉ lengthLine n := by
  simp only [lengthLine, List.mem_append, List.mem_cons, List.not_mem_nil, or_false, not_or]
  refine ⟨by decide, by decide, fun h => ?_, by decide⟩
  exact absurd (Json.isDigit_of_mem_toDigits h) (by decide)

theorem header_eq (n : Nat) : header n = lengthLine n ++ '\n' :: ['\r', '\n'] := by
  simp [header, lengthLine, Json.printNat]

/-- A line with a length in digits, and with blanks after them. -/
theorem Line.ofChars_length {ds : List Char} (after : List Char) (hne : ds ≠ [])
    (hds : ∀ c ∈ ds, c.isDigit = true) (hafter : ∀ c ∈ after, isBlank c = true) :
    Line.ofChars (lengthName ++ ' ' :: (ds ++ after)) =
      match parseLength ds with
      | .ok n => .ok (.contentLength n)
      | .error e => .error (malformed s!"invalid Content-Length: {e.message}") := by
  have hname : lengthName = 'C' :: lengthName.tail := rfl
  have hlast : ∀ c, ds.getLast? = some c → isBlank c = false := fun c hc =>
    isBlank_of_isDigit (hds c (List.mem_of_getLast? hc))
  have hline : trim (lengthName ++ ' ' :: (ds ++ after)) = lengthName ++ ' ' :: ds := by
    have hhead : ∀ c, (lengthName ++ ' ' :: ds).head? = some c → isBlank c = false := by
      intro c hc
      rw [hname, List.cons_append, List.head?_cons] at hc
      rw [← Option.some.inj hc]
      decide
    have hend : ∀ c, (lengthName ++ ' ' :: ds).getLast? = some c → isBlank c = false := by
      intro c hc
      rw [List.getLast?_append_of_ne_nil _ (by simp), List.getLast?_cons_of_ne_nil hne] at hc
      exact hlast c hc
    have htrim := trim_append [] after (by simp) hafter hhead hend (by simp)
    rwa [List.nil_append, List.append_assoc, List.cons_append] at htrim
  have hdigits : trim (' ' :: ds) = ds := by
    have htrim := trim_append [' '] [] (fun c hc => by rw [List.mem_singleton.1 hc]; rfl) (by simp)
      (fun c hc => isBlank_of_isDigit (hds c (List.mem_of_head? hc))) hlast hne
    rwa [List.append_nil] at htrim
  have hprefix : lengthName.isPrefixOf (lengthName ++ ' ' :: ds) = true :=
    List.isPrefixOf_iff_prefix.2 (List.prefix_append _ _)
  simp only [Line.ofChars, hline, hprefix, if_true, List.drop_left, hdigits]
  exact if_neg (by simp)

theorem Line.ofChars_lengthLine (n : Nat) :
    Line.ofChars (lengthLine n) =
      if n < UInt64.size then .ok (.contentLength (UInt64.ofNat n))
      else .error (malformed s!"invalid Content-Length: {LengthFault.tooLarge.message}") := by
  rw [lengthLine, Line.ofChars_length ['\r'] Nat.toDigits_ne_nil
    (fun _ => Json.isDigit_of_mem_toDigits) (fun c hc => by rw [List.mem_singleton.1 hc]; rfl),
    parseLength_toDigits]
  by_cases hn : n < UInt64.size
  · rw [if_pos hn, if_pos hn]
  · rw [if_neg hn, if_neg hn]

namespace HeaderScan

/-- A scan takes the octets of a line one by one. -/
theorem run_append (closed : Bool) (s : HeaderScan) {bs : List UInt8} (h : 10 ∉ bs) (rest : List UInt8) :
    run closed s (bs ++ rest) = run closed { s with line := bs.reverse ++ s.line } rest := by
  induction bs generalizing s with
  | nil => rfl
  | cons b bs ih =>
    have hb : b ≠ 10 := fun hb => h (hb ▸ List.mem_cons_self)
    rw [List.cons_append, run, if_neg hb, ih _ fun hmem => h (List.mem_cons_of_mem b hmem),
      List.reverse_cons, List.append_assoc, List.singleton_append]

/-- A whole line of text at the front of a stream. -/
theorem run_line (closed : Bool) {s : HeaderScan} (hs : s.line = []) {cs : List Char} (h : '\n' ∉ cs)
    (rest : List UInt8) :
    run closed s (Utf8.encode cs ++ 10 :: rest) =
      match Line.ofChars cs with
      | .error e => .failed e
      | .ok .blank => .complete s.length rest
      | .ok (.contentLength n) => run closed { started := true, length := some n } rest
      | .ok .other => run closed { started := true, length := s.length } rest := by
  rw [run_append closed s (newline_notMem_encode h), run, if_pos rfl, endLine]
  dsimp only
  rw [hs, List.append_nil, List.reverse_reverse, Line.ofBytes_encode]
  cases Line.ofChars cs with
  | error e => rfl
  | ok line => cases line <;> rfl

end HeaderScan

/-- The header of a frame is read up to its end and says the length that was written, if that fits. -/
theorem run_header (closed : Bool) (n : Nat) (rest : List UInt8) :
    HeaderScan.run closed {} (Utf8.encode (header n) ++ rest) =
      if n < UInt64.size then .complete (some (UInt64.ofNat n)) rest
      else .failed (malformed s!"invalid Content-Length: {LengthFault.tooLarge.message}") := by
  have hbytes : Utf8.encode (header n) ++ rest =
      Utf8.encode (lengthLine n) ++ 10 :: (Utf8.encode ['\r'] ++ 10 :: rest) := by
    rw [header_eq, Utf8.encode_append, List.append_assoc]
    rfl
  have hblank : Line.ofChars ['\r'] = .ok .blank := rfl
  rw [hbytes, HeaderScan.run_line closed rfl (newline_notMem_lengthLine n), Line.ofChars_lengthLine]
  by_cases hn : n < UInt64.size
  · rw [if_pos hn, if_pos hn]
    dsimp only
    rw [HeaderScan.run_line closed rfl (by decide), hblank]
  · rw [if_neg hn, if_neg hn]

end Frame
end EditSync
