import EditSync.Json.Number
import EditSync.Json.Printer
import Mathlib.Algebra.Ring.Int.Defs

/-! Numbers are read as they were written: whole ones as far as 64 bits reach, all others as their digits
and their power of ten. -/

namespace EditSync.Json

open Decimal

theorem ofDigits_toDigits (n : Nat) : ofDigits (Nat.toDigits 10 n) = n := by
  have h : Nat.ofDigitChars 10 (Nat.toDigits 10 n) 0 = n := Nat.ofDigitChars_ten_toDigits
  rwa [Nat.ofDigitChars_eq_foldl] at h

theorem isDigit_of_mem_toDigits {n : Nat} {c : Char} (h : c ∈ Nat.toDigits 10 n) : c.isDigit = true :=
  Nat.isDigit_of_mem_toDigits (by omega) (by omega) h

theorem exists_toDigits (n : Nat) : ∃ c cs, Nat.toDigits 10 n = c :: cs :=
  List.exists_cons_of_ne_nil Nat.toDigits_ne_nil

theorem head?_digitChar_ne : ∀ d < 10, 0 < d → [Nat.digitChar d].head? ≠ some '0' := by decide

/-- No number but zero begins with a zero. -/
theorem head?_toDigits_ne {n : Nat} (h : 0 < n) : (Nat.toDigits 10 n).head? ≠ some '0' := by
  induction n using Nat.strongRecOn with
  | ind n ih =>
    rcases Nat.lt_or_ge n 10 with hlt | hge
    · rw [Nat.toDigits_of_lt_base hlt]
      exact head?_digitChar_ne n hlt h
    · obtain ⟨c, cs, hc⟩ := exists_toDigits (n / 10)
      have hfront := ih (n / 10) (by omega) (by omega)
      rw [hc] at hfront
      rw [Nat.toDigits_of_base_le (by omega) hge, hc]
      exact hfront

/-- The digits of a number end where something else begins. -/
theorem span_toDigits (n : Nat) (cs : List Char) (h : cs.takeWhile Char.isDigit = []) :
    (Nat.toDigits 10 n ++ cs).takeWhile Char.isDigit = Nat.toDigits 10 n ∧
      (Nat.toDigits 10 n ++ cs).dropWhile Char.isDigit = cs := by
  have hdrop : cs.dropWhile Char.isDigit = cs := by
    have hsplit := List.takeWhile_append_dropWhile (p := Char.isDigit) (l := cs)
    rwa [h, List.nil_append] at hsplit
  rw [List.takeWhile_append_of_pos fun _ => isDigit_of_mem_toDigits,
    List.dropWhile_append_of_pos fun _ => isDigit_of_mem_toDigits, h, hdrop, List.append_nil]
  exact ⟨rfl, rfl⟩

/-- No digits that were written for a number are refused for a leading zero. -/
theorem toDigits_proper (n : Nat) :
    ¬(Nat.toDigits 10 n = [] ∨ (Nat.toDigits 10 n).head? = some '0' ∧ Nat.toDigits 10 n ≠ ['0']) := by
  rintro (hnil | ⟨hhead, hne⟩)
  · exact Nat.toDigits_ne_nil hnil
  · rcases Nat.eq_zero_or_pos n with rfl | hpos
    · exact hne rfl
    · exact head?_toDigits_ne hpos hhead

theorem unsigned?_toDigits (negative : Bool) (n : Nat) :
    unsigned? negative (Nat.toDigits 10 n) = whole? negative n := by
  obtain ⟨htake, hdrop⟩ := span_toDigits n [] rfl
  rw [List.append_nil] at htake hdrop
  simp only [unsigned?, htake, hdrop, if_neg (toDigits_proper n), if_true, ofDigits_toDigits]

/-- A number that begins with a digit has no sign. -/
theorem number?_toDigits (n : Nat) (cs : List Char) :
    number? (Nat.toDigits 10 n ++ cs) = unsigned? false (Nat.toDigits 10 n ++ cs) := by
  obtain ⟨c, ds, h⟩ := exists_toDigits n
  have hc : c.isDigit = true := isDigit_of_mem_toDigits (h ▸ List.mem_cons_self)
  have hne : c ≠ '-' := by rintro rfl; exact absurd hc (by decide)
  rw [h, List.cons_append, number?]
  exact fun rest heq => hne (List.cons.inj heq).1

theorem number?_printInt {n : Int} (low : -2 ^ 63 ≤ n) (high : n < 2 ^ 64) :
    number? (printInt n []) = some (.int n) := by
  by_cases hn : n < 0
  · have habs : n.natAbs ≠ 0 ∧ n.natAbs ≤ UInt64.size / 2 := by
      rw [UInt64.size]
      omega
    rw [printInt, if_pos hn, printNat, List.append_nil, number?, unsigned?_toDigits, whole?, if_pos rfl,
      if_pos habs]
    exact congrArg (some ∘ Json.int) (by omega)
  · have habs : n.natAbs < UInt64.size := by
      rw [UInt64.size]
      omega
    rw [printInt, if_neg hn, printNat, number?_toDigits, List.append_nil, unsigned?_toDigits, whole?,
      if_neg Bool.false_ne_true, if_pos habs]
    exact congrArg (some ∘ Json.int) (by omega)

theorem exponentDigits?_toDigits (n : Nat) : exponentDigits? (Nat.toDigits 10 n) = some n := by
  have hall : (Nat.toDigits 10 n).all Char.isDigit = true :=
    List.all_eq_true.2 fun _ hc => isDigit_of_mem_toDigits hc
  simp [exponentDigits?, Nat.toDigits_ne_nil, hall, ofDigits_toDigits]

theorem exponent?_printInt (e : Int) : exponent? ('e' :: printInt e []) = some e := by
  by_cases he : e < 0
  · have hprint : printInt e [] = '-' :: Nat.toDigits 10 e.natAbs := by
      rw [printInt, if_pos he, printNat, List.append_nil]
    simp only [hprint, exponent?, true_or, if_true, exponentDigits?_toDigits]
    exact congrArg some (show -(e.natAbs : Int) = e by omega)
  · have hprint : printInt e [] = Nat.toDigits 10 e.natAbs := by
      rw [printInt, if_neg he, printNat, List.append_nil]
    have hdigits := exponentDigits?_toDigits e.natAbs
    obtain ⟨c, ds, h⟩ := exists_toDigits e.natAbs
    have hc : c.isDigit = true := isDigit_of_mem_toDigits (h ▸ List.mem_cons_self)
    have hplus : c ≠ '+' := by rintro rfl; exact absurd hc (by decide)
    have hminus : c ≠ '-' := by rintro rfl; exact absurd hc (by decide)
    rw [h] at hdigits
    rw [hprint, h]
    simp only [exponent?, true_or, if_true]
    split
    · next heq => exact absurd (List.cons.inj heq).1 hplus
    · next heq => exact absurd (List.cons.inj heq).1 hminus
    · rw [hdigits, Option.map_some]
      exact congrArg some (show (e.natAbs : Int) = e by omega)

theorem unsigned?_decimal (negative : Bool) (digits : Nat) (exponent : Int) :
    unsigned? negative (Nat.toDigits 10 digits ++ 'e' :: printInt exponent []) =
      decimal? negative digits exponent := by
  obtain ⟨htake, hdrop⟩ := span_toDigits digits ('e' :: printInt exponent []) rfl
  have hfraction : fraction? ('e' :: printInt exponent []) = some ([], 'e' :: printInt exponent []) := rfl
  simp only [unsigned?, htake, hdrop, if_neg (toDigits_proper digits), reduceCtorEq, if_false, hfraction,
    Option.bind_eq_bind, Option.bind_some, exponent?_printInt, List.append_nil, ofDigits_toDigits,
    List.length_nil, Int.ofNat_zero, Int.sub_zero]

theorem number?_decimal {digits : Nat} {exponent : Int} (finite : overflows digits exponent = false)
    (negative : Bool) :
    number? (print (.decimal negative digits exponent) []) = some (.decimal negative digits exponent) := by
  have hread : decimal? negative digits exponent = some (.decimal negative digits exponent) := by
    rw [decimal?, if_neg (by simp [finite])]
  cases negative with
  | false =>
    rw [print, if_neg Bool.false_ne_true, printNat, number?_toDigits, unsigned?_decimal, hread]
  | true => rw [print, if_pos rfl, printNat, number?, unsigned?_decimal, hread]

end EditSync.Json
