import EditSync.Decimal
import EditSync.Json.Basic

/-! Numbers as JSON writes them. A whole number is kept exactly while it fits into 64 bits; any
other is kept as digits and a power of ten, and refused when no finite double is near it. -/

namespace EditSync.Json

open Decimal

/-- Reads `.` and digits, if the text goes on so. -/
def fraction? : List Char → Option (List Char × List Char)
  | '.' :: cs =>
    let digits := cs.takeWhile Char.isDigit
    if digits = [] then none else some (digits, cs.dropWhile Char.isDigit)
  | cs => some ([], cs)

/-- Reads the digits of an exponent, which have to be the rest of the number. -/
def exponentDigits? (cs : List Char) : Option Nat :=
  if cs ≠ [] && cs.all Char.isDigit then some (ofDigits cs) else none

/-- Reads the exponent, if there is one. -/
def exponent? : List Char → Option Int
  | [] => some 0
  | c :: cs =>
    if c = 'e' ∨ c = 'E' then
      match cs with
      | '+' :: rest => (exponentDigits? rest).map Int.ofNat
      | '-' :: rest => (exponentDigits? rest).map fun n => -(n : Int)
      | rest => (exponentDigits? rest).map Int.ofNat
    else none

def decimal? (negative : Bool) (digits : Nat) (exponent : Int) : Option Json :=
  if overflows digits exponent then none else some (.decimal negative digits exponent)

/-- A number without point and exponent. -/
def whole? (negative : Bool) (n : Nat) : Option Json :=
  if negative then
    if n ≠ 0 ∧ n ≤ UInt64.size / 2 then some (.int (-(n : Int))) else decimal? true n 0
  else if n < UInt64.size then some (.int n)
  else decimal? false n 0

def unsigned? (negative : Bool) (cs : List Char) : Option Json := do
  let digits := cs.takeWhile Char.isDigit
  let rest := cs.dropWhile Char.isDigit
  if digits = [] ∨ (digits.head? = some '0' ∧ digits ≠ ['0']) then none
  else if rest = [] then whole? negative (ofDigits digits)
  else
    let (places, rest) ← fraction? rest
    let exponent ← exponent? rest
    decimal? negative (ofDigits (digits ++ places)) (exponent - places.length)

def number? : List Char → Option Json
  | '-' :: cs => unsigned? true cs
  | cs => unsigned? false cs

end EditSync.Json
