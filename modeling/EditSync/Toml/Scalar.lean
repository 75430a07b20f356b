import EditSync.Decimal

/-! Numbers, truth values and dates in TOML. All of them are written without blanks, except that one space
may stand between a date and its time. -/

namespace EditSync.Toml

open Decimal

/-- A value, as far as settings look at it. -/
inductive Value where
  | text (s : String)
  | integer (n : Int)
  | truth (b : Bool)
  /-- A float, a date, an array or an inline table. -/
  | other
  deriving DecidableEq, Repr, Inhabited

/-- The digits of a number, which single underscores may separate. -/
def digits? (isDigit : Char → Bool) : List Char → Option (List Char)
  | [] => none
  | c :: rest =>
    if isDigit c then
      match rest with
      | [] => some [c]
      | '_' :: more => (digits? isDigit more).map (c :: ·)
      | more => (digits? isDigit more).map (c :: ·)
    else none

/-- Decimal digits of which the first is zero only if it is alone. -/
def wholeDigits? (cs : List Char) : Option (List Char) :=
  (digits? Char.isDigit cs).filter fun ds => ds.head? ≠ some '0' || ds.length = 1

/-- The sign of a number and what follows it. -/
def signed : List Char → Bool × List Char
  | '-' :: cs => (true, cs)
  | '+' :: cs => (false, cs)
  | cs => (false, cs)

/-- Integers are held in 128 bits, signed or unsigned. -/
def fitsInteger (n : Int) : Bool := -(Nat.pow 2 127 : Nat) ≤ n && n < (Nat.pow 2 128 : Nat)

def ofBase (base : Nat) (ds : List Char) : Nat :=
  ds.foldl (fun n c => base * n + (hexValue? c).getD 0) 0

/-- Whether a character is a digit of the base. -/
def isDigitOf (base : Nat) (c : Char) : Bool := (hexValue? c).any (· < base)

def integer? (cs : List Char) : Option Int :=
  let based (base : Nat) (ds : List Char) : Option Int :=
    (digits? (isDigitOf base) ds).map fun ds => (ofBase base ds : Int)
  let n : Option Int :=
    match cs with
    | '0' :: 'x' :: ds => based 16 ds
    | '0' :: 'o' :: ds => based 8 ds
    | '0' :: 'b' :: ds => based 2 ds
    | _ =>
      let (negative, ds) := signed cs
      (wholeDigits? ds).map fun ds => if negative then -(ofDigits ds : Int) else ofDigits ds
  n.filter fitsInteger

/-- The exponent of a float: a letter, a sign and digits. -/
def exponent? : List Char → Option Int
  | [] => some 0
  | c :: cs =>
    if c = 'e' ∨ c = 'E' then
      let (negative, ds) := signed cs
      (digits? Char.isDigit ds).map fun ds => if negative then -(ofDigits ds : Int) else ofDigits ds
    else none

def isPlace (c : Char) : Bool := c.isDigit || c = '_'

/-- The digits behind the point of a float and what follows them. -/
def places? : List Char → Option (List Char × List Char)
  | '.' :: cs => (digits? Char.isDigit (cs.takeWhile isPlace)).map fun ds => (ds, cs.dropWhile isPlace)
  | cs => some ([], cs)

/-- Whether this is a float that some finite double is near to, or one that says to be no such. -/
def isFloat (cs : List Char) : Bool :=
  let (_, cs) := signed cs
  if cs = ['i', 'n', 'f'] || cs = ['n', 'a', 'n'] then true
  else
    let rest := cs.dropWhile isPlace
    let finite : Option Bool := do
      let whole ← wholeDigits? (cs.takeWhile isPlace)
      let (places, rest) ← places? rest
      let exponent ← exponent? rest
      some (!overflows (ofDigits (whole ++ places)) (exponent - places.length))
    rest ≠ [] && finite.getD false

/-- The number of two digits. -/
def pair? (a b : Char) : Option Nat :=
  if a.isDigit && b.isDigit then some (ofDigits [a, b]) else none

def daysIn (year month : Nat) : Nat :=
  if month = 2 then if year % 4 = 0 ∧ (year % 100 ≠ 0 ∨ year % 400 = 0) then 29 else 28
  else if month = 4 ∨ month = 6 ∨ month = 9 ∨ month = 11 then 30
  else 31

/-- Reads a date of the calendar. -/
def date? : List Char → Option (List Char)
  | y1 :: y2 :: y3 :: y4 :: '-' :: m1 :: m2 :: '-' :: d1 :: d2 :: rest => do
    let century ← pair? y1 y2
    let year ← pair? y3 y4
    let month ← pair? m1 m2
    let day ← pair? d1 d2
    if 1 ≤ month ∧ month ≤ 12 ∧ 1 ≤ day ∧ day ≤ daysIn (100 * century + year) month then some rest
    else none
  | _ => none

/-- Reads a time of day, which may be a leap second and may have a fraction. -/
def time? : List Char → Option (List Char)
  | h1 :: h2 :: ':' :: m1 :: m2 :: ':' :: s1 :: s2 :: rest => do
    let hour ← pair? h1 h2
    let minute ← pair? m1 m2
    let second ← pair? s1 s2
    if hour < 24 ∧ minute < 60 ∧ second ≤ 60 then
      match rest with
      | '.' :: places =>
        if places.takeWhile Char.isDigit = [] then none else some (places.dropWhile Char.isDigit)
      | _ => some rest
    else none
  | _ => none

/-- Whether this is the distance of a time from that of Greenwich. -/
def isZone : List Char → Bool
  | [c] => c = 'Z' || c = 'z'
  | [s, h1, h2, ':', m1, m2] =>
    (s = '+' || s = '-') && (pair? h1 h2).any (· < 24) && (pair? m1 m2).any (· < 60)
  | _ => false

/-- Whether this is a date, a time, or both with or without a zone. -/
def isDateTime (cs : List Char) : Bool :=
  match date? cs with
  | some [] => true
  | some (c :: rest) =>
    (c = 'T' || c = 't' || c = ' ') && (time? rest).any fun zone => zone = [] || isZone zone
  | none => time? cs = some []

/-- The value that characters without a quote or bracket spell. -/
def scalarValue? (cs : List Char) : Option Value :=
  if cs = ['t', 'r', 'u', 'e'] then some (.truth true)
  else if cs = ['f', 'a', 'l', 's', 'e'] then some (.truth false)
  else match integer? cs with
    | some n => some (.integer n)
    | none => if isFloat cs || isDateTime cs then some .other else none

def isScalarChar (c : Char) : Bool :=
  c.isAlphanum || c = '+' || c = '-' || c = '_' || c = '.' || c = ':'

/-- Takes the characters of a scalar: up to the first that belongs to none, but past the space between a
date and its time. -/
def takeScalar (cs : List Char) : List Char × List Char :=
  let first := cs.takeWhile isScalarChar
  let rest := cs.dropWhile isScalarChar
  match date? first, rest with
  | some [], ' ' :: c :: more =>
    if c.isDigit then (first ++ ' ' :: (c :: more).takeWhile isScalarChar, (c :: more).dropWhile isScalarChar)
    else (first, rest)
  | _, _ => (first, rest)

end EditSync.Toml
