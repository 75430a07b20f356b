import EditSync.Json.Basic

/-! The compact form of JSON: no blanks, members by increasing name, and a character escaped only
where it has to be. Each printer takes the text that follows, so that printing is one pass. -/

namespace EditSync.Json

/-- The letter that stands for `c` after a backslash. -/
def shortEscape? (c : Char) : Option Char :=
  match c with
  | '"' => some '"'
  | '\\' => some '\\'
  | '\x08' => some 'b'
  | '\x0c' => some 'f'
  | '\n' => some 'n'
  | '\r' => some 'r'
  | '\t' => some 't'
  | _ => none

def hexDigit (n : Nat) : Char :=
  if n < 10 then Char.ofNat (0x30 + n) else Char.ofNat (0x61 + (n - 10))

def printChar (c : Char) (rest : List Char) : List Char :=
  match shortEscape? c with
  | some e => '\\' :: e :: rest
  | none =>
    if c.toNat < 0x20 then
      '\\' :: 'u' :: '0' :: '0' :: hexDigit (c.toNat / 16) :: hexDigit (c.toNat % 16) :: rest
    else c :: rest

def printChars : List Char → List Char → List Char
  | [], rest => '"' :: rest
  | c :: cs, rest => printChar c (printChars cs rest)

def printString (s : String) (rest : List Char) : List Char := '"' :: printChars s.toList rest

def printNat (n : Nat) (rest : List Char) : List Char := Nat.toDigits 10 n ++ rest

def printInt (n : Int) (rest : List Char) : List Char :=
  if n < 0 then '-' :: printNat n.natAbs rest else printNat n.natAbs rest

mutual

def print : Json → List Char → List Char
  | .null, rest => 'n' :: 'u' :: 'l' :: 'l' :: rest
  | .bool true, rest => 't' :: 'r' :: 'u' :: 'e' :: rest
  | .bool false, rest => 'f' :: 'a' :: 'l' :: 's' :: 'e' :: rest
  | .int n, rest => printInt n rest
  | .decimal negative digits exponent, rest =>
    let number := printNat digits ('e' :: printInt exponent rest)
    if negative then '-' :: number else number
  | .str s, rest => printString s rest
  | .arr [], rest => '[' :: ']' :: rest
  | .arr (v :: vs), rest => '[' :: print v (printItems vs rest)
  | .obj [], rest => '\x7b' :: '\x7d' :: rest
  | .obj (m :: ms), rest => '\x7b' :: printString m.1 (':' :: print m.2 (printMembers ms rest))

/-- The further items of an array and its end. -/
def printItems : List Json → List Char → List Char
  | [], rest => ']' :: rest
  | v :: vs, rest => ',' :: print v (printItems vs rest)

/-- The further members of an object and its end. -/
def printMembers : List (String × Json) → List Char → List Char
  | [], rest => '\x7d' :: rest
  | m :: ms, rest => ',' :: printString m.1 (':' :: print m.2 (printMembers ms rest))

end

def compress (v : Json) : String := String.ofList (print v [])

end EditSync.Json
