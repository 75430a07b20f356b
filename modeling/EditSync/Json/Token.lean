import EditSync.Json.Number

/-! Tokens of a JSON text. The lexer is one step per character: words and numbers end where a
character follows that cannot belong to them, strings at their closing quote. -/

namespace EditSync.Json

open Decimal

inductive Token where
  | openArray
  | closeArray
  | openObject
  | closeObject
  | comma
  | colon
  | text (value : String)
  /-- A number, a truth value or null. -/
  | scalar (value : Json)
  deriving Inhabited, Repr

/-- Inside which token the lexer stands; characters read so far come latest first. -/
inductive Scan where
  | outside
  | word (letters : List Char)
  | number (chars : List Char)
  | text (chars : List Char)
  | escape (chars : List Char)
  /-- After `\u` and `count` hexadecimal digits; `high` is the first half of a pair. -/
  | code (chars : List Char) (high : Option Nat) (value count : Nat)
  /-- After the first half of a pair, which only a second half may follow. -/
  | half (chars : List Char) (high : Nat)
  | halfEscape (chars : List Char) (high : Nat)
  deriving Inhabited, Repr

structure Lexer where
  /-- Latest first. -/
  tokens : List Token := []
  scan : Scan := .outside
  deriving Inhabited, Repr

def isSpace (c : Char) : Bool := c = ' ' || c = '\t' || c = '\n' || c = '\r'

def isWordChar (c : Char) : Bool := 'a' ≤ c && c ≤ 'z'

def isNumberChar (c : Char) : Bool :=
  c.isDigit || c = '-' || c = '+' || c = '.' || c = 'e' || c = 'E'

/-- The character that a letter after a backslash stands for. -/
def unescape? (c : Char) : Option Char :=
  match c with
  | '"' => some '"'
  | '\\' => some '\\'
  | '/' => some '/'
  | 'b' => some '\x08'
  | 'f' => some '\x0c'
  | 'n' => some '\n'
  | 'r' => some '\r'
  | 't' => some '\t'
  | _ => none

def wordToken? (letters : List Char) : Option Token :=
  if letters = ['n', 'u', 'l', 'l'] then some (.scalar .null)
  else if letters = ['t', 'r', 'u', 'e'] then some (.scalar (.bool true))
  else if letters = ['f', 'a', 'l', 's', 'e'] then some (.scalar (.bool false))
  else none

namespace Lexer

def emit (l : Lexer) (t : Token) : Lexer := ⟨t :: l.tokens, .outside⟩

/-- A character that starts a token or stands between tokens. -/
def start (l : Lexer) (c : Char) : Option Lexer :=
  if isSpace c then some { l with scan := .outside }
  else if c = '"' then some { l with scan := .text [] }
  else if c = '-' || c.isDigit then some { l with scan := .number [c] }
  else if isWordChar c then some { l with scan := .word [c] }
  else if c = '[' then some (l.emit .openArray)
  else if c = ']' then some (l.emit .closeArray)
  else if c = '\x7b' then some (l.emit .openObject)
  else if c = '\x7d' then some (l.emit .closeObject)
  else if c = ',' then some (l.emit .comma)
  else if c = ':' then some (l.emit .colon)
  else none

/-- The four digits after `\u` are read. -/
def codeUnit (l : Lexer) (chars : List Char) (high : Option Nat) (value : Nat) : Option Lexer :=
  match high with
  | none =>
    if 0xD800 ≤ value ∧ value < 0xDC00 then some { l with scan := .half chars value }
    else if 0xDC00 ≤ value ∧ value < 0xE000 then none
    else some { l with scan := .text (Char.ofNat value :: chars) }
  | some high =>
    if 0xDC00 ≤ value ∧ value < 0xE000 then
      let scalar := 0x10000 + (high - 0xD800) * 0x400 + (value - 0xDC00)
      some { l with scan := .text (Char.ofNat scalar :: chars) }
    else none

/-- Ends a word or a number; any other token ends by itself. -/
def flush (l : Lexer) : Option Lexer :=
  match l.scan with
  | .outside => some l
  | .word letters => (wordToken? letters.reverse).map l.emit
  | .number chars => (number? chars.reverse).map fun v => l.emit (.scalar v)
  | _ => none

def step (l : Lexer) (c : Char) : Option Lexer :=
  match l.scan with
  | .outside => l.start c
  | .word letters =>
    if isWordChar c then some { l with scan := .word (c :: letters) }
    else l.flush.bind fun l => l.start c
  | .number chars =>
    if isNumberChar c then some { l with scan := .number (c :: chars) }
    else l.flush.bind fun l => l.start c
  | .text chars =>
    if c = '"' then some (l.emit (.text (String.ofList chars.reverse)))
    else if c = '\\' then some { l with scan := .escape chars }
    else if c.toNat < 0x20 then none
    else some { l with scan := .text (c :: chars) }
  | .escape chars =>
    if c = 'u' then some { l with scan := .code chars none 0 0 }
    else (unescape? c).map fun e => { l with scan := .text (e :: chars) }
  | .code chars high value count =>
    (hexValue? c).bind fun d =>
      let value := 16 * value + d
      if count = 3 then l.codeUnit chars high value
      else some { l with scan := .code chars high value (count + 1) }
  | .half chars high => if c = '\\' then some { l with scan := .halfEscape chars high } else none
  | .halfEscape chars high =>
    if c = 'u' then some { l with scan := .code chars (some high) 0 0 } else none

end Lexer

/-- The tokens of a text, unless some part of it belongs to none. -/
def tokens? (cs : List Char) : Option (List Token) :=
  ((cs.foldlM Lexer.step {}).bind Lexer.flush).map fun l => l.tokens.reverse

end EditSync.Json
