import EditSync.Decimal

/-! Strings in TOML. There are four forms: on one line or over several, with escapes or without. A string
is read in whatever form it has, and written in the first form that needs no escape. -/

namespace EditSync.Toml

open Decimal

/-- A form of strings. -/
structure Style where
  quote : Char
  /-- Three quotes stand at each end, and line feeds may stand between them. -/
  lines : Bool
  escapes : Bool
  deriving DecidableEq, Repr, Inhabited

namespace Style

def basic : Style := ⟨'"', false, true⟩

def literal : Style := ⟨'\'', false, false⟩

def basicLines : Style := ⟨'"', true, true⟩

def literalLines : Style := ⟨'\'', true, false⟩

def delimiter (s : Style) : List Char := List.replicate (if s.lines then 3 else 1) s.quote

end Style

/-- Where in a string its reader stands. -/
inductive QuotedState where
  | plain
  /-- After so many quotes in a row, which may be the end. -/
  | quotes (n : Nat)
  | slash
  /-- Before the last `left` digits of a character given by its number. -/
  | code (left value : Nat)
  /-- After a slash at the end of a line; `crossed` once the line has ended. -/
  | fold (crossed : Bool)
  /-- After a carriage return, which a line feed has to follow. -/
  | carriage (folding : Bool)
  deriving DecidableEq, Repr, Inhabited

/-- What a character leads to. -/
inductive QuotedMove where
  | go (text : List Char) (next : QuotedState)
  /-- The string ends; the character is part of it or not. -/
  | stop (text : List Char) (inside : Bool)
  | fail
  deriving DecidableEq, Repr, Inhabited

def QuotedMove.after (text : List Char) : QuotedMove → QuotedMove
  | .go t next => .go (text ++ t) next
  | .stop t inside => .stop (text ++ t) inside
  | .fail => .fail

/-- A control character other than tab and line feed; it never stands for itself. -/
def isControl (c : Char) : Bool :=
  (c.toNat < 0x20 && c ≠ '\t' && c ≠ '\n') || c.toNat = 0x7F

/-- The character that a letter after a slash stands for. -/
def unescape? (c : Char) : Option Char :=
  match c with
  | 'b' => some '\x08'
  | 't' => some '\t'
  | 'n' => some '\n'
  | 'f' => some '\x0c'
  | 'r' => some '\r'
  | '"' => some '"'
  | '\\' => some '\\'
  | _ => none

/-- The character with a number that is one. -/
def scalar? (n : Nat) : Option Char :=
  if n < 0xD800 ∨ (0xE000 ≤ n ∧ n < 0x110000) then some (Char.ofNat n) else none

namespace QuotedState

def start (s : Style) (c : Char) : QuotedMove :=
  if c = s.quote then if s.lines then .go [] (.quotes 1) else .stop [] true
  else if c = '\\' ∧ s.escapes then .go [] .slash
  else if c = '\n' then if s.lines then .go [c] .plain else .fail
  else if c = '\r' then if s.lines then .go [] (.carriage false) else .fail
  else if isControl c then .fail
  else .go [c] .plain

def escape (s : Style) (c : Char) : QuotedMove :=
  match unescape? c with
  | some e => .go [e] .plain
  | none =>
    if c = 'u' then .go [] (.code 4 0)
    else if c = 'U' then .go [] (.code 8 0)
    else if !s.lines then .fail
    else if c = ' ' ∨ c = '\t' then .go [] (.fold false)
    else if c = '\n' then .go [] (.fold true)
    else if c = '\r' then .go [] (.carriage true)
    else .fail

def step (s : Style) (state : QuotedState) (c : Char) : QuotedMove :=
  match state with
  | .plain => start s c
  | .quotes n =>
    if c = s.quote then if n = 4 then .stop [s.quote, s.quote] true else .go [] (.quotes (n + 1))
    else if n < 3 then (start s c).after (List.replicate n s.quote)
    else .stop (List.replicate (n - 3) s.quote) false
  | .slash => escape s c
  | .code left value =>
    match hexValue? c with
    | none => .fail
    | some d =>
      if left = 1 then (scalar? (16 * value + d)).elim .fail fun e => .go [e] .plain
      else .go [] (.code (left - 1) (16 * value + d))
  | .fold crossed =>
    if c = ' ' ∨ c = '\t' then .go [] (.fold crossed)
    else if c = '\n' then .go [] (.fold true)
    else if c = '\r' then .go [] (.carriage true)
    else if crossed then start s c
    else .fail
  | .carriage folding =>
    if c = '\n' then if folding then .go [] (.fold true) else .go [c] .plain else .fail

/-- Reads the rest of a string, up to the end of its last quote. -/
def read (s : Style) : QuotedState → List Char → Option (List Char × List Char)
  | state, [] =>
    match state with
    | .quotes n => if 3 ≤ n then some (List.replicate (n - 3) s.quote, []) else none
    | _ => none
  | state, c :: rest =>
    match step s state c with
    | .fail => none
    | .stop text inside => some (text, if inside then rest else c :: rest)
    | .go text next => (read s next rest).map fun p => (text ++ p.1, p.2)

end QuotedState

/-- Drops the end of a line, if there is one. -/
def dropLineEnd : List Char → List Char
  | '\n' :: rest => rest
  | '\r' :: '\n' :: rest => rest
  | cs => cs

/-- Reads a string on one line. -/
def readOneLine? : List Char → Option (List Char × List Char)
  | [] => none
  | c :: rest =>
    if c = '"' then QuotedState.read .basic .plain rest
    else if c = '\'' then QuotedState.read .literal .plain rest
    else none

/-- Reads a string. Right after three quotes the end of a line does not count. -/
def readQuoted? (cs : List Char) : Option (List Char × List Char) :=
  if cs.take 3 = Style.basicLines.delimiter then
    QuotedState.read .basicLines .plain (dropLineEnd (cs.drop 3))
  else if cs.take 3 = Style.literalLines.delimiter then
    QuotedState.read .literalLines .plain (dropLineEnd (cs.drop 3))
  else readOneLine? cs

def hexDigit (n : Nat) : Char := if n < 10 then Char.ofNat (0x30 + n) else Char.ofNat (0x41 + (n - 10))

/-- How a character other than a quote stands in a form with escapes. -/
def escapeChar (c : Char) : List Char :=
  match c with
  | '\x08' => ['\\', 'b']
  | '\t' => ['\\', 't']
  | '\n' => ['\\', 'n']
  | '\x0c' => ['\\', 'f']
  | '\r' => ['\\', 'r']
  | '\\' => ['\\', '\\']
  | _ =>
    if isControl c then ['\\', 'u', '0', '0', hexDigit (c.toNat / 16), hexDigit (c.toNat % 16)]
    else [c]

/-- Writes characters of a form with escapes, after `run` quotes in a row. Over several lines a third
quote in a row is escaped, on one line each is. -/
def escapeAll (lines : Bool) (run : Nat) : List Char → List Char
  | [] => []
  | c :: cs =>
    if c = '"' then
      if lines && decide (run < 2) then c :: escapeAll lines (run + 1) cs
      else '\\' :: c :: escapeAll lines 0 cs
    else if c = '\n' ∧ lines then c :: escapeAll lines 0 cs
    else escapeChar c ++ escapeAll lines 0 cs

/-- Whether a character stands more than twice in a row, after `run` times. -/
def hasTriple (q : Char) (run : Nat) : List Char → Bool
  | [] => false
  | c :: cs => if c = q then run = 2 || hasTriple q (run + 1) cs else hasTriple q 0 cs

/-- The first form that can hold the text as it is, and else one with escapes. -/
def styleOf (cs : List Char) : Style :=
  let controls := cs.any isControl
  let lines := cs.contains '\n'
  if !controls && !cs.contains '\\' && !cs.contains '"' && !lines then .basic
  else if !controls && !cs.contains '\'' && !lines then .literal
  else if !controls && !cs.contains '\\' && !hasTriple '"' 0 cs then .basicLines
  else if !controls && !hasTriple '\'' 0 cs then .literalLines
  else if lines then .basicLines
  else .basic

/-- Writes a text in a form. Over several lines it begins on a line of its own. -/
def writeQuoted (s : Style) (cs : List Char) : List Char :=
  s.delimiter ++ (if s.lines ∧ cs.contains '\n' then ['\n'] else []) ++
    (if s.escapes then escapeAll s.lines 0 cs else cs) ++ s.delimiter

def quote (text : String) : String :=
  let cs := text.toList
  String.ofList (writeQuoted (styleOf cs) cs)

end EditSync.Toml
