import EditSync.Toml.Document
import EditSync.Toml.Quoted

/-! Reading TOML 1.0. A text is a list of lines, each with a header, with a name and its value, or with
nothing but a comment; only a string or an array goes on over several lines. -/

namespace EditSync.Toml

def isBlank (c : Char) : Bool := c = ' ' || c = '\t'

def skipBlanks (cs : List Char) : List Char := cs.dropWhile isBlank

/-- Reads the end of a line. The end of the text is one too. -/
def lineEnd? : List Char → Option (List Char)
  | [] => some []
  | '\n' :: rest => some rest
  | '\r' :: '\n' :: rest => some rest
  | _ => none

def isCommentChar (c : Char) : Bool := !isControl c && c ≠ '\n'

/-- Drops a comment, up to the end of its line. -/
def skipComment : List Char → List Char
  | '#' :: cs => cs.dropWhile isCommentChar
  | cs => cs

/-- Reads what may stand behind the contents of a line. -/
def finishLine? (cs : List Char) : Option (List Char) := lineEnd? (skipComment (skipBlanks cs))

def isBareChar (c : Char) : Bool := c.isAlphanum || c = '-' || c = '_'

/-- Reads a name, which is bare or a string on one line. -/
def simpleName? (cs : List Char) : Option (String × List Char) :=
  let bare := cs.takeWhile isBareChar
  if bare ≠ [] then some (.ofList bare, cs.dropWhile isBareChar)
  else (readOneLine? cs).map fun p => (.ofList p.1, p.2)

/-- Reads names with at most `fuel` dots between them. -/
def nameWith? (fuel : Nat) (cs : List Char) : Option (List String × String × List Char) := do
  let (first, rest) ← simpleName? (skipBlanks cs)
  match fuel with
  | 0 => some ([], first, skipBlanks rest)
  | fuel + 1 =>
    match skipBlanks rest with
    | '.' :: more =>
      let (path, last, rest) ← nameWith? fuel more
      some (first :: path, last, rest)
    | rest => some ([], first, rest)

/-- Reads names with dots between them: those on the way, the last one, and the rest. -/
def name? (cs : List Char) : Option (List String × String × List Char) := nameWith? cs.length cs

/-- Arrays and inline tables may be nested this deeply. -/
def maxDepth : Nat := 80

/-- Skips blanks, comments and at most `fuel` ends of lines. -/
def skipLinesWith (fuel : Nat) (cs : List Char) : List Char :=
  match fuel, skipComment (skipBlanks cs) with
  | fuel + 1, '\n' :: rest => skipLinesWith fuel rest
  | fuel + 1, '\r' :: '\n' :: rest => skipLinesWith fuel rest
  | _, rest => rest

def skipLines (cs : List Char) : List Char := skipLinesWith cs.length cs

mutual

/-- Reads a value inside `depth` arrays and inline tables. -/
def value? (fuel depth : Nat) (cs : List Char) : Option (Value × List Char) :=
  match fuel with
  | 0 => none
  | fuel + 1 =>
    match cs with
    | '[' :: rest => if depth < maxDepth then (items? fuel (depth + 1) rest).map (.other, ·) else none
    | '\x7b' :: rest =>
      if depth < maxDepth then
        match skipBlanks rest with
        | '\x7d' :: rest => some (.other, rest)
        | rest => (members? fuel (depth + 1) [] rest).map (.other, ·)
      else none
    | _ =>
      match readQuoted? cs with
      | some (text, rest) => some (.text (.ofList text), rest)
      | none =>
        let (chars, rest) := takeScalar cs
        (scalarValue? chars).map (·, rest)

/-- Reads the items of an array and its end. -/
def items? (fuel depth : Nat) (cs : List Char) : Option (List Char) :=
  match fuel with
  | 0 => none
  | fuel + 1 => do
    match skipLines cs with
    | ']' :: rest => some rest
    | cs =>
      let (_, rest) ← value? fuel depth cs
      match skipLines rest with
      | ',' :: rest => items? fuel depth rest
      | ']' :: rest => some rest
      | _ => none

/-- Reads the members of an inline table and its end. -/
def members? (fuel depth : Nat) (ms : Members) (cs : List Char) : Option (List Char) :=
  match fuel with
  | 0 => none
  | fuel + 1 => do
    let (path, name, rest) ← name? cs
    match rest with
    | '=' :: rest =>
      let (v, rest) ← value? fuel depth (skipBlanks rest)
      let ms ← Members.insert path name v .header ms
      match skipBlanks rest with
      | ',' :: rest => members? fuel depth ms rest
      | '\x7d' :: rest => some rest
      | _ => none
    | _ => none

end

/-- Reads one line. -/
def line? (d : Document) (cs : List Char) : Option (Document × List Char) :=
  match skipBlanks cs with
  | '[' :: '[' :: rest => do
    let (path, name, rest) ← name? rest
    match rest with
    | ']' :: ']' :: rest => some (← d.arrayHeader path name, ← finishLine? rest)
    | _ => none
  | '[' :: rest => do
    let (path, name, rest) ← name? rest
    match rest with
    | ']' :: rest => some (← d.header path name, ← finishLine? rest)
    | _ => none
  | cs =>
    match finishLine? cs with
    | some rest => some (d, rest)
    | none => do
      let (path, name, rest) ← name? cs
      match rest with
      | '=' :: rest =>
        let (v, rest) ← value? (cs.length + 1) 0 (skipBlanks rest)
        some (← d.insert path name v, ← finishLine? rest)
      | _ => none

def lines? (fuel : Nat) (d : Document) (cs : List Char) : Option Document :=
  match fuel, cs with
  | _, [] => some d
  | 0, _ => none
  | fuel + 1, cs => do
    let (d, rest) ← line? d cs
    lines? fuel d rest

def byteOrderMark : Char := '\uFEFF'

/-- Reads a text, which may begin with a byte order mark. -/
def parse? (text : String) : Option Document :=
  let cs := text.toList
  let cs := if cs.head? = some byteOrderMark then cs.drop 1 else cs
  lines? cs.length {} cs

end EditSync.Toml
