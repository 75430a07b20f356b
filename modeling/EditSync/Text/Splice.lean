import EditSync.Text.Delta

/-! Applying deltas to a text. Positions are given in characters and turned into positions in the
UTF-8 form, where the cut is made; a delta that does not fit leaves the text as it is. -/

namespace EditSync.Text

/-- Length of the UTF-8 form. -/
def byteLength : List Char → Nat
  | [] => 0
  | c :: cs => c.utf8Size + byteLength cs

/-- Where the `n`-th of these characters starts, if the first one starts at `start`. -/
def charStart (start : Nat) : List Char → Nat → Option Nat
  | [], _ => none
  | _ :: _, 0 => some start
  | c :: cs, n + 1 => charStart (start + c.utf8Size) cs n

/-- Where the `n`-th character starts in the UTF-8 form; the end of the text counts as a start. -/
def byteOffset (content : String) (n : Nat) : Option Nat :=
  if n = 0 then some 0
  else
    match charStart 0 content.toList n with
    | some start => some start
    -- No character starts at the end, which is told from what lies behind it by the count alone.
    | none => if content.length = n then some (byteLength content.toList) else none

/-- Cuts a text at a position in its UTF-8 form, which has to lie between two characters. -/
def cutAt : Nat → List Char → Option (List Char × List Char)
  | 0, cs => some ([], cs)
  | _ + 1, [] => none
  | n + 1, c :: cs =>
    if c.utf8Size ≤ n + 1 then (cutAt (n + 1 - c.utf8Size) cs).map fun p => (c :: p.1, p.2) else none
termination_by structural _ cs => cs

/-- Puts `text` in the place of the bytes from `start` to `stop`, two cuts in this order. -/
def replaceBytes (content : String) (start stop : Nat) (text : String) : Option String := do
  let (head, rest) ← cutAt start content.toList
  if stop < start then none else
    let (_, tail) ← cutAt (stop - start) rest
    some (String.ofList (head ++ text.toList ++ tail))

/-- A delta that does not fit the content it was meant for. -/
structure OutOfRange where
  offset : Nat
  length : Nat
  contentLength : Nat
  deriving DecidableEq, Repr, Inhabited

def OutOfRange.message (e : OutOfRange) : String :=
  s!"edit at {e.offset} (+{e.length}) outside content of {e.contentLength} chars"

namespace Delta

/-- The bytes of `content` that the delta replaces. -/
def byteRange (d : Delta) (content : String) : Option (Nat × Nat) := do
  let start ← byteOffset content d.offset.toNat
  let stop ← byteOffset content (d.offset.toNat + d.removed)
  some (start, stop)

def apply (d : Delta) (content : String) : Except OutOfRange String :=
  match d.byteRange content with
  | none => .error ⟨d.offset.toNat, d.length, content.length⟩
  | some (start, stop) =>
    match replaceBytes content start stop d.inserted with
    | some next => .ok next
    | none => .error ⟨d.offset.toNat, d.length, content.length⟩

/-- Applies deltas one after the other and stops at the first that does not fit. -/
def applyAll (content : String) (ds : List Delta) : Except OutOfRange String :=
  ds.foldlM (fun c d => d.apply c) content

end Delta
end EditSync.Text
