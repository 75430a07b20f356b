/-! Edits of a text. An editor reports `offset`, how many characters it removed there and what it
put in their place; both ends of a connection split that into the same deltas, so that they cannot
disagree on how a replacement is applied. Offsets and lengths count characters. -/

namespace EditSync.Text

/-- A change as an editor reports it. -/
structure Edit where
  offset : UInt64
  removed : UInt64
  text : Option String := none
  deriving DecidableEq, Repr, Inhabited

inductive Delta where
  | insert (offset : UInt64) (text : String)
  /-- Takes away `count` characters from `offset` on. -/
  | remove (offset count : UInt64)
  deriving DecidableEq, Repr, Inhabited

namespace Delta

def offset : Delta → UInt64
  | insert offset _ => offset
  | remove offset _ => offset

/-- How many characters are inserted or removed. -/
def length : Delta → Nat
  | insert _ text => text.length
  | remove _ count => count.toNat

def isEmpty (d : Delta) : Bool := d.length = 0

def text : Delta → Option String
  | insert _ text => some text
  | remove _ _ => none

/-- How many characters of the old content are taken away. -/
def removed : Delta → Nat
  | insert _ _ => 0
  | remove _ count => count.toNat

/-- What stands in their place. -/
def inserted : Delta → String
  | insert _ text => text
  | remove _ _ => ""

end Delta

namespace Edit

/-- The deltas of an edit in the order of their application: a replacement removes first, an
insertion only inserts, and an edit without text is one removal, even of nothing. -/
def deltas (e : Edit) : List Delta :=
  match e.text.filter (· ≠ "") with
  | none => [.remove e.offset e.removed]
  | some text =>
    if e.removed = 0 then [.insert e.offset text]
    else [.remove e.offset e.removed, .insert e.offset text]

end Edit
end EditSync.Text
