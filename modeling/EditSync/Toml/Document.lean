import EditSync.Table
import EditSync.Toml.Scalar

/-! What the lines of a TOML text build. Every line adds to a tree of tables; a table may be spread over
several lines, but no name is given twice and no table is defined twice. -/

namespace EditSync.Toml

/-- How a table came to be. -/
inductive Origin where
  /-- By a header of its own. -/
  | header
  /-- By a header of some table in it. -/
  | path
  /-- By a dotted name. -/
  | dotted
  deriving DecidableEq, Repr, Inhabited

inductive Node where
  /-- A value, to which nothing can be added. -/
  | value (v : Value)
  | table (origin : Origin) (members : List (String × Node))
  /-- Tables under one name, of which the last can be added to. -/
  | tables (last : List (String × Node))
  deriving Inhabited, Repr

abbrev Members := List (String × Node)

namespace Members

/-- Changes the table at the end of a path and makes the tables on the way. A dotted name cannot lead
through a table that has a header of its own. -/
def modifyAt (dotted : Bool) (change : Origin → Members → Option Members) :
    List String → Origin → Members → Option Members
  | [], origin, ms => change origin ms
  | name :: path, _, ms =>
    match ms.lookup name with
    | none => do
      let made := if dotted then .dotted else .path
      let inner ← modifyAt dotted change path made []
      some (assign name (.table made inner) ms)
    | some (.table origin inner) =>
      if dotted && origin = .header then none
      else do
        let inner ← modifyAt dotted change path origin inner
        some (assign name (.table origin inner) ms)
    | some (.tables last) => do
      let last ← modifyAt dotted change path .header last
      some (assign name (.tables last) ms)
    | some (.value _) => none

/-- Adds a new name to a table. A dotted name can only add to a table that dotted names made. -/
def add (isDotted : Bool) (name : String) (n : Node) (origin : Origin) (ms : Members) : Option Members :=
  if decide (origin = .dotted) = isDotted ∧ ms.lookup name = none then some (assign name n ms) else none

/-- Gives a value to the name at the end of a path. -/
def insert (path : List String) (name : String) (v : Value) (origin : Origin) (ms : Members) :
    Option Members :=
  modifyAt true (add (path ≠ []) name (.value v)) path origin ms

/-- Begins the table of a header. -/
def openTable (name : String) (_ : Origin) (ms : Members) : Option Members :=
  match ms.lookup name with
  | none => some (assign name (.table .header []) ms)
  | some (.table .path inner) => some (assign name (.table .header inner) ms)
  | _ => none

/-- Begins one more table under a name. -/
def appendTable (name : String) (_ : Origin) (ms : Members) : Option Members :=
  match ms.lookup name with
  | none | some (.tables _) => some (assign name (.tables []) ms)
  | _ => none

end Members

/-- What the lines so far have built. -/
structure Document where
  root : Members := []
  /-- The table that lines add to. -/
  here : List String := []
  deriving Inhabited, Repr

namespace Document

def header (d : Document) (path : List String) (name : String) : Option Document :=
  (Members.modifyAt false (Members.openTable name) path .header d.root).map fun root =>
    ⟨root, path ++ [name]⟩

def arrayHeader (d : Document) (path : List String) (name : String) : Option Document :=
  (Members.modifyAt false (Members.appendTable name) path .header d.root).map fun root =>
    ⟨root, path ++ [name]⟩

def insert (d : Document) (path : List String) (name : String) (v : Value) : Option Document :=
  (Members.modifyAt false (Members.insert path name v) d.here .header d.root).map fun root =>
    { d with root }

/-- The value of a name outside all tables; a table is a value like any other. -/
def value? (d : Document) (name : String) : Option Value :=
  (d.root.lookup name).map fun
    | .value v => v
    | _ => .other

end Document
end EditSync.Toml
