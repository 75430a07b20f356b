import EditSync.Table

/-! JSON values. An object lists its members by increasing name, each name once, which is how
`object` and the reader build it; two values are then equal exactly when they read alike. -/

namespace EditSync

inductive Json where
  | null
  | bool (value : Bool)
  /-- A number written without point or exponent that fits into 64 bits, signed or unsigned. -/
  | int (value : Int)
  /-- Any other number: `digits` times ten to the `exponent`. -/
  | decimal (negative : Bool) (digits : Nat) (exponent : Int)
  | str (value : String)
  | arr (items : List Json)
  | obj (members : List (String × Json))
  deriving Inhabited, Repr

namespace Json

/-- Sets a member and keeps the names in increasing order; an earlier value of the name is lost. -/
def insertMember (name : String) (v : Json) : List (String × Json) → List (String × Json)
  | [] => [(name, v)]
  | m :: rest =>
    if name < m.1 then (name, v) :: m :: rest
    else if name = m.1 then (name, v) :: rest
    else m :: insertMember name v rest

/-- The object with these members; of two with one name the later counts. -/
def object (members : List (String × Json)) : Json :=
  .obj (members.foldl (fun ms m => insertMember m.1 m.2 ms) [])

def nat (n : Nat) : Json := .int n

def word (n : UInt64) : Json := .int n.toNat

/-- The member of that name, if this is an object that has one. -/
def member? (v : Json) (name : String) : Option Json :=
  match v with
  | .obj members => members.lookup name
  | _ => none

def string? : Json → Option String
  | .str s => some s
  | _ => none

def bool? : Json → Option Bool
  | .bool b => some b
  | _ => none

/-- Numbers are whole only if they are written so. -/
def int? : Json → Option Int
  | .int n => some n
  | _ => none

def word? : Json → Option UInt64
  | .int n => if 0 ≤ n ∧ n < UInt64.size then some (UInt64.ofNat n.toNat) else none
  | _ => none

def int32? : Json → Option Int32
  | .int n => if Int32.minValue.toInt ≤ n ∧ n ≤ Int32.maxValue.toInt then some (Int32.ofInt n) else none
  | _ => none

def items? : Json → Option (List Json)
  | .arr items => some items
  | _ => none

/-- How deeply arrays and objects are nested in each other. -/
def depth : Json → Nat
  | .arr items => depthList items + 1
  | .obj members => depthMembers members + 1
  | _ => 0
where
  depthList : List Json → Nat
    | [] => 0
    | v :: rest => max (depth v) (depthList rest)
  depthMembers : List (String × Json) → Nat
    | [] => 0
    | m :: rest => max (depth m.2) (depthMembers rest)

end Json
end EditSync
