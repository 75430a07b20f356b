import EditSync.Json.Token

/-! Reading JSON. The reader takes one token at a time and keeps the arrays and objects that are
still open on a stack, whose height is the depth that the limit bounds. -/

namespace EditSync.Json

/-- More nesting than this is refused. -/
def maxDepth : Nat := 127

/-- An array or object that is still open; items come latest first. -/
inductive Container where
  | array (items : List Json)
  | object (members : List (String × Json)) (name : String)
  deriving Inhabited, Repr

inductive Expect where
  /-- A value; `orEnd` right after an opening bracket. -/
  | value (orEnd : Bool)
  /-- A member name of an object that has `members` so far. -/
  | name (members : List (String × Json)) (orEnd : Bool)
  | colon (members : List (String × Json)) (name : String)
  /-- What follows a complete value. -/
  | next (value : Json)
  deriving Inhabited, Repr

structure Reader where
  /-- Innermost first. -/
  stack : List Container := []
  expect : Expect := .value false
  deriving Inhabited, Repr

namespace Reader

def complete (r : Reader) (v : Json) : Reader := { r with expect := .next v }

/-- Opens a container, unless that would nest too deeply. -/
def opened (r : Reader) (inner : Reader) : Option Reader :=
  if r.stack.length < maxDepth then some inner else none

def startValue (r : Reader) (orEnd : Bool) : Token → Option Reader
  | .text s => some (r.complete (.str s))
  | .scalar v => some (r.complete v)
  | .openArray => r.opened ⟨.array [] :: r.stack, .value true⟩
  | .openObject => r.opened { r with expect := .name [] true }
  | .closeArray =>
    match orEnd, r.stack with
    | true, .array _ :: outer => some ⟨outer, .next (.arr [])⟩
    | _, _ => none
  | _ => none

def afterValue (r : Reader) (v : Json) : Token → Option Reader
  | .comma =>
    match r.stack with
    | .array items :: outer => some ⟨.array (v :: items) :: outer, .value false⟩
    | .object members name :: outer => some ⟨outer, .name (insertMember name v members) false⟩
    | [] => none
  | .closeArray =>
    match r.stack with
    | .array items :: outer => some ⟨outer, .next (.arr (v :: items).reverse)⟩
    | _ => none
  | .closeObject =>
    match r.stack with
    | .object members name :: outer => some ⟨outer, .next (.obj (insertMember name v members))⟩
    | _ => none
  | _ => none

def step (r : Reader) (t : Token) : Option Reader :=
  match r.expect with
  | .value orEnd => r.startValue orEnd t
  | .name members orEnd =>
    match t with
    | .text name => some { r with expect := .colon members name }
    | .closeObject => if orEnd then some { r with expect := .next (.obj members) } else none
    | _ => none
  | .colon members name =>
    match t with
    | .colon => some ⟨.object members name :: r.stack, .value false⟩
    | _ => none
  | .next v => r.afterValue v t

/-- The value read, if nothing is left open. -/
def result? (r : Reader) : Option Json :=
  match r.stack, r.expect with
  | [], .next v => some v
  | _, _ => none

end Reader

def ofTokens? (ts : List Token) : Option Json := (ts.foldlM Reader.step {}).bind Reader.result?

def parseChars? (cs : List Char) : Option Json := (tokens? cs).bind ofTokens?

def parse? (s : String) : Option Json := parseChars? s.toList

end EditSync.Json
