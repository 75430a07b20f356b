import EditSync.Json.Basic

/-! Records in JSON. A record is written as an object. It is read from an object as well, where
members that the record does not know do not count, or from an array that lists the fields in their
order, where fields with a default may be missing at the end. -/

namespace EditSync.Json

theorem lookup_insertMember (name : String) (v : Json) (ms : List (String × Json)) (k : String) :
    (insertMember name v ms).lookup k = if k = name then some v else ms.lookup k := by
  induction ms with
  | nil =>
    by_cases h : k = name
    · simp [insertMember, h]
    · have : (k == name) = false := by simpa using h
      simp [insertMember, List.lookup_cons, h, this]
  | cons m rest ih =>
    obtain ⟨n, w⟩ := m
    by_cases hk : k = name
    · subst hk
      by_cases hn : k = n
      · simp [insertMember, hn]
      · have : (k == n) = false := by simpa using hn
        simp only [insertMember, hn, if_false]
        split <;> simp [List.lookup_cons, this, ih]
    · have h : (k == name) = false := by simpa using hk
      simp only [insertMember, if_neg hk]
      split
      · simp [List.lookup_cons, h]
      · split
        · next hn => subst hn; simp [List.lookup_cons, h]
        · simp [List.lookup_cons, ih, hk]

abbrev Fields := List (String × Json)

/-- The fields of a record whose names, in order, are `names`. -/
def fields? (names : List String) : Json → Option Fields
  | .obj members => some members
  | .arr items => if items.length ≤ names.length then some (names.zip items) else none
  | _ => none

namespace Fields

variable {α : Type}

/-- A field that has to be there. -/
def need (fs : Fields) (name : String) (read : Json → Option α) : Option α :=
  (fs.lookup name).bind read

/-- A field that has the value `default` when it is missing. -/
def orElse (fs : Fields) (name : String) (default : α) (read : Json → Option α) : Option α :=
  match fs.lookup name with
  | none => some default
  | some v => read v

/-- A field that may be missing or null. -/
def maybe (fs : Fields) (name : String) (read : Json → Option α) : Option (Option α) :=
  match fs.lookup name with
  | none | some .null => some none
  | some v => (read v).map some

end Fields

/-- Reads every item of an array. -/
def list? {α : Type} (read : Json → Option α) (v : Json) : Option (List α) :=
  v.items?.bind (List.mapM read)

/-- The value of an optional field, or null. -/
def ofOption {α : Type} (write : α → Json) : Option α → Json
  | none => .null
  | some a => write a

/-- The member that an optional field is written as; no member when it has no value. -/
def optionalMember {α : Type} (name : String) (write : α → Json) : Option α → Fields
  | none => []
  | some a => [(name, write a)]

end EditSync.Json
