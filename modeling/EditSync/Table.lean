/-! Tables: values under distinct text keys, in the order the keys were first set. Every open
editor, every working copy and every handler is found through one, and what an operation does
is stated through `get?` alone. -/

namespace EditSync

universe u v

/-- Sets the value of `k`, in place when it has one and at the end otherwise. -/
def assign {α : Type u} (k : String) (a : α) : List (String × α) → List (String × α)
  | [] => [(k, a)]
  | e :: rest => if e.1 = k then (k, a) :: rest else e :: assign k a rest

theorem map_fst_assign {α : Type u} (k : String) (a : α) (l : List (String × α)) :
    (assign k a l).map Prod.fst = if k ∈ l.map Prod.fst then l.map Prod.fst else l.map Prod.fst ++ [k] := by
  induction l with
  | nil => simp [assign]
  | cons e rest ih =>
    by_cases h : e.1 = k
    · simp [assign, h]
    · have h' : ¬ k = e.1 := fun hk => h hk.symm
      simp only [assign, if_neg h, List.map_cons, ih, List.mem_cons, h', false_or]
      split <;> simp

theorem lookup_assign {α : Type u} (k : String) (a : α) (l : List (String × α)) (j : String) :
    (assign k a l).lookup j = if j = k then some a else l.lookup j := by
  induction l with
  | nil =>
    by_cases h : j = k
    · simp [assign, h]
    · have : (j == k) = false := by simpa using h
      simp [assign, List.lookup_cons, h, this]
  | cons e rest ih =>
    obtain ⟨e1, e2⟩ := e
    by_cases h : e1 = k
    · subst h
      by_cases hj : j = e1
      · simp [assign, hj]
      · have : (j == e1) = false := by simpa using hj
        simp [assign, List.lookup_cons, hj, this]
    · by_cases hj : j = k
      · subst hj
        have : (j == e1) = false := by simpa using fun he => h he.symm
        simp [assign, h, List.lookup_cons, ih, this]
      · simp [assign, h, List.lookup_cons, ih, hj]

structure Table (α : Type u) where
  entries : List (String × α)
  nodup : (entries.map Prod.fst).Nodup

namespace Table

variable {α : Type u} {β : Type v}

def empty : Table α := ⟨[], List.nodup_nil⟩

instance : Inhabited (Table α) := ⟨empty⟩

def get? (t : Table α) (k : String) : Option α := t.entries.lookup k

def contains (t : Table α) (k : String) : Bool := (t.get? k).isSome

def size (t : Table α) : Nat := t.entries.length

def isEmpty (t : Table α) : Bool := t.entries.isEmpty

def keys (t : Table α) : List String := t.entries.map Prod.fst

def set (t : Table α) (k : String) (a : α) : Table α where
  entries := assign k a t.entries
  nodup := by
    rw [map_fst_assign]
    split
    · exact t.nodup
    · next h => exact List.nodup_append.2 ⟨t.nodup, by simp, by
        intro x hx y hy
        rw [List.mem_singleton] at hy
        exact fun e => h (hy ▸ e ▸ hx)⟩

/-- Keeps the entries that `p` accepts. -/
def filter (t : Table α) (p : String → α → Bool) : Table α where
  entries := t.entries.filter fun e => p e.1 e.2
  nodup := t.nodup.sublist (List.filter_sublist.map Prod.fst)

def erase (t : Table α) (k : String) : Table α := t.filter fun j _ => j ≠ k

/-- Replaces every value, leaving the keys as they are. -/
def mapValues (t : Table α) (f : String → α → β) : Table β where
  entries := t.entries.map fun e => (e.1, f e.1 e.2)
  nodup := by
    have : (t.entries.map fun e => (e.1, f e.1 e.2)).map Prod.fst = t.entries.map Prod.fst := by
      simp
    rw [this]
    exact t.nodup

/-- Replaces the value of `k`, if it has one. -/
def modify (t : Table α) (k : String) (f : α → α) : Table α :=
  match t.get? k with
  | some a => t.set k (f a)
  | none => t

def ofList (l : List (String × α)) : Table α := l.foldl (fun t e => t.set e.1 e.2) empty

@[simp] theorem get?_empty (k : String) : (empty : Table α).get? k = none := rfl

theorem get?_set (t : Table α) (k : String) (a : α) (j : String) :
    (t.set k a).get? j = if j = k then some a else t.get? j :=
  lookup_assign k a t.entries j

@[simp] theorem get?_set_self (t : Table α) (k : String) (a : α) : (t.set k a).get? k = some a := by
  simp [get?_set]

theorem get?_set_ne (t : Table α) {k j : String} (a : α) (h : j ≠ k) :
    (t.set k a).get? j = t.get? j := by
  simp [get?_set, h]

theorem lookup_filter_ne (k j : String) (l : List (String × α)) :
    (l.filter fun e => decide (e.1 ≠ k)).lookup j = if j = k then none else l.lookup j := by
  induction l with
  | nil => simp
  | cons e rest ih =>
    obtain ⟨e1, e2⟩ := e
    by_cases hk : e1 = k
    · subst hk
      by_cases hj : j = e1
      · simpa [hj] using ih
      · have : (j == e1) = false := by simpa using hj
        simpa [List.lookup_cons, hj, this] using ih
    · by_cases hj : j = k
      · subst hj
        have : (j == e1) = false := by simpa using fun he => hk he.symm
        simpa [hk, List.lookup_cons, this] using ih
      · simp only [ne_eq, decide_not, List.filter_cons, hk, decide_false, Bool.not_false, if_true,
          List.lookup_cons]
        simp only [ne_eq, decide_not] at ih
        split
        · simp [hj]
        · exact ih

theorem get?_erase (t : Table α) (k j : String) :
    (t.erase k).get? j = if j = k then none else t.get? j :=
  lookup_filter_ne k j t.entries

@[simp] theorem get?_erase_self (t : Table α) (k : String) : (t.erase k).get? k = none := by
  simp [get?_erase]

theorem get?_erase_ne (t : Table α) {k j : String} (h : j ≠ k) : (t.erase k).get? j = t.get? j := by
  simp [get?_erase, h]

theorem get?_mapValues (t : Table α) (f : String → α → β) (k : String) :
    (t.mapValues f).get? k = (t.get? k).map (f k) := by
  obtain ⟨l, hl⟩ := t
  simp only [get?, mapValues]
  clear hl
  induction l with
  | nil => rfl
  | cons e rest ih =>
    obtain ⟨e1, e2⟩ := e
    by_cases h : k = e1
    · subst h; simp
    · have : (k == e1) = false := by simpa using h
      simpa [List.lookup_cons, this] using ih

theorem mem_keys (t : Table α) (k : String) : k ∈ t.keys ↔ (t.get? k).isSome := by
  obtain ⟨l, hl⟩ := t
  simp only [keys, get?]
  clear hl
  induction l with
  | nil => simp
  | cons e rest ih =>
    obtain ⟨e1, e2⟩ := e
    by_cases h : k = e1
    · subst h; simp
    · have : (k == e1) = false := by simpa using h
      simp [List.lookup_cons, this, h, ← ih]

theorem keys_set (t : Table α) (k : String) (a : α) :
    (t.set k a).keys = if k ∈ t.keys then t.keys else t.keys ++ [k] :=
  map_fst_assign k a t.entries

theorem keys_erase (t : Table α) (k : String) : (t.erase k).keys = t.keys.erase k := by
  have hnodup : t.keys.Nodup := t.nodup
  rw [hnodup.erase_eq_filter, keys, keys, List.filter_map]
  exact congrArg (List.map Prod.fst) (List.filter_congr fun _ _ => decide_not)

theorem size_eq (t : Table α) : t.size = t.keys.length := (List.length_map _).symm

theorem contains_eq (t : Table α) (k : String) : t.contains k = (t.get? k).isSome := rfl

theorem size_set (t : Table α) (k : String) (a : α) :
    (t.set k a).size = t.size + if t.contains k then 0 else 1 := by
  have hmem := t.mem_keys k
  rw [size_eq, size_eq, keys_set, contains_eq]
  by_cases hk : k ∈ t.keys
  · rw [if_pos hk, if_pos (hmem.1 hk), Nat.add_zero]
  · rw [if_neg hk, if_neg (hk ∘ hmem.2), List.length_append, List.length_singleton]

theorem size_erase (t : Table α) (k : String) :
    (t.erase k).size + (if t.contains k then 1 else 0) = t.size := by
  have hmem := t.mem_keys k
  rw [size_eq, size_eq, keys_erase, contains_eq]
  by_cases hk : k ∈ t.keys
  · rw [if_pos (hmem.1 hk), List.length_erase_of_mem hk, Nat.sub_add_cancel (List.length_pos_of_mem hk)]
  · rw [if_neg (hk ∘ hmem.2), List.erase_of_not_mem hk, Nat.add_zero]

theorem get?_modify (t : Table α) (k : String) (f : α → α) (j : String) :
    (t.modify k f).get? j = if j = k then (t.get? k).map f else t.get? j := by
  unfold modify
  cases h : t.get? k with
  | none =>
    by_cases hj : j = k
    · simp [hj, h]
    · simp [hj]
  | some a => simp [get?_set]

theorem lookup_filter {p : String → α → Bool} {l : List (String × α)}
    (hl : (l.map Prod.fst).Nodup) (k : String) :
    (l.filter fun e => p e.1 e.2).lookup k = (l.lookup k).filter (p k) := by
  induction l with
  | nil => rfl
  | cons e rest ih =>
    obtain ⟨e1, e2⟩ := e
    rw [List.map_cons, List.nodup_cons] at hl
    by_cases h : k = e1
    · subst h
      have hrest : rest.lookup k = none := by
        rw [List.lookup_eq_none_iff]
        intro x hx
        have hmem : x.1 ∈ rest.map Prod.fst := List.mem_map_of_mem hx
        have : k ≠ x.1 := fun he => hl.1 (he ▸ hmem)
        simpa using this
      cases hp : p k e2
      · simp [hp, ih hl.2, hrest, Option.filter]
      · simp [hp, Option.filter]
    · have hne : (k == e1) = false := by simpa using h
      rw [List.lookup_cons, hne, ← ih hl.2, List.filter_cons]
      split
      · rw [List.lookup_cons, hne]
      · rfl

theorem get?_filter (t : Table α) (p : String → α → Bool) (k : String) :
    (t.filter p).get? k = (t.get? k).filter (p k) :=
  lookup_filter t.nodup k

end Table
end EditSync
