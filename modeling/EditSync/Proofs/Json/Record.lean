import EditSync.Json.Record
import EditSync.Proofs.Json.Reader
import Mathlib.Data.List.Forall2
import Mathlib.Data.List.Induction
import Mathlib.Data.List.Nodup

/-! The forms in which a record is accepted. An object may hold the fields in any order, with members
that the record does not know between them; an array lists them in their order. Of either, fields that
hold their default may be left out, of the array only the last ones. What is written is one of the forms,
and can be printed and read as text. -/

namespace EditSync.Json

variable {α : Type} {read : Json → Option α} {form : α → Json → Prop}

def Accepts (read : Json → Option α) (form : α → Json → Prop) : Prop :=
  ∀ v a, read v = some a ↔ form a v

def written (write : α → Json) (a : α) (v : Json) : Prop := v = write a

theorem written_self (write : α → Json) (a : α) : written write a (write a) := rfl

def listed (form : α → Json → Prop) (as : List α) (v : Json) : Prop :=
  ∃ items, v = .arr items ∧ List.Forall₂ form as items

theorem accepts_string : Accepts string? (written .str) := by
  intro v a
  cases v <;> simp [string?, written]

theorem accepts_bool : Accepts bool? (written .bool) := by
  intro v a
  cases v <;> simp [bool?, written]

theorem accepts_word : Accepts word? (written word) := by
  intro v a
  cases v with
  | int n =>
    have hlt := a.toNat_lt
    rw [word?, written, word, Json.int.injEq]
    split
    · next hn =>
      have hof : (UInt64.ofNat n.toNat).toNat = n.toNat :=
        UInt64.toNat_ofNat_of_lt (by have := hn.2; rw [UInt64.size] at *; omega)
      rw [Option.some.injEq, ← UInt64.toNat_inj, hof]
      omega
    · next hn =>
      rw [UInt64.size] at hn
      exact iff_of_false (Option.some_ne_none a).symm (by omega)
  | _ => simp [word?, written, word]

theorem accepts_int32 : Accepts int32? (written fun n => .int n.toInt) := by
  intro v a
  cases v with
  | int n =>
    have hlt : ∀ m : Int, m ≤ Int32.maxValue.toInt → m < 2 ^ 31 := fun m hm => by
      rw [show Int32.maxValue.toInt = 2 ^ 31 - 1 from rfl] at hm
      omega
    rw [int32?, written, Json.int.injEq]
    split
    · next hn =>
      rw [Option.some.injEq, ← Int32.toInt_inj, Int32.toInt_ofInt_of_le hn.1 (hlt n hn.2), eq_comm]
    · next hn =>
      exact iff_of_false (Option.some_ne_none a).symm fun h =>
        hn (h ▸ ⟨Int32.le_toInt a, Int32.toInt_le a⟩)
  | _ => simp [int32?, written]

theorem accepts_list (h : Accepts read form) : Accepts (list? read) (listed form) := by
  have hitems : ∀ items as, items.mapM read = some as ↔ List.Forall₂ form as items := by
    intro items
    induction items with
    | nil => intro as; cases as <;> simp
    | cons v items ih =>
      intro as
      cases as with
      | nil => simp [List.mapM_cons, Option.bind_eq_some_iff]
      | cons a as => simp [List.mapM_cons, ih, h v, Option.bind_eq_some_iff]
  intro v as
  cases v <;> simp [list?, items?, listed, hitems]

theorem listed_map {write : α → Json} (h : ∀ a, form a (write a)) (as : List α) :
    listed form as (.arr (as.map write)) :=
  ⟨_, rfl, List.forall₂_map_right_iff.2 (List.forall₂_same.2 fun a _ => h a)⟩

/-- What may stand for a field: some values under its name, or nothing if it may be missing. -/
structure FieldForm where
  name : String
  value : Json → Prop
  missing : Prop

namespace FieldForm

variable {name : String} {a : α} {fs : Fields}

def Stands (f : FieldForm) (v : Option Json) : Prop := v.elim f.missing f.value

def In (f : FieldForm) (fs : Fields) : Prop := f.Stands (fs.lookup f.name)

def needed (name : String) (a : α) (form : α → Json → Prop) : FieldForm := ⟨name, form a, False⟩

def defaulted (name : String) (a default : α) (form : α → Json → Prop) : FieldForm :=
  ⟨name, form a, a = default⟩

def nullable (name : String) (o : Option α) (form : α → Json → Prop) : FieldForm :=
  ⟨name, fun v => o.elim (v = .null) (form · v), o = none⟩

theorem in_needed (h : Accepts read form) :
    (needed name a form).In fs ↔ fs.need name read = some a := by
  rw [Fields.need, In, needed]
  cases fs.lookup name with
  | none => exact iff_of_false id nofun
  | some v => exact (h v a).symm

theorem in_defaulted (h : Accepts read form) (default : α) :
    (defaulted name a default form).In fs ↔ fs.orElse name default read = some a := by
  rw [Fields.orElse, In, defaulted]
  cases fs.lookup name with
  | none => exact eq_comm.trans Option.some_inj.symm
  | some v => exact (h v a).symm

theorem in_nullable (h : Accepts read form) (hnull : read .null = none) (o : Option α) :
    (nullable name o form).In fs ↔ fs.maybe name read = some o := by
  have hform : ∀ a, ¬ form a .null := fun a ha => by simp [(h .null a).2 ha] at hnull
  rw [Fields.maybe, In, nullable]
  split
  · next hl => rw [hl]; exact eq_comm.trans Option.some_inj.symm
  · next hl => rw [hl]; cases o <;> simp [Stands, hform]
  · next v hv hl =>
    have hne : v ≠ .null := hv
    rw [hl]
    cases o <;> simp [Stands, hne, ← h v]

end FieldForm

inductive Form (fields : List FieldForm) : Json → Prop
  | object {members : List (String × Json)}
      (h : ∀ f ∈ fields, f.In members) : Form fields (.obj members)
  | array {items : List Json} (hlen : items.length ≤ fields.length)
      (h : ∀ i (hi : i < fields.length), fields[i].Stands items[i]?) : Form fields (.arr items)

/-- Under the name of the `i`-th field stands the `i`-th item. -/
theorem lookup_zip {names : List String} (hnames : names.Nodup) (items : List Json) (i : Nat)
    (hi : i < names.length) : (names.zip items).lookup names[i] = items[i]? := by
  induction names generalizing items i with
  | nil => exact absurd hi (Nat.not_lt_zero i)
  | cons name names ih =>
    obtain ⟨hname, hnames⟩ := List.nodup_cons.1 hnames
    cases items with
    | nil => rfl
    | cons v items =>
      cases i with
      | zero => simp
      | succ i =>
        have hi' : i < names.length := Nat.lt_of_succ_lt_succ hi
        have hne : names[i] ≠ name := fun he => hname (he ▸ List.getElem_mem hi')
        have hbeq : (names[i] == name) = false := beq_false_of_ne hne
        simpa [List.lookup_cons, hbeq] using ih hnames items i hi'

variable {fields : List FieldForm} {members : List (String × Json)}

/-- The forms are what the fields are read from. -/
theorem form_iff (hnames : (fields.map (·.name)).Nodup) (v : Json) :
    Form fields v ↔ ∃ fs, fields? (fields.map (·.name)) v = some fs ∧
      ∀ f ∈ fields, f.In fs := by
  have hzip : ∀ (items : List Json) i (hi : i < fields.length),
      ((fields.map (·.name)).zip items).lookup fields[i].name = items[i]? := by
    intro items i hi
    have hget := lookup_zip hnames items i (by simpa using hi)
    rwa [List.getElem_map] at hget
  constructor
  · rintro (h | ⟨hlen, h⟩)
    · exact ⟨_, rfl, h⟩
    · refine ⟨_, if_pos (by simpa using hlen), fun f hf => ?_⟩
      obtain ⟨i, hi, rfl⟩ := List.getElem_of_mem hf
      rw [FieldForm.In, hzip _ i hi]
      exact h i hi
  · rintro ⟨fs, hfs, h⟩
    cases v with
    | obj members => cases hfs; exact .object h
    | arr items =>
      rw [fields?] at hfs
      split at hfs
      · next hlen =>
        cases hfs
        refine .array (by simpa using hlen) fun i hi => ?_
        rw [← hzip items i hi]
        exact h _ (List.getElem_mem hi)
      · cases hfs
    | _ => cases hfs

/-- A record is accepted in its forms if it is built from fields of which each is one of its own. -/
theorem accepts_record {names : List String} {build : Fields → Option α} {fields : α → List FieldForm}
    (hread : ∀ v, read v = (fields? names v).bind build) (hnames : names.Nodup)
    (hfields : ∀ a, (fields a).map (·.name) = names)
    (hbuild : ∀ fs a, build fs = some a ↔ (fields a).Forall (·.In fs)) :
    Accepts read fun a => Form (fields a) := by
  intro v a
  show _ ↔ Form (fields a) v
  rw [form_iff (hfields a ▸ hnames), hfields, hread, Option.bind_eq_some_iff]
  simp only [hbuild, List.forall_iff_forall_mem]

/-- The members of an object are found under their names. Of two with one name it is the later. -/
theorem lookup_members (members : List (String × Json)) (k : String) :
    (members.foldl (fun ms m => insertMember m.1 m.2 ms) []).lookup k = members.reverse.lookup k := by
  induction members using List.reverseRecOn with
  | nil => rfl
  | append_singleton members m ih =>
    rw [List.foldl_append, List.reverse_append, List.foldl_cons, List.foldl_nil, lookup_insertMember, ih]
    obtain ⟨name, v⟩ := m
    by_cases hk : k = name
    · simp [hk]
    · have : (k == name) = false := by simpa using hk
      simp [hk, List.lookup_cons, this]

namespace Form

theorem of_written (h : ∀ f ∈ fields, f.In members.reverse) :
    Form fields (Json.object members) :=
  .object fun f hf => by rw [FieldForm.In, lookup_members]; exact h f hf

theorem insertMember (h : Form fields (.obj members)) {name : String}
    (hname : ∀ f ∈ fields, f.name ≠ name) (v : Json) :
    Form fields (.obj (Json.insertMember name v members)) := by
  cases h with
  | object h =>
    refine .object fun f hf => ?_
    rw [FieldForm.In, lookup_insertMember, if_neg (hname f hf)]
    exact h f hf

theorem without (h : Form fields (.obj members)) {name : String}
    (hname : ∀ f ∈ fields, f.name = name → f.missing) :
    Form fields (.obj (members.filter (·.1 ≠ name))) := by
  cases h with
  | object h =>
    refine .object fun f hf => ?_
    rw [FieldForm.In, Table.lookup_filter_ne]
    split
    · next hn => exact hname f hf hn
    · exact h f hf

theorem of_forall₂ {items : List Json} (h : List.Forall₂ FieldForm.value fields items) :
    Form fields (.arr items) := by
  refine .array (Nat.le_of_eq h.length_eq.symm) fun i hi => ?_
  rw [List.getElem?_eq_getElem (h.length_eq ▸ hi)]
  exact (List.forall₂_iff_get.1 h).2 i hi (h.length_eq ▸ hi)

end Form

/-- A value that can be printed and is nested no deeper than this. -/
structure Legible (depth : Nat) (v : Json) : Prop where
  wellFormed : v.WellFormed
  shallow : v.depth ≤ depth

namespace Legible

variable {d : Nat} {write : α → Json}

theorem str (s : String) : Legible d (.str s) := ⟨.str s, Nat.zero_le d⟩

theorem bool (b : Bool) : Legible d (.bool b) := ⟨.bool b, Nat.zero_le d⟩

theorem word (n : UInt64) : Legible d (Json.word n) := by
  have hlt := n.toNat_lt
  exact ⟨.int (by omega) (by omega), Nat.zero_le d⟩

theorem int32 (n : Int32) : Legible d (.int n.toInt) := by
  have hle := Int32.le_toInt n
  have hlt := Int32.toInt_lt n
  exact ⟨.int (by omega) (by omega), Nat.zero_le d⟩

theorem ofOption (h : ∀ a, Legible d (write a)) (o : Option α) : Legible d (Json.ofOption write o) := by
  cases o with
  | none => exact ⟨.null, Nat.zero_le d⟩
  | some a => exact h a

theorem arr (h : ∀ a, Legible d (write a)) (as : List α) : Legible (d + 1) (.arr (as.map write)) := by
  refine ⟨.arr (List.forall_mem_map.2 fun a _ => (h a).wellFormed), Nat.succ_le_succ ?_⟩
  induction as with
  | nil => exact Nat.zero_le d
  | cons a as ih => exact Nat.max_le.2 ⟨(h a).shallow, ih⟩

theorem depthMembers_insertMember {name : String} {v : Json} (hv : v.depth ≤ d)
    {ms : List (String × Json)} (hms : depth.depthMembers ms ≤ d) :
    depth.depthMembers (Json.insertMember name v ms) ≤ d := by
  induction ms with
  | nil => exact Nat.max_le.2 ⟨hv, hms⟩
  | cons m ms ih =>
    obtain ⟨hm, hrest⟩ := Nat.max_le.1 hms
    rw [Json.insertMember]
    split
    · exact Nat.max_le.2 ⟨hv, hms⟩
    · split
      · exact Nat.max_le.2 ⟨hv, hrest⟩
      · exact Nat.max_le.2 ⟨hm, ih hrest⟩

theorem object (h : ∀ m ∈ members, Legible d m.2) : Legible (d + 1) (Json.object members) := by
  refine ⟨.object fun m hm => (h m hm).wellFormed, Nat.succ_le_succ ?_⟩
  induction members using List.reverseRecOn with
  | nil => exact Nat.zero_le d
  | append_singleton members m ih =>
    rw [List.foldl_append, List.foldl_cons, List.foldl_nil]
    obtain ⟨hbefore, hm⟩ := List.forall_mem_append.1 h
    exact depthMembers_insertMember (hm m List.mem_cons_self).shallow (ih hbefore)

end Legible

/-- A record is read back from its text and from every form of it. -/
structure ReadBack (read : Json → Option α) (write : α → Json) (fields : α → List FieldForm) : Prop where
  written (a : α) : read (write a) = some a
  /-- So it is when it was printed. -/
  printed (a : α) : (parseChars? (print (write a) [])).bind read = some a
  /-- A member that the record does not know does not count. -/
  extended {a : α} {members : List (String × Json)} {name : String} :
    read (.obj members) = some a → (∀ f ∈ fields a, f.name ≠ name) →
      ∀ v, read (.obj (insertMember name v members)) = some a
  /-- A field that holds its default may be left out. -/
  shortened {a : α} {members : List (String × Json)} {name : String} :
    read (.obj members) = some a → (∀ f ∈ fields a, f.name = name → f.missing) →
      read (.obj (members.filter (·.1 ≠ name))) = some a
  /-- The fields may be listed in their order. -/
  positional {a : α} {items : List Json} :
    List.Forall₂ FieldForm.value (fields a) items → read (.arr items) = some a
  /-- There are no other forms than these. -/
  accepted : Accepts read fun a => Form (fields a)

theorem Accepts.readBack {write : α → Json} {fields : α → List FieldForm}
    (h : Accepts read fun a => Form (fields a)) (hwrite : ∀ a, Form (fields a) (write a))
    (hlegible : ∀ a, Legible maxDepth (write a)) : ReadBack read write fields where
  written a := (h _ a).2 (hwrite a)
  printed a := by
    rw [parseChars?_print (hlegible a).wellFormed, if_pos (hlegible a).shallow]
    exact (h _ a).2 (hwrite a)
  extended hread hname v := (h _ _).2 (((h _ _).1 hread).insertMember hname v)
  shortened hread hname := (h _ _).2 (((h _ _).1 hread).without hname)
  positional hitems := (h _ _).2 (.of_forall₂ hitems)
  accepted := h

end EditSync.Json
