import EditSync.Message.Basic
import EditSync.Proofs.Json.Record

/-! What an editor writes about its text and its files is read back as it was, and so is what the server
writes about its analyses and the contents that it needs. Each record is accepted in the forms of its
fields and in no other. -/

namespace EditSync

open Json FieldForm

namespace TextChange

def fields (c : TextChange) : List FieldForm :=
  [needed "offset" c.offset (written word), defaulted "length" c.length 0 (written word),
    defaulted "removedCharCount" c.removed 0 (written word), nullable "text" c.text (written .str),
    needed "fileLocation" c.location (written .str), needed "projectPath" c.project (written .str),
    defaulted "workingCopyOwnerID" c.owner "" (written .str),
    defaulted "resync" c.resync false (written .bool)]

theorem accepts : Accepts ofJson? fun c => Form c.fields := by
  refine accepts_record (fun _ => rfl) (by decide : fieldNames.Nodup) (fun _ => rfl) fun fs c => ?_
  obtain ⟨offset, length, removed, text, location, project, owner, resync⟩ := c
  simp only [fields, List.Forall, in_needed accepts_word, in_defaulted accepts_word,
    in_needed accepts_string, in_defaulted accepts_string, in_defaulted accepts_bool,
    in_nullable accepts_string rfl]
  simp only [Option.bind_eq_bind, Option.bind_eq_some_iff, Option.some.injEq, mk.injEq, ↓existsAndEq,
    and_true]

theorem form_toJson (c : TextChange) : Form c.fields c.toJson := by
  refine .of_written ?_
  cases hresync : c.resync <;> cases htext : c.text <;>
    simp [fields, needed, defaulted, nullable, FieldForm.In, Stands, written, ofOption, List.lookup_cons,
      hresync, htext]

theorem legible_toJson {d : Nat} (c : TextChange) : Legible (d + 1) c.toJson := by
  refine .object ?_
  cases c.resync <;> simp [Legible.str, Legible.bool, Legible.word, Legible.ofOption Legible.str]

theorem ofJson?_toJson (c : TextChange) : ofJson? c.toJson = some c := (accepts _ c).2 c.form_toJson

end TextChange

namespace FileAction

/-- An action is its name or the object that has only this name, without a value. -/
def Spelled (a : FileAction) (v : Json) : Prop := v = .str a.name ∨ v = .obj [(a.name, .null)]

theorem ofName?_eq_some {s : String} {a : FileAction} : ofName? s = some a ↔ s = a.name := by
  constructor
  · intro h
    rw [ofName?] at h
    have hname := List.find?_some h
    exact (of_decide_eq_true hname).symm
  · rintro rfl
    cases a <;> decide

theorem accepts : Accepts ofJson? Spelled := by
  intro v a
  rw [ofJson?.eq_def]
  split
  · simp [Spelled, ofName?_eq_some]
  · simp [Spelled, ofName?_eq_some]
  · next hstr hobj =>
    refine iff_of_false nofun ?_
    rintro (rfl | rfl)
    · exact hstr _ rfl
    · exact hobj _ rfl

end FileAction

namespace FileOperation

def fields (o : FileOperation) : List FieldForm :=
  [needed "type" o.action FileAction.Spelled, needed "path" o.path (written .str),
    nullable "oldPath" o.oldPath (written .str), nullable "projectPath" o.project (written .str)]

theorem accepts : Accepts ofJson? fun o => Form o.fields := by
  refine accepts_record (fun _ => rfl) (by decide : fieldNames.Nodup) (fun _ => rfl) fun fs o => ?_
  obtain ⟨action, path, oldPath, project⟩ := o
  simp only [fields, List.Forall, in_needed FileAction.accepts, in_needed accepts_string,
    in_nullable accepts_string rfl]
  simp only [Option.bind_eq_bind, Option.bind_eq_some_iff, Option.some.injEq, mk.injEq, ↓existsAndEq,
    and_true]

theorem form_toJson (o : FileOperation) : Form o.fields o.toJson := by
  refine .of_written ?_
  cases hold : o.oldPath <;> cases hproject : o.project <;>
    simp [fields, needed, nullable, FieldForm.In, Stands, written, FileAction.Spelled, optionalMember,
      List.lookup_cons, hold, hproject]

theorem legible_toJson {d : Nat} (o : FileOperation) : Legible (d + 1) o.toJson := by
  refine .object ?_
  cases o.oldPath <;> cases o.project <;> simp [optionalMember, Legible.str]

theorem ofJson?_toJson (o : FileOperation) : ofJson? o.toJson = some o := (accepts _ o).2 o.form_toJson

end FileOperation

namespace Problem

def fields (p : Problem) : List FieldForm :=
  [needed "message" p.message (written .str), defaulted "id" p.id 0 (written fun n => .int n.toInt),
    defaulted "error" p.error false (written .bool), defaulted "warning" p.warning false (written .bool),
    defaulted "sourceStart" p.start 0 (written word), defaulted "sourceEnd" p.stop 0 (written word),
    defaulted "sourceLineNumber" p.line 0 (written word),
    defaulted "arguments" p.arguments [] (listed (written .str)),
    defaulted "originatingFileName" p.fileName "" (written .str)]

theorem accepts : Accepts ofJson? fun p => Form p.fields := by
  refine accepts_record (fun _ => rfl) (by decide : fieldNames.Nodup) (fun _ => rfl) fun fs p => ?_
  obtain ⟨message, id, error, warning, start, stop, line, arguments, fileName⟩ := p
  simp only [fields, List.Forall, in_needed accepts_string, in_defaulted accepts_int32,
    in_defaulted accepts_bool, in_defaulted accepts_word, in_defaulted (accepts_list accepts_string),
    in_defaulted accepts_string]
  simp only [Option.bind_eq_bind, Option.bind_eq_some_iff, Option.some.injEq, mk.injEq, ↓existsAndEq,
    and_true]

theorem form_toJson (p : Problem) : Form p.fields p.toJson := by
  have harguments := listed_map (written_self .str) p.arguments
  refine .of_written ?_
  simp [fields, needed, defaulted, FieldForm.In, Stands, written, List.lookup_cons, harguments]

theorem legible_toJson {d : Nat} (p : Problem) : Legible (d + 2) p.toJson := by
  refine .object ?_
  simp [Legible.str, Legible.bool, Legible.word, Legible.int32, Legible.arr Legible.str]

end Problem

namespace Highlight

def fields (h : Highlight) : List FieldForm :=
  [needed "offset" h.offset (written word), needed "length" h.length (written word),
    needed "kind" h.kind (written .str)]

theorem accepts : Accepts ofJson? fun h => Form h.fields := by
  refine accepts_record (fun _ => rfl) (by decide : fieldNames.Nodup) (fun _ => rfl) fun fs h => ?_
  obtain ⟨offset, length, kind⟩ := h
  simp only [fields, List.Forall, in_needed accepts_word, in_needed accepts_string]
  simp only [Option.bind_eq_bind, Option.bind_eq_some_iff, Option.some.injEq, mk.injEq, ↓existsAndEq,
    and_true]

theorem form_toJson (h : Highlight) : Form h.fields h.toJson := by
  refine .of_written ?_
  simp [fields, needed, FieldForm.In, Stands, written, List.lookup_cons]

theorem legible_toJson {d : Nat} (h : Highlight) : Legible (d + 1) h.toJson := by
  refine .object ?_
  simp [Legible.str, Legible.word]

end Highlight

namespace ReconcileResult

def fields (r : ReconcileResult) : List FieldForm :=
  [defaulted "problems" r.problems [] (listed fun p => Form p.fields),
    defaulted "highlightedPositions" r.highlights [] (listed fun h => Form h.fields),
    needed "workingCopyOwnerID" r.owner (written .str)]

theorem accepts : Accepts ofJson? fun r => Form r.fields := by
  refine accepts_record (fun _ => rfl) (by decide : fieldNames.Nodup) (fun _ => rfl) fun fs r => ?_
  obtain ⟨⟨problems, highlights⟩, owner⟩ := r
  simp only [fields, List.Forall, in_defaulted (accepts_list Problem.accepts),
    in_defaulted (accepts_list Highlight.accepts), in_needed accepts_string]
  simp only [Option.bind_eq_bind, Option.bind_eq_some_iff, Option.some.injEq, mk.injEq, Analysis.mk.injEq,
    ↓existsAndEq, and_true]

theorem form_toJson (r : ReconcileResult) : Form r.fields r.toJson := by
  have hproblems := listed_map Problem.form_toJson r.problems
  have hhighlights := listed_map Highlight.form_toJson r.highlights
  refine .of_written ?_
  simp [fields, needed, defaulted, FieldForm.In, Stands, written, List.lookup_cons, hproblems, hhighlights]

theorem legible_toJson {d : Nat} (r : ReconcileResult) : Legible (d + 4) r.toJson := by
  refine .object ?_
  simp [Legible.str, Legible.arr Problem.legible_toJson, Legible.arr Highlight.legible_toJson]

theorem ofJson?_toJson (r : ReconcileResult) : ofJson? r.toJson = some r := (accepts _ r).2 r.form_toJson

end ReconcileResult

namespace ResyncRequest

def fields (r : ResyncRequest) : List FieldForm :=
  [needed "fileLocation" r.location (written .str), needed "projectPath" r.project (written .str),
    needed "reason" r.reason (written .str)]

theorem accepts : Accepts ofJson? fun r => Form r.fields := by
  refine accepts_record (fun _ => rfl) (by decide : fieldNames.Nodup) (fun _ => rfl) fun fs r => ?_
  obtain ⟨location, project, reason⟩ := r
  simp only [fields, List.Forall, in_needed accepts_string]
  simp only [Option.bind_eq_bind, Option.bind_eq_some_iff, Option.some.injEq, mk.injEq, ↓existsAndEq,
    and_true]

theorem form_toJson (r : ResyncRequest) : Form r.fields r.toJson := by
  refine .of_written ?_
  simp [fields, needed, FieldForm.In, Stands, written, List.lookup_cons]

theorem legible_toJson {d : Nat} (r : ResyncRequest) : Legible (d + 1) r.toJson := by
  refine .object ?_
  simp [Legible.str]

theorem ofJson?_toJson (r : ResyncRequest) : ofJson? r.toJson = some r := (accepts _ r).2 r.form_toJson

end ResyncRequest
end EditSync
