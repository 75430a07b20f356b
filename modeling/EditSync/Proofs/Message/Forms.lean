import EditSync.Proofs.Message.Wire
import EditSync.Settings.Layer

/-! Everything that is exchanged in JSON, and a layer of settings, is read back from its text and from each
of its forms. -/

namespace EditSync

open Json FieldForm

namespace SettingsLayer

def fields (l : SettingsLayer) : List FieldForm :=
  [nullable "quietPeriodMs" l.quietPeriod (written word), nullable "autoSave" l.autoSave (written .bool),
    nullable "resyncOnInstall" l.resyncOnInstall (written .bool),
    nullable "serverEndpoint" l.serverEndpoint (written .str),
    nullable "workspaceRoot" l.workspaceRoot (written .str)]

theorem accepts : Accepts ofJson? fun l => Form l.fields := by
  refine accepts_record (fun _ => rfl) (by decide : fieldNames.Nodup) (fun _ => rfl) fun fs l => ?_
  obtain ⟨quietPeriod, autoSave, resyncOnInstall, serverEndpoint, workspaceRoot⟩ := l
  simp only [fields, List.Forall, in_nullable accepts_word rfl, in_nullable accepts_bool rfl,
    in_nullable accepts_string rfl]
  simp only [Option.bind_eq_bind, Option.bind_eq_some_iff, Option.some.injEq, mk.injEq, ↓existsAndEq, and_true]

theorem form_toJson (l : SettingsLayer) : Form l.fields l.toJson := by
  obtain ⟨quietPeriod, autoSave, resyncOnInstall, serverEndpoint, workspaceRoot⟩ := l
  refine .of_written ?_
  cases quietPeriod <;> cases autoSave <;> cases resyncOnInstall <;> cases serverEndpoint <;>
    cases workspaceRoot <;>
    simp [fields, nullable, FieldForm.In, Stands, written, optionalMember, List.lookup_cons]

theorem legible_toJson {d : Nat} (l : SettingsLayer) : Legible (d + 1) l.toJson := by
  refine .object ?_
  cases l.quietPeriod <;> cases l.autoSave <;> cases l.resyncOnInstall <;> cases l.serverEndpoint <;>
    cases l.workspaceRoot <;> simp [optionalMember, Legible.str, Legible.bool, Legible.word]

end SettingsLayer

/-- Every record is read back from what is written of it, also as text, and from each of its other forms. -/
theorem records_readBack :
    ReadBack TextChange.ofJson? TextChange.toJson TextChange.fields ∧
      ReadBack FileOperation.ofJson? FileOperation.toJson FileOperation.fields ∧
      ReadBack Problem.ofJson? Problem.toJson Problem.fields ∧
      ReadBack Highlight.ofJson? Highlight.toJson Highlight.fields ∧
      ReadBack ReconcileResult.ofJson? ReconcileResult.toJson ReconcileResult.fields ∧
      ReadBack ResyncRequest.ofJson? ResyncRequest.toJson ResyncRequest.fields ∧
      ReadBack SettingsLayer.ofJson? SettingsLayer.toJson SettingsLayer.fields :=
  ⟨TextChange.accepts.readBack TextChange.form_toJson TextChange.legible_toJson,
    FileOperation.accepts.readBack FileOperation.form_toJson FileOperation.legible_toJson,
    Problem.accepts.readBack Problem.form_toJson Problem.legible_toJson,
    Highlight.accepts.readBack Highlight.form_toJson Highlight.legible_toJson,
    ReconcileResult.accepts.readBack ReconcileResult.form_toJson ReconcileResult.legible_toJson,
    ResyncRequest.accepts.readBack ResyncRequest.form_toJson ResyncRequest.legible_toJson,
    SettingsLayer.accepts.readBack SettingsLayer.form_toJson SettingsLayer.legible_toJson⟩

/-- A list may stand in an object, and an object in a list. -/
theorem records_readBack_mixed :
    FileOperation.ofJson? (.arr [.obj [("START", .null)], .str "/p/a"]) =
        some { action := .start, path := "/p/a" } ∧
      ReconcileResult.ofJson? (.obj [("more", .null), ("problems", .arr [.arr [.str "torn", .int 3]]),
          ("workingCopyOwnerID", .str "/p/a")]) =
        some ⟨⟨[{ message := "torn", id := 3 }], []⟩, "/p/a"⟩ := by
  obtain ⟨-, file, problem, -, result, -⟩ := records_readBack
  refine ⟨(file.accepted _ _).2 (.array (by decide) ?_), (result.accepted _ _).2 (.object ?_)⟩
  · intro i hi
    match i, hi with
    | 0, _ => exact .inr rfl
    | 1, _ => rfl
    | 2, _ => rfl
    | 3, _ => rfl
  · have hproblem : Form (Problem.fields { message := "torn", id := 3 }) (.arr [.str "torn", .int 3]) :=
      (problem.accepted _ _).1 (by decide +kernel)
    simp [ReconcileResult.fields, needed, defaulted, FieldForm.In, Stands, written, listed, List.lookup_cons,
      hproblem]

end EditSync
