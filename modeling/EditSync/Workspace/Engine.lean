import EditSync.Message.Basic
import EditSync.Text.Splice

/-! Engines: what analyses the content of a file. -/

namespace EditSync

open Text

/-- Analyses the content of the file with a key, or fails. -/
abbrev Engine := String → String → Except SyncError Analysis

namespace Engine

/-- Finds nothing anywhere. -/
def silent : Engine := fun _ _ => .ok {}

end Engine

namespace Markers

/-- Where a word stands in a text, as positions in its UTF-8 form that begin at `at`. After a match
the search goes on behind it. -/
def find (word : List Char) : (skip pos : Nat) → List Char → List Nat
  | _, _, [] => []
  | skip + 1, pos, c :: cs => find word skip (pos + c.utf8Size) cs
  | 0, pos, c :: cs =>
    if word.isPrefixOf (c :: cs) then pos :: find word (word.length - 1) (pos + c.utf8Size) cs
    else find word 0 (pos + c.utf8Size) cs

def positions (word : String) (content : String) : List Nat := find word.toList 0 0 content.toList

/-- The words that stand for something: `ERROR` and `WARN` for problems, `TODO` for a passage to
highlight. A text with `CRASH` or `PANIC` cannot be analysed. -/
def engine : Engine := fun path content =>
  let found (word : String) (f : UInt64 → UInt64 → Problem) : List Problem :=
    (positions word content).map fun n => f (.ofNat n) (.ofNat (n + word.length))
  if positions "CRASH" content ≠ [] then .error (.engine path "crashed")
  else if positions "PANIC" content ≠ [] then .error (.engine path "gave up")
  else .ok
    { problems := found "ERROR" (.ofError s!"error in {path}") ++ found "WARN" (.ofWarning s!"warning in {path}")
      highlights := (positions "TODO" content).map fun n => ⟨.ofNat n, 4, "todo"⟩ }

end Markers
end EditSync
