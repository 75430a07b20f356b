import EditSync.Error
import EditSync.Text.Blank
import EditSync.Text.Utf8

/-! The header of a frame: lines up to a blank one, of which those that begin with
`Content-Length:` count and the last of these decides. -/

namespace EditSync.Frame

open Text

/-- A body may have this many octets. -/
def maxBody : UInt64 := 64 * 1024 * 1024

def malformed (detail : String) : SyncError := .protocol "frame" detail

/-- Why a length could not be read. -/
inductive LengthFault where
  | empty
  | notDigit
  | tooLarge
  deriving DecidableEq, Repr, Inhabited

def LengthFault.message : LengthFault → String
  | empty => "cannot parse integer from empty string"
  | notDigit => "invalid digit found in string"
  | tooLarge => "number too large to fit in target type"

/-- Reads one more digit; the first thing wrong from the left decides. -/
def lengthDigit (n : UInt64) (c : Char) : Except LengthFault UInt64 :=
  if c.isDigit then
    let next := 10 * n.toNat + (c.toNat - 0x30)
    if next < UInt64.size then .ok (UInt64.ofNat next) else .error .tooLarge
  else .error .notDigit

/-- Reads a length in decimal digits, with or without a plus sign. -/
def parseLength : List Char → Except LengthFault UInt64
  | [] => .error .empty
  | ['+'] => .error .notDigit
  | '+' :: cs => cs.foldlM lengthDigit 0
  | cs => cs.foldlM lengthDigit 0

/-- What a header line says. -/
inductive Line where
  | blank
  | contentLength (n : UInt64)
  | other
  deriving DecidableEq, Repr, Inhabited

def lengthName : List Char := "Content-Length:".toList

namespace Line

def ofChars (cs : List Char) : Except SyncError Line :=
  let cs := trim cs
  if cs = [] then .ok .blank
  else if lengthName.isPrefixOf cs then
    match parseLength (trim (cs.drop lengthName.length)) with
    | .ok n => .ok (.contentLength n)
    | .error e => .error (malformed s!"invalid Content-Length: {e.message}")
  else .ok .other

def ofBytes (bs : List UInt8) : Except SyncError Line :=
  match Utf8.decode? bs with
  | some cs => ofChars cs
  | none => .error (.io .notText)

end Line

/-- What is known of a header after some of its octets. -/
structure HeaderScan where
  /-- The current line, latest octet first. -/
  line : List UInt8 := []
  /-- A line has ended. -/
  started : Bool := false
  length : Option UInt64 := none
  deriving DecidableEq, Repr, Inhabited

/-- What the octets of a stream say about the header at their front. -/
inductive Header where
  | complete (length : Option UInt64) (rest : List UInt8)
  /-- The stream has ended before the frame. -/
  | none
  | failed (e : SyncError)
  /-- The octets so far do not decide. -/
  | pending
  deriving DecidableEq, Repr, Inhabited

namespace HeaderScan

/-- Takes the current line for complete. A blank one ends the header, which is no state. -/
def endLine (s : HeaderScan) : Except SyncError (Option HeaderScan) :=
  (Line.ofBytes s.line.reverse).map fun
    | .blank => .none
    | .contentLength n => some { started := true, length := some n }
    | .other => some { started := true, length := s.length }

def cut : Header := .failed (malformed "EOF inside header block")

/-- The stream has ended inside the current line. -/
def finish (s : HeaderScan) : Header :=
  if s.line = [] then if s.started then cut else .none
  else
    match s.endLine with
    | .error e => .failed e
    | .ok .none => .complete s.length []
    | .ok (some _) => cut

/-- Scans octets up to the end of the header. No more octets will come if the stream is `closed`. -/
def run (closed : Bool) (s : HeaderScan) : List UInt8 → Header
  | [] => if closed then s.finish else .pending
  | b :: bs =>
    if b = 10 then
      match s.endLine with
      | .error e => .failed e
      | .ok .none => .complete s.length bs
      | .ok (some s) => run closed s bs
    else run closed { s with line := b :: s.line } bs

theorem length_rest_le {closed : Bool} {s : HeaderScan} {bs rest : List UInt8} {n : Option UInt64}
    (h : run closed s bs = .complete n rest) : rest.length ≤ bs.length ∧ (bs ≠ [] → rest.length < bs.length) := by
  induction bs generalizing s with
  | nil =>
    have : rest = [] := by
      simp only [run] at h
      split at h
      · simp only [finish, cut] at h
        split at h
        · split at h <;> simp at h
        · split at h <;> simp at h
          exact h.2
      · simp at h
    simp [this]
  | cons b bs ih =>
    simp only [run] at h
    split at h
    · split at h
      · simp at h
      · simp only [Header.complete.injEq] at h
        simp [h.2]
      · next s' _ => have := (ih h).1; simp; omega
    · have := (ih h).1; simp; omega

end HeaderScan
end EditSync.Frame
