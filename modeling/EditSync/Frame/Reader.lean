import EditSync.Frame.Header
import EditSync.Json.Reader
import EditSync.Message.Basic

/-! Frames on a stream of octets. A frame is a header, a blank line and as many octets of JSON as
the header says. Reading goes on until the stream ends or a frame is wrong; after that nothing
more is read. -/

namespace EditSync.Frame

open Text

/-- What reading one frame at the front of a stream comes to. -/
inductive Outcome where
  | message (value : Json) (rest : List UInt8)
  /-- The stream has ended and no frame begins. -/
  | ended
  | failed (e : SyncError)
  /-- The frame is not complete yet. -/
  | pending
  deriving Inhabited, Repr

/-- Reads a body of `n` octets. -/
def readBody (closed : Bool) (n : UInt64) (bs : List UInt8) : Outcome :=
  if n > maxBody then .failed (malformed s!"Content-Length {n} exceeds {maxBody} bytes")
  else if bs.length < n.toNat then if closed then .failed (.io .unexpectedEnd) else .pending
  else
    match (Utf8.decode? (bs.take n.toNat)).bind Json.parseChars? with
    | some v => .message v (bs.drop n.toNat)
    | none => .failed (malformed "invalid JSON body")

/-- Reads the frame at the front of a stream. -/
def read (closed : Bool) (bs : List UInt8) : Outcome :=
  match HeaderScan.run closed {} bs with
  | .none => .ended
  | .failed e => .failed e
  | .pending => .pending
  | .complete none _ => .failed (malformed "missing Content-Length header")
  | .complete (some n) rest => readBody closed n rest

theorem length_rest_lt {closed : Bool} {bs rest : List UInt8} {v : Json}
    (h : read closed bs = .message v rest) : rest.length < bs.length := by
  unfold read at h
  split at h <;> try simp at h
  next n body hb =>
    have hne : bs ≠ [] := by
      rintro rfl
      cases closed <;> simp [HeaderScan.run, HeaderScan.finish] at hb
    have hlt := (HeaderScan.length_rest_le hb).2 hne
    unfold readBody at h
    split at h
    · simp at h
    · split at h
      · split at h <;> simp at h
      · split at h
        · simp only [Outcome.message.injEq] at h
          rw [← h.2, List.length_drop]
          omega
        · simp at h

/-- Why no further frame is read. -/
inductive Ending where
  | ended
  | failed (e : SyncError)
  /-- These octets begin a frame that is not complete yet. -/
  | pending (unread : List UInt8)
  deriving Inhabited, Repr

structure Reading where
  messages : List Json
  ending : Ending
  deriving Inhabited, Repr

/-- Reads frames as long as there are any. -/
def readAll (closed : Bool) (bs : List UInt8) : Reading :=
  match h : read closed bs with
  | .message v rest =>
    have := length_rest_lt h
    let r := readAll closed rest
    { r with messages := v :: r.messages }
  | .ended => ⟨[], .ended⟩
  | .failed e => ⟨[], .failed e⟩
  | .pending => ⟨[], .pending bs⟩
termination_by bs.length

/-- A message without a method is not for anyone. -/
def envelope? (peer : String) (v : Json) : Option Envelope :=
  ((v.member? "method").bind Json.string?).map fun method =>
    ⟨peer, method, (v.member? "params").getD .null⟩

def Reading.envelopes (r : Reading) (peer : String) : List Envelope :=
  r.messages.filterMap (envelope? peer)

end EditSync.Frame
