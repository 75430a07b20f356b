import EditSync.Frame.Header
import EditSync.Json.Printer
import EditSync.Message.Basic

/-! Writing frames. Sending only hands a message over; a writer of its own puts accepted messages on
the stream in their order, as far as the peer still reads. -/

namespace EditSync.Frame

open Text

/-- The header of a body of `n` octets. -/
def header (n : Nat) : List Char :=
  lengthName ++ ' ' :: Json.printNat n ['\r', '\n', '\r', '\n']

/-- The frame of a message. -/
def write (v : Json) : List UInt8 :=
  let body := Utf8.encode (Json.print v [])
  Utf8.encode (header body.length) ++ body

def writeAll (vs : List Json) : List UInt8 := vs.flatMap write

def notification (method : String) (params : Json) : Json :=
  .object [("jsonrpc", .str "2.0"), ("method", .str method), ("params", params)]

/-- The sending side of a stream to one peer. -/
structure Outbound where
  peer : String
  /-- Accepted and not written yet. -/
  waiting : List Json := []
  written : List Json := []
  /-- The writer stops as soon as nothing is waiting. -/
  cancelled : Bool := false
  stopped : Bool := false
  /-- The peer does not read any more. -/
  hungUp : Bool := false
  deriving Inhabited, Repr

namespace Outbound

def send (o : Outbound) (receiver method : String) (params : Json) : Except SyncError Outbound :=
  if receiver ≠ o.peer then .error (.transport receiver s!"stream is connected to {o.peer}")
  else if o.stopped then .error (.transport receiver "writer task stopped")
  else .ok { o with waiting := o.waiting ++ [notification method params] }

/-- The writer writes the next message. A write to a peer that hung up stops it, and so does a
cancellation, but not before all that was accepted is written. -/
def turn (o : Outbound) : Outbound :=
  if o.stopped then o
  else
    match o.waiting with
    | [] => { o with stopped := o.cancelled }
    | m :: rest =>
      if o.hungUp then { o with waiting := [], stopped := true }
      else { o with waiting := rest, written := o.written ++ [m] }

def turns : Nat → Outbound → Outbound
  | 0, o => o
  | n + 1, o => turns n o.turn

/-- Lets the writer go on until it has nothing to do. -/
def run (o : Outbound) : Outbound := turns (o.waiting.length + 1) o

/-- Cancels the writer and waits for it to stop. -/
def cancel (o : Outbound) : Outbound := run { o with cancelled := true }

def hangUp (o : Outbound) : Outbound := { o with hungUp := true }

/-- What the peer reads. -/
def bytes (o : Outbound) : List UInt8 := if o.hungUp then [] else writeAll o.written

end Outbound
end EditSync.Frame
