import EditSync.Message.Basic
import EditSync.Table

/-! Handlers of inbound messages. A handler is found by the method of the message alone. It may
change a state and fail; a failure stays with the message that caused it. -/

namespace EditSync

/-- What an endpoint does with the sender and the parameters of a message. -/
abbrev Handler (σ : Type) := String → Json → σ → σ × Except SyncError Unit

abbrev Handlers (σ : Type) := Table (Handler σ)

namespace Handlers

variable {σ α : Type}

/-- Registers a handler that reads the parameters first. Parameters that do not fit its type
never reach it. -/
def onPayload (hs : Handlers σ) (method : String) (read : Json → Option α)
    (handle : String → α → σ → σ × Except SyncError Unit) : Handlers σ :=
  hs.set method fun sender params s =>
    match read params with
    | some a => handle sender a s
    | none => (s, .error (.undecodable method))

/-- Hands a message to the handler of its method, and says whether there is one. -/
def dispatch (hs : Handlers σ) (e : Envelope) (s : σ) : σ × Bool :=
  match hs.get? e.method with
  | some handle => ((handle e.sender e.params s).1, true)
  | none => (s, false)

/-- Hands over messages one after the other. -/
def dispatchAll (hs : Handlers σ) (es : List Envelope) (s : σ) : σ :=
  es.foldl (fun s e => (hs.dispatch e s).1) s

end Handlers

/-- An endpoint that hands over what it is sent in order, until it is cancelled or no more comes. -/
structure DispatchLoop where
  waiting : List Envelope := []
  cancelled : Bool := false
  ended : Bool := false
  deriving Inhabited, Repr

namespace DispatchLoop

/-- Accepts a message, unless the loop has ended. -/
def send (l : DispatchLoop) (e : Envelope) : DispatchLoop × Bool :=
  if l.ended then (l, false) else ({ l with waiting := l.waiting ++ [e] }, true)

def cancel (l : DispatchLoop) : DispatchLoop := { l with cancelled := true }

/-- Runs until nothing is left to do. A cancelled loop hands nothing over, whatever is waiting. -/
def run {σ : Type} (hs : Handlers σ) (l : DispatchLoop) (s : σ) : DispatchLoop × σ :=
  if l.ended then (l, s)
  else if l.cancelled then ({ l with waiting := [], ended := true }, s)
  else ({ l with waiting := [] }, hs.dispatchAll l.waiting s)

end DispatchLoop
end EditSync
