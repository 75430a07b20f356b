import EditSync.Message.Basic

/-! An order for messages of the server. Analyses of different files end in any order, so their results
come last and stand by the file they belong to. -/

namespace EditSync

/-- Everything that is no result, then the results by owner; what is alike keeps its order. -/
def resultsLast {α : Type} (owner? : α → Option String) (xs : List α) : List α :=
  let others := xs.filter fun x => (owner? x).isNone
  let results := xs.filter fun x => (owner? x).isSome
  others ++ results.mergeSort fun a b => decide ((owner? a).getD "" ≤ (owner? b).getD "")

/-- The owner that a result names. -/
def resultOwner? (method : String) (params : Json) : Option String :=
  if method = Method.reconcileStateChanged then
    some (((params.member? "workingCopyOwnerID").bind Json.string?).getD "")
  else none

def Envelope.owner? (e : Envelope) : Option String := resultOwner? e.method e.params

def Message.owner? (m : Message) : Option String := resultOwner? m.payload.method m.payload.params

end EditSync
