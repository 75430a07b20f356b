/-! Sets of items that somebody is busy with. Whoever claims an item first has it until it is
released. -/

namespace EditSync

structure ClaimSet where
  items : List String := []
  deriving DecidableEq, Repr, Inhabited

namespace ClaimSet

def contains (s : ClaimSet) (item : String) : Bool := item ∈ s.items

/-- Claims an item that nobody has, and says whether that was so. -/
def claim (s : ClaimSet) (item : String) : ClaimSet × Bool :=
  if s.contains item then (s, false) else (⟨item :: s.items⟩, true)

def release (s : ClaimSet) (item : String) : ClaimSet := ⟨s.items.filter (· ≠ item)⟩

end ClaimSet
end EditSync
