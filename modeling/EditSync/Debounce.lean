import EditSync.Table

/-! Timers that wait for a quiet period. Each key has at most one; starting it anew replaces it. A timer
that has run out posts a tick, and whoever takes the tick has to claim it: the claim of a tick fails if
the timer was replaced or cancelled in the meantime. Time is counted in milliseconds. -/

namespace EditSync

structure Tick where
  key : String
  /-- The number of its timer. No two timers have the same. -/
  generation : Nat
  /-- When the timer runs out. -/
  time : Nat
  deriving DecidableEq, Repr, Inhabited

structure Debounce where
  quiet : Nat
  now : Nat := 0
  /-- The generation of the latest timer. -/
  generation : Nat := 0
  /-- The timer of each key, whether it runs or its tick was posted and not claimed. -/
  current : Table Nat := .empty
  /-- What the timers that run will post, the first to run out first. A timer that was claimed before
  its time still runs. -/
  running : List Tick := []
  /-- Ticks that nobody has taken, oldest first. -/
  posted : List Tick := []
  deriving Inhabited

namespace Debounce

/-- With more timers than this, those whose tick nobody claimed are given up first. -/
def crowded : Nat := 32

def isRunning (d : Debounce) (generation : Nat) : Bool := d.running.any (·.generation = generation)

def hasPending (d : Debounce) (key : String) : Bool := d.current.contains key

/-- Ends the timer of a key. Its tick is not posted any more, if it was not before. -/
def cancel (d : Debounce) (key : String) : Debounce × Bool :=
  match d.current.get? key with
  | none => (d, false)
  | some generation =>
    ({ d with
        current := d.current.erase key
        running := d.running.filter (·.generation ≠ generation) }, true)

def cancelAll (d : Debounce) : Debounce :=
  { d with
    current := .empty
    running := d.running.filter fun t => d.current.get? t.key ≠ some t.generation }

/-- Gives up timers that do not run any more if there are too many. -/
def prune (d : Debounce) : Debounce :=
  if crowded < d.current.size then { d with current := d.current.filter fun _ g => d.isRunning g } else d

/-- Starts the timer of a key anew and gives its generation. -/
def schedule (d : Debounce) (key : String) : Debounce × Nat :=
  let d := (d.prune.cancel key).1
  let generation := d.generation + 1
  ({ d with
      generation
      current := d.current.set key generation
      running := d.running ++ [⟨key, generation, d.now + d.quiet⟩] }, generation)

/-- Accepts a tick of the current timer of its key, which is then forgotten. -/
def claim (d : Debounce) (key : String) (generation : Nat) : Debounce × Bool :=
  if d.current.get? key = some generation then ({ d with current := d.current.erase key }, true)
  else (d, false)

def isDue (d : Debounce) (t : Tick) : Bool := decide (t.time ≤ d.now)

/-- Posts the tick of every timer that has run out. -/
def expire (d : Debounce) : Debounce :=
  { d with
    running := d.running.filter fun t => !d.isDue t
    posted := d.posted ++ d.running.filter d.isDue }

def advance (d : Debounce) (ms : Nat) : Debounce := expire { d with now := d.now + ms }

/-- Takes all posted ticks. -/
def takePosted (d : Debounce) : Debounce × List Tick := ({ d with posted := [] }, d.posted)

end Debounce
end EditSync
