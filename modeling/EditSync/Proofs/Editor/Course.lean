import EditSync.Proofs.Editor.Operations
import Mathlib.Data.List.Induction

/-! Everything that can happen to a session, in any order: events of the host, messages of the server,
time that goes on, timers that run out once they are due, and posted ticks that are handed over. -/

namespace EditSync.Session

inductive Input where
  | host (e : EditorEvent)
  | inbound (e : Envelope)
  /-- The host sets how a document is saved. -/
  | saving (location : String) (set : AutoSave → AutoSave)
  | pass (ms : Nat)
  /-- A timer posts its tick. -/
  | ring (t : Tick)
  /-- A posted tick is handed over. -/
  | tick (t : Tick)

def setSaving (s : Session) (location : String) (set : AutoSave → AutoSave) : Session :=
  { s with editors := s.editors.modify location fun e => { e with autoSave := set e.autoSave } }

/-- Takes a posted tick out of the channel, whichever of them, and hands it over. -/
def deliver (s : Session) (t : Tick) : Session × List Effect :=
  if t ∈ s.scheduler.posted then
    let r := { s with scheduler := s.scheduler.take t }.handleTick t
    (r.session, r.effects)
  else (s, [])

def react (host : Host) (s : Session) : Input → Session × List Effect
  | .host e => s.handleEvent host e
  | .inbound e => ((s.handleInbound e).session, (s.handleInbound e).effects)
  | .saving location set => (s.setSaving location set, [])
  | .pass ms => ({ s with scheduler := s.scheduler.pass ms }, [])
  | .ring t => ({ s with scheduler := s.scheduler.ring t }, [])
  | .tick t => s.deliver t

def runStep (host : Host) (p : Session × List Effect) (i : Input) : Session × List Effect :=
  ((p.1.react host i).1, p.2 ++ (p.1.react host i).2)

def run (host : Host) (s : Session) (inputs : List Input) : Session × List Effect :=
  inputs.foldl (runStep host) (s, [])

theorem run_concat (host : Host) (s : Session) (inputs : List Input) (i : Input) :
    run host s (inputs ++ [i]) = runStep host (run host s inputs) i := by
  simp [run, List.foldl_append]

theorem foldl_ring (host : Host) (ts : List Tick) (s : Session) (effects : List Effect) :
    (ts.map Input.ring).foldl (runStep host) (s, effects) =
      ({ s with scheduler := ts.foldl Debounce.ring s.scheduler }, effects) := by
  induction ts generalizing s with
  | nil => rfl
  | cons t ts ih =>
    rw [List.map_cons, List.foldl_cons, List.foldl_cons]
    have hstep : runStep host (s, effects) (.ring t) =
        ({ s with scheduler := s.scheduler.ring t }, effects) :=
      Prod.ext rfl (List.append_nil _)
    rw [hstep, ih]

/-- When all timers that are due run out together, that is one course of many. -/
theorem advance_eq_run (host : Host) (s : Session) (ms : Nat) :
    run host s (.pass ms :: ((s.scheduler.running.filter (s.scheduler.pass ms).isDue).map .ring)) =
      (s.advance ms, []) := by
  rw [run, List.foldl_cons]
  have hstep : runStep host (s, []) (.pass ms) = ({ s with scheduler := s.scheduler.pass ms }, []) := rfl
  rw [hstep, foldl_ring, advance, Debounce.advance, Debounce.expire_eq_foldl_ring]
  rfl

theorem deliver_of_notMem {s : Session} {t : Tick} (h : t ∉ s.scheduler.posted) :
    s.deliver t = (s, []) := if_neg h

/-- A posted tick is taken and claimed. It flushes an editor if it is the tick of an entry and its
document is open. -/
theorem deliver_of_mem {s : Session} {t : Tick} (h : t ∈ s.scheduler.posted) :
    (s.deliver t).1.scheduler = ((s.scheduler.take t).claim t.key t.generation).1 ∧
      (((s.deliver t).1.editors = s.editors ∧ (s.deliver t).2 = [] ∧
          (s.scheduler.current.get? t.key = some t.generation → s.isOpen t.key = false)) ∨
        ∃ e, s.scheduler.current.get? t.key = some t.generation ∧
          s.editors.get? t.key = some e ∧
          (∀ k, (s.deliver t).1.editors.get? k =
            if k = t.key then some (flushEditor e).1 else s.editors.get? k) ∧
          messages (s.deliver t).2 = e.unsent.map fun c => e.reporter.message (.change c)) := by
  rw [deliver, if_pos h]
  obtain ⟨hscheduler, hcases⟩ := handleTick_cases { s with scheduler := s.scheduler.take t } t
  refine ⟨hscheduler, ?_⟩
  rcases hcases with ⟨heditors, heffects, -, hclosed⟩ | ⟨e, hcurrent, hflushed⟩
  · exact Or.inl ⟨heditors, heffects, hclosed⟩
  · exact Or.inr ⟨e, hcurrent, hflushed.found, hflushed.editors,
      (congrArg messages hflushed.effects).trans (flushed_flushEditor e).messages⟩

end EditSync.Session
