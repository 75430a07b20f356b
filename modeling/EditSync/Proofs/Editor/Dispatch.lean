import EditSync.Editor.Capture
import Mathlib.Data.List.Induction

/-! What a document is shown to its strategies for. The partitioner is asked for a range inside the document,
however far off the dirty region is. Each region that it returns goes to the strategy that was registered
last for its type, in order and once; a strategy that fails keeps no other from its regions. Every region is
counted once, as handled, failed or without a strategy, and a flush adds up what its passes counted. -/

namespace EditSync

open Text

namespace DispatchReport

def total (r : DispatchReport) : Nat := r.dispatched + r.skipped + r.failed

def sum (rs : List DispatchReport) : DispatchReport := rs.foldr add {}

theorem sum_cons (r : DispatchReport) (rs : List DispatchReport) : sum (r :: rs) = r.add (sum rs) := rfl

theorem add_assoc (a b c : DispatchReport) : (a.add b).add c = a.add (b.add c) := by
  simp only [add, Nat.add_assoc]

theorem empty_add (a : DispatchReport) : add {} a = a := by
  simp [add]

theorem total_add (a b : DispatchReport) : (a.add b).total = a.total + b.total := by
  simp only [total, add]
  omega

end DispatchReport

namespace Dispatcher

def registerAll (d : Dispatcher) (rs : List (String × Strategy)) : Dispatcher :=
  rs.foldl (fun d r => d.register r.1 r.2) d

/-- The strategy of a type is the one that was registered last for it. -/
theorem get?_registerAll (d : Dispatcher) (rs : List (String × Strategy)) (contentType : String) :
    (d.registerAll rs).strategies.get? contentType =
      (rs.reverse.lookup contentType).or (d.strategies.get? contentType) := by
  induction rs using List.reverseRecOn with
  | nil => rfl
  | append_singleton rs r ih =>
    have hregister : d.registerAll (rs ++ [r]) = (d.registerAll rs).register r.1 r.2 := by
      rw [registerAll, List.foldl_append]
      rfl
    rw [hregister, register, Table.get?_set, ih, List.reverse_append, List.reverse_singleton,
      List.singleton_append, List.lookup_cons]
    split
    · next h => simp [h]
    · next h => simp [beq_eq_false_iff_ne.2 h]

/-- The range of a document that a region is clamped to. -/
structure Clamped (doc : Document) (dirty : Option Delta) (offset length : Nat) : Prop where
  inside : offset + length ≤ doc.length
  whole : dirty = none → offset = 0 ∧ length = doc.length
  start : ∀ d, dirty = some d → offset = min d.offset.toNat doc.length
  stop : ∀ d, dirty = some d → offset + length = min (d.offset.toNat + d.length) doc.length

theorem clamped_range (doc : Document) (dirty : Option Delta) :
    Clamped doc dirty (range doc dirty).1 (range doc dirty).2 := by
  cases dirty with
  | none => exact ⟨Nat.le_of_eq (Nat.zero_add _), fun _ => ⟨rfl, rfl⟩, nofun, nofun⟩
  | some d =>
    have hstop : (range doc (some d)).1 + (range doc (some d)).2 =
        min (d.offset.toNat + d.length) doc.length := by
      simp only [range]
      omega
    refine ⟨hstop ▸ Nat.min_le_right _ _, nofun, ?_, ?_⟩
    · intro d' h
      obtain rfl := Option.some.inj h
      rfl
    · intro d' h
      obtain rfl := Option.some.inj h
      exact hstop

def addSaturating (a b : UInt64) : UInt64 :=
  if a.toNat + b.toNat < UInt64.size then a + b else UInt64.ofNat (UInt64.size - 1)

theorem toNat_addSaturating (a b : UInt64) :
    (addSaturating a b).toNat = min (a.toNat + b.toNat) (UInt64.size - 1) := by
  rw [addSaturating]
  split
  · next h =>
    rw [UInt64.toNat_add, Nat.mod_eq_of_lt h]
    omega
  · next h =>
    have hmax : (UInt64.ofNat (UInt64.size - 1)).toNat = UInt64.size - 1 := by decide
    omega

theorem toNat_min_word (a b : UInt64) : (min a b).toNat = min a.toNat b.toNat := by
  change (if a ≤ b then a else b).toNat = _
  split
  · next h =>
    rw [UInt64.le_iff_toNat_le] at h
    omega
  · next h =>
    rw [UInt64.le_iff_toNat_le] at h
    omega

def bounds (length offset count : UInt64) : UInt64 × UInt64 :=
  (min offset length, min (addSaturating offset count) length)

/-- Computed in words, the range is the same: the end is not before the start, and no sum is cut off. -/
theorem toNat_bounds {doc : Document} {d : Delta} {length count : UInt64}
    (hlength : doc.length = length.toNat) (hcount : d.length = count.toNat) :
    let b := bounds length d.offset count
    b.1 ≤ b.2 ∧ range doc (some d) = (b.1.toNat, (b.2 - b.1).toNat) := by
  intro b
  have hstart : b.1.toNat = min d.offset.toNat length.toNat := toNat_min_word _ _
  have hstop : b.2.toNat = min (d.offset.toNat + count.toNat) length.toNat := by
    have hlt : length.toNat < UInt64.size := length.toNat_lt_size
    refine (toNat_min_word _ _).trans ?_
    rw [toNat_addSaturating]
    omega
  have hle : b.1 ≤ b.2 := by
    rw [UInt64.le_iff_toNat_le]
    omega
  refine ⟨hle, ?_⟩
  rw [UInt64.toNat_sub_of_le _ _ hle, hstart, hstop, range, hlength, hcount]

/-- What becomes of a region. -/
inductive Fate where
  | dispatched
  | skipped
  | failed
  deriving DecidableEq

def tally (fs : List Fate) : DispatchReport :=
  ⟨fs.count .dispatched, fs.count .skipped, fs.count .failed⟩

theorem tally_concat (fs : List Fate) (f : Fate) : tally (fs ++ [f]) = (tally fs).add (tally [f]) := by
  simp [tally, DispatchReport.add, List.count_append]

theorem total_tally (fs : List Fate) : (tally fs).total = fs.length := by
  induction fs with
  | nil => rfl
  | cons f fs ih =>
    rw [List.length_cons, ← ih]
    cases f <;> simp [tally, DispatchReport.total] <;> omega

/-- What the regions of a type are shown to its strategy for, the latest first. -/
def tasksOn (dirty : Option Delta) (contentType : String) (regions : List TypedRegion) : List Task :=
  ((regions.filter (·.contentType = contentType)).map (taskOf dirty)).reverse

def callsOn (d : Dispatcher) (dirty : Option Delta) (regions : List TypedRegion) : List Call :=
  regions.filterMap fun r =>
    (d.strategies.get? r.contentType).map fun s => .strategy s.name (taskOf dirty r)

def fate (d : Dispatcher) (doc : Document) (dirty : Option Delta) (before : List TypedRegion)
    (region : TypedRegion) : Fate :=
  match d.strategies.get? region.contentType with
  | none => .skipped
  | some s =>
    match s.answer doc (tasksOn dirty region.contentType (before ++ [region]) ++ s.tasks) with
    | .ok _ => .dispatched
    | .error _ => .failed

def fates (d : Dispatcher) (doc : Document) (dirty : Option Delta) (before : List TypedRegion) :
    List TypedRegion → List Fate
  | [] => []
  | region :: regions => d.fate doc dirty before region :: fates d doc dirty (before ++ [region]) regions

variable {d : Dispatcher} {doc : Document} {dirty : Option Delta} {regions : List TypedRegion}

theorem fates_concat (before : List TypedRegion) (region : TypedRegion) :
    d.fates doc dirty before (regions ++ [region]) =
      d.fates doc dirty before regions ++ [d.fate doc dirty (before ++ regions) region] := by
  induction regions generalizing before with
  | nil => rw [List.append_nil]; rfl
  | cons r regions ih =>
    rw [List.cons_append, fates, ih, fates, List.append_assoc]
    rfl

theorem tasksOn_concat (contentType : String) (region : TypedRegion) :
    tasksOn dirty contentType (regions ++ [region]) =
      if region.contentType = contentType then
        taskOf dirty region :: tasksOn dirty contentType regions
      else tasksOn dirty contentType regions := by
  rw [tasksOn, List.filter_append, List.map_append, List.reverse_append]
  split
  · next h => simp [h, tasksOn]
  · next h => simp [h, tasksOn]

theorem length_fates (before : List TypedRegion) :
    (d.fates doc dirty before regions).length = regions.length := by
  induction regions generalizing before with
  | nil => rfl
  | cons region regions ih => rw [fates, List.length_cons, List.length_cons, ih]

/-- Every region is counted once. -/
theorem total_fates (before : List TypedRegion) :
    (tally (d.fates doc dirty before regions)).total = regions.length := by
  rw [total_tally, length_fates]

/-- What a pass over some regions did, whatever the strategies made of them. -/
structure Shown (d : Dispatcher) (doc : Document) (dirty : Option Delta) (regions : List TypedRegion)
    (p : Pass) : Prop where
  calls : p.calls = .partition (range doc dirty).1 (range doc dirty).2 :: d.callsOn dirty regions
  partitioner : p.dispatcher.partitioner = d.partitioner
  /-- Each strategy has got the regions of its type, and no strategy is another. -/
  strategies : ∀ contentType, p.dispatcher.strategies.get? contentType =
    (d.strategies.get? contentType).map fun s =>
      { s with tasks := tasksOn dirty contentType regions ++ s.tasks }
  report : p.report = tally (d.fates doc dirty [] regions)

variable {p : Pass} {region : TypedRegion}

theorem tally_fates_concat (region : TypedRegion) :
    tally (d.fates doc dirty [] (regions ++ [region])) =
      (tally (d.fates doc dirty [] regions)).add (tally [d.fate doc dirty regions region]) := by
  rw [fates_concat, List.nil_append, tally_concat]

theorem Shown.skip (h : Shown d doc dirty regions p) (hs : d.strategies.get? region.contentType = none) :
    Shown d doc dirty (regions ++ [region]) (visit doc dirty p region) := by
  have hvisit : visit doc dirty p region = { p with report := p.report.add { skipped := 1 } } := by
    rw [visit, h.strategies, hs]
    rfl
  have hfate : d.fate doc dirty regions region = .skipped := by rw [fate, hs]
  rw [hvisit]
  refine ⟨?_, h.partitioner, fun contentType => ?_, ?_⟩
  · simp [h.calls, callsOn, hs]
  · rw [h.strategies, tasksOn_concat]
    split
    · next htype => rw [← htype, hs]; rfl
    · rfl
  · rw [tally_fates_concat, hfate, h.report]
    rfl

theorem Shown.call {s : Strategy} (h : Shown d doc dirty regions p)
    (hs : d.strategies.get? region.contentType = some s) :
    Shown d doc dirty (regions ++ [region]) (visit doc dirty p region) := by
  have htasks : taskOf dirty region :: (tasksOn dirty region.contentType regions ++ s.tasks) =
      tasksOn dirty region.contentType (regions ++ [region]) ++ s.tasks := by
    rw [tasksOn_concat, if_pos rfl, List.cons_append]
  rw [visit, h.strategies, hs]
  simp only [Option.map_some, htasks]
  refine ⟨?_, h.partitioner, fun contentType => ?_, ?_⟩
  · simp [h.calls, callsOn, hs]
  · rw [register, Table.get?_set, h.strategies]
    split
    · next htype => rw [htype, hs]; rfl
    · next htype => rw [tasksOn_concat, if_neg (Ne.symm htype)]
  · rw [tally_fates_concat, h.report, fate, hs]
    simp only
    cases s.answer doc (tasksOn dirty region.contentType (regions ++ [region]) ++ s.tasks) <;> rfl

/-- Whatever comes of a region, the pass goes on to the next. -/
theorem shown_foldl_visit (d : Dispatcher) (doc : Document) (dirty : Option Delta)
    (regions : List TypedRegion) :
    Shown d doc dirty regions
      (regions.foldl (visit doc dirty)
        { dispatcher := d, calls := [.partition (range doc dirty).1 (range doc dirty).2] }) := by
  -- from the last region on: what becomes of it depends on those before
  induction regions using List.reverseRecOn with
  | nil => exact ⟨rfl, rfl, fun _ => Option.map_id'.symm, rfl⟩
  | append_singleton regions region ih =>
    rw [List.foldl_append, List.foldl_cons, List.foldl_nil]
    cases hs : d.strategies.get? region.contentType with
    | none => exact ih.skip hs
    | some s => exact ih.call hs

def regionsOf (d : Dispatcher) (doc : Document) (dirty : Option Delta) : List TypedRegion :=
  d.partitioner doc (range doc dirty).1 (range doc dirty).2

theorem shown_process (d : Dispatcher) (doc : Document) (dirty : Option Delta) :
    Shown d doc dirty (d.regionsOf doc dirty) (d.process doc dirty) :=
  shown_foldl_visit d doc dirty _

theorem regionsOf_congr {d' : Dispatcher} (h : d'.partitioner = d.partitioner) (doc : Document) :
    d'.regionsOf doc = d.regionsOf doc := by
  funext dirty
  rw [regionsOf, regionsOf, h]

end Dispatcher

def FlushEvent.call? : FlushEvent → Option Call
  | call c => some c
  | _ => none

namespace Capture

open Dispatcher

def work (c : Capture) : List (Option Delta) := if c.queue.isEmpty then [none] else c.queue.deltas.map some

def passes (doc : Document) (d : Dispatcher) : List (Option Delta) → List Pass
  | [] => []
  | dirty :: work => d.process doc dirty :: passes doc (d.process doc dirty).dispatcher work

theorem calls_process (doc : Document) (f : Flush) (dirty : Option Delta) :
    (f.process doc dirty).events.filterMap FlushEvent.call? =
      f.events.filterMap FlushEvent.call? ++ (f.dispatcher.process doc dirty).calls := by
  have hcalls (cs : List Call) : (cs.map FlushEvent.call).filterMap FlushEvent.call? = cs := by
    rw [List.filterMap_map]
    exact List.filterMap_some
  rw [Flush.process, List.filterMap_append, List.filterMap_append, hcalls]
  cases dirty <;> simp [FlushEvent.call?]

theorem foldl_process (doc : Document) (work : List (Option Delta)) (f : Flush) :
    (work.foldl (Flush.process doc) f).dispatch =
        f.dispatch.add (.sum ((passes doc f.dispatcher work).map (·.report))) ∧
      (work.foldl (Flush.process doc) f).events.filterMap FlushEvent.call? =
        f.events.filterMap FlushEvent.call? ++ (passes doc f.dispatcher work).flatMap (·.calls) := by
  induction work generalizing f with
  | nil => exact ⟨rfl, (List.append_nil _).symm⟩
  | cons dirty work ih =>
    obtain ⟨hdispatch, hcalls⟩ := ih (f.process doc dirty)
    rw [List.foldl_cons, hdispatch, hcalls, calls_process]
    refine ⟨?_, ?_⟩
    · rw [passes, List.map_cons, DispatchReport.sum_cons, ← DispatchReport.add_assoc]
      rfl
    · rw [passes, List.flatMap_cons, List.append_assoc]
      rfl

/-- No pass changes how documents are cut. -/
theorem total_passes (doc : Document) (work : List (Option Delta)) (d : Dispatcher) :
    (DispatchReport.sum ((passes doc d work).map (·.report))).total =
      (work.flatMap (d.regionsOf doc)).length := by
  induction work generalizing d with
  | nil => rfl
  | cons dirty work ih =>
    have hshown := shown_process d doc dirty
    rw [passes, List.map_cons, DispatchReport.sum_cons, DispatchReport.total_add, ih,
      regionsOf_congr hshown.partitioner, hshown.report, total_fates, List.flatMap_cons, List.length_append]

/-- What a flush shows to strategies and reports of it. -/
structure AddsUp (c : Capture) (doc : Document) : Prop where
  regions : (c.flush doc).2.2.regions = c.queue.deltas.length
  calls : (c.flush doc).2.1.filterMap FlushEvent.call? = (passes doc c.dispatcher c.work).flatMap (·.calls)
  dispatch : (c.flush doc).2.2.dispatch = .sum ((passes doc c.dispatcher c.work).map (·.report))
  total : (c.flush doc).2.2.dispatch.total = (c.work.flatMap (c.dispatcher.regionsOf doc)).length

theorem addsUp (c : Capture) (doc : Document) : c.AddsUp doc := by
  obtain ⟨hdispatch, hcalls⟩ := foldl_process doc c.work { dispatcher := c.dispatcher }
  have hreport : (c.flush doc).2.2.dispatch = .sum ((passes doc c.dispatcher c.work).map (·.report)) :=
    hdispatch.trans (DispatchReport.empty_add _)
  refine ⟨rfl, ?_, hreport, ?_⟩
  · refine (List.filterMap_append ..).trans ?_
    exact (List.append_nil _).trans hcalls
  · rw [hreport, total_passes]

end Capture

namespace Dispatcher

/-- For any document and dirty region, the partitioner is asked once, for the range that the region is clamped
to; in words, no sum or difference of it is cut off. Whatever regions it returns and whichever strategies
fail, each region is shown once, in order, to the strategy of its type that was registered last, and is
counted once. A flush does that for each dirty region that it takes out of the queue, and adds up. -/
theorem every_region_accounted (doc : Document) :
    (∀ (d : Dispatcher) (dirty : Option Delta),
        Clamped doc dirty (range doc dirty).1 (range doc dirty).2 ∧
          Shown d doc dirty (d.regionsOf doc dirty) (d.process doc dirty) ∧
          (d.process doc dirty).report.total = (d.regionsOf doc dirty).length) ∧
      (∀ (length count : UInt64) (dirty : Delta), doc.length = length.toNat → dirty.length = count.toNat →
        let b := bounds length dirty.offset count
        b.1 ≤ b.2 ∧ range doc (some dirty) = (b.1.toNat, (b.2 - b.1).toNat)) ∧
      (∀ (d : Dispatcher) (rs : List (String × Strategy)) (contentType : String),
        (d.registerAll rs).strategies.get? contentType =
          (rs.reverse.lookup contentType).or (d.strategies.get? contentType)) ∧
      ∀ c : Capture, c.AddsUp doc := by
  refine ⟨fun d dirty => ?_, fun _ _ _ => toNat_bounds, get?_registerAll, fun c => c.addsUp doc⟩
  have hshown := shown_process d doc dirty
  refine ⟨clamped_range doc dirty, hshown, ?_⟩
  rw [hshown.report, total_fates]

/-- A removal that later edits have left far beyond the end, with a sum that is no word. -/
def far : Delta := .remove 18446744073709551615 2

def moody : Dispatcher :=
  registerAll { partitioner := .thirds "x" "y" "x" }
    [("x", { name := "old" }),
      ("x",
        { name := "new"
          answer := fun _ tasks => if tasks.length = 1 then .error .emptyQueue else .ok () })]

theorem every_region_accounted_far :
    let doc : Document := ⟨"/p/a", "/p", "ab", true⟩
    (moody.process doc (some far)).calls =
        [.partition 2 0, .strategy "new" (.reconcileDirty far ⟨2, 0, "x"⟩),
          .strategy "new" (.reconcileDirty far ⟨2, 0, "x"⟩)] ∧
      (moody.process doc (some far)).report = ⟨1, 1, 1⟩ ∧
      (bounds 2 far.offset 2).1 ≤ (bounds 2 far.offset 2).2 := by
  intro doc
  obtain ⟨hpass, hwords, -, -⟩ := every_region_accounted doc
  obtain ⟨-, hshown, -⟩ := hpass moody (some far)
  refine ⟨?_, ?_, (hwords 2 2 far (by decide) (by decide)).1⟩
  · rw [hshown.calls]
    decide
  · rw [hshown.report]
    decide

end Dispatcher
end EditSync
