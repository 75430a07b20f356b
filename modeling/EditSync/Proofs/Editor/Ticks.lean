import EditSync.Proofs.Editor.Timers
import Mathlib.Data.List.Induction

/-! Claims of ticks that came out of the channel, early or late and as often as one likes. A claim is
accepted exactly if its tick is of the latest start of its key and nothing has ended that timer since. So
no flush comes before the quiet period is over, and none comes twice. -/

namespace EditSync.Debounce

inductive Op where
  | schedule (key : String)
  | cancel (key : String)
  | cancelAll
  | pass (ms : Nat)
  /-- A timer that is due posts its tick. -/
  | ring (t : Tick)
  /-- One of the posted ticks is taken out of the channel. -/
  | receive (t : Tick)
  /-- A tick that was received is claimed, perhaps not for the first time. -/
  | claim (t : Tick)
  deriving DecidableEq

def Op.starts : Op → Nat
  | schedule _ => 1
  | cancel _ | cancelAll | pass _ | ring _ | receive _ | claim _ => 0

/-- A scheduler together with all ticks that came out of its channel. -/
structure Watch where
  scheduler : Debounce
  received : List Tick := []

namespace Watch

def step (w : Watch) : Op → Watch
  | .schedule key => { w with scheduler := (w.scheduler.schedule key).1 }
  | .cancel key => { w with scheduler := (w.scheduler.cancel key).1 }
  | .cancelAll => { w with scheduler := w.scheduler.cancelAll }
  | .pass ms => { w with scheduler := w.scheduler.pass ms }
  | .ring t => { w with scheduler := w.scheduler.ring t }
  | .receive t =>
    if t ∈ w.scheduler.posted then
      { scheduler := w.scheduler.take t, received := w.received ++ [t] }
    else w
  | .claim t =>
    if t ∈ w.received then { w with scheduler := (w.scheduler.claim t.key t.generation).1 } else w

def run (quiet : Nat) (ops : List Op) : Watch := ops.foldl step { scheduler := { quiet } }

def Accepts (w : Watch) (t : Tick) : Prop :=
  t ∈ w.received ∧ (w.scheduler.claim t.key t.generation).2 = true

instance (w : Watch) (t : Tick) : Decidable (w.Accepts t) := inferInstanceAs (Decidable (_ ∧ _))

/-- An operation ends the timer of a key that has this generation. When many timers are known, starting
any of them ends those that have posted their ticks. -/
def Ends (w : Watch) (key : String) (generation : Nat) : Op → Prop
  | .schedule k =>
    k = key ∨ crowded < w.scheduler.current.size ∧ w.scheduler.isRunning generation = false
  | .cancel k => k = key
  | .cancelAll => True
  | .claim t => w.Accepts t ∧ t.key = key
  | .pass _ | .ring _ | .receive _ => False

variable {w : Watch} {quiet : Nat}

theorem run_concat (quiet : Nat) (ops : List Op) (op : Op) :
    run quiet (ops ++ [op]) = (run quiet ops).step op := by
  rw [run, List.foldl_append]
  rfl

theorem schedule_snd (d : Debounce) (key : String) : (d.schedule key).2 = d.generation + 1 := by
  simp only [schedule, generation_prune_cancel]

theorem schedule_frame (d : Debounce) (key : String) :
    (d.schedule key).1.now = d.now ∧ (d.schedule key).1.quiet = d.quiet ∧
      (d.schedule key).1.posted = d.posted := by
  obtain ⟨-, hp, -, hn, hq⟩ := prune_frame d
  obtain ⟨hp', -, hn', hq'⟩ := cancel_frame d.prune key
  exact ⟨hn'.trans hn, hq'.trans hq, hp'.trans hp⟩

theorem accepts_iff {t : Tick} :
    w.Accepts t ↔ t ∈ w.received ∧ w.scheduler.current.get? t.key = some t.generation := by
  rw [Accepts, claim]
  split
  · next h => simp [h]
  · next h => simp [h]

/-- A timer is current after an operation if it was before and is not ended, or if it is started now. -/
theorem get?_step_iff {op : Op} {key : String} {g : Nat} :
    (w.step op).scheduler.current.get? key = some g ↔
      (w.scheduler.current.get? key = some g ∧ ¬ w.Ends key g op) ∨
        op = .schedule key ∧ w.scheduler.generation + 1 = g := by
  cases op with
  | schedule k =>
    rw [step, get?_schedule, get?_prune]
    by_cases hk : key = k
    · simp [Ends, hk]
    · have hk' : k ≠ key := Ne.symm hk
      by_cases hcrowd : crowded < w.scheduler.current.size
      · simp [Ends, hk, hk', hcrowd, Option.filter_eq_some_iff]
      · simp [Ends, hk, hk', hcrowd]
  | cancel k =>
    rw [step, get?_cancel]
    by_cases hk : key = k
    · simp [Ends, hk]
    · simp [Ends, hk, Ne.symm hk]
  | cancelAll => simp [step, cancelAll, Ends]
  | pass ms => simp [step, pass, Ends]
  | ring t => simp [step, (ring_frame w.scheduler t).1, Ends]
  | receive t =>
    rw [step]
    split <;> simp [take, Ends]
  | claim t =>
    rw [step, Ends, accepts_iff]
    by_cases ht : t ∈ w.received
    · rw [if_pos ht, get?_claim]
      by_cases hk : key = t.key
      · by_cases hg : w.scheduler.current.get? t.key = some t.generation
        · simp [ht, hk, hg]
        · simp [ht, hk, hg]
      · simp [ht, hk, Ne.symm hk]
    · simp [ht]

theorem generation_step (op : Op) :
    (w.step op).scheduler.generation = w.scheduler.generation + op.starts := by
  cases op with
  | schedule key => exact generation_schedule w.scheduler key
  | cancel key => exact (cancel_frame w.scheduler key).2.1
  | cancelAll => rfl
  | pass ms => rfl
  | ring t => exact (ring_frame w.scheduler t).2
  | receive t => rw [step]; split <;> rfl
  | claim t =>
    rw [step]
    split
    · exact (claim_frame w.scheduler t.key t.generation).2.2
    · rfl

/-- The quiet period stays, and the clock does not go back. -/
theorem clock_step (op : Op) :
    (w.step op).scheduler.quiet = w.scheduler.quiet ∧ w.scheduler.now ≤ (w.step op).scheduler.now := by
  cases op with
  | schedule key =>
    obtain ⟨hnow, hquiet, -⟩ := schedule_frame w.scheduler key
    exact ⟨hquiet, Nat.le_of_eq hnow.symm⟩
  | cancel key =>
    obtain ⟨-, -, hnow, hquiet⟩ := cancel_frame w.scheduler key
    exact ⟨hquiet, Nat.le_of_eq hnow.symm⟩
  | cancelAll => exact ⟨rfl, Nat.le_refl _⟩
  | pass ms => exact ⟨rfl, Nat.le_add_right _ _⟩
  | ring t => rw [step, ring]; split <;> exact ⟨rfl, Nat.le_refl _⟩
  | receive t => rw [step]; split <;> exact ⟨rfl, Nat.le_refl _⟩
  | claim t =>
    rw [step]
    split
    · rw [claim]
      split <;> exact ⟨rfl, Nat.le_refl _⟩
    · exact ⟨rfl, Nat.le_refl _⟩

/-- All ticks that were posted, or will be if their timers are not ended. -/
def ticks (w : Watch) : List Tick := w.scheduler.pool ++ w.received

def past (w : Watch) : List Tick := w.scheduler.posted ++ w.received

/-- A tick comes from the start of a timer. -/
theorem mem_ticks_step {op : Op} {t : Tick} (h : t ∈ (w.step op).ticks) :
    t ∈ w.ticks ∨ ∃ key, op = .schedule key ∧ t = w.scheduler.upcoming key := by
  rw [ticks, List.mem_append] at h ⊢
  cases op with
  | schedule key =>
    rcases h with h | h
    · rcases mem_pool_schedule.1 h with h | h
      · have hprune : w.scheduler.prune.pool = w.scheduler.pool := by
          obtain ⟨hr, hp, -⟩ := prune_frame w.scheduler
          rw [pool, hr, hp, pool]
        exact Or.inl (Or.inl (hprune ▸ mem_pool_of_mem_cancel h))
      · exact Or.inr ⟨key, rfl, h⟩
    · exact Or.inl (Or.inr h)
  | cancel key => exact Or.inl (h.imp_left mem_pool_of_mem_cancel)
  | cancelAll =>
    refine Or.inl (h.imp_left fun h => ?_)
    exact mem_pool.2 ((mem_pool.1 h).imp_left fun h => (List.mem_filter.1 h).1)
  | pass ms => exact Or.inl h
  | ring u => exact Or.inl (h.imp_left mem_pool_ring.1)
  | receive u =>
    rw [step] at h
    split at h
    · next hu =>
      rcases h with h | h
      · exact Or.inl (Or.inl (mem_pool.2 ((mem_pool.1 h).imp_right List.mem_of_mem_erase)))
      · rcases List.mem_append.1 h with h | h
        · exact Or.inl (Or.inr h)
        · rw [List.mem_singleton.1 h]
          exact Or.inl (Or.inl (mem_pool.2 (Or.inr hu)))
    · exact Or.inl h
  | claim u =>
    rw [step] at h
    split at h
    · obtain ⟨hr, hp, -⟩ := claim_frame w.scheduler u.key u.generation
      rw [pool, hr, hp] at h
      exact Or.inl h
    · exact Or.inl h

/-- A tick is posted when its time has come, and not before. -/
theorem mem_past_step {op : Op} {t : Tick} (h : t ∈ (w.step op).past) :
    t ∈ w.past ∨ t ∈ w.scheduler.running ∧ t.time ≤ w.scheduler.now := by
  rw [past, List.mem_append] at h ⊢
  cases op with
  | schedule key =>
    rw [step, (schedule_frame w.scheduler key).2.2] at h
    exact Or.inl h
  | cancel key =>
    rw [step, (cancel_frame w.scheduler key).1] at h
    exact Or.inl h
  | cancelAll => exact Or.inl h
  | pass ms => exact Or.inl h
  | ring u =>
    rw [step, ring] at h
    split at h
    · next hu =>
      rcases h with h | h
      · rcases List.mem_append.1 h with h | h
        · exact Or.inl (Or.inl h)
        · rw [List.mem_singleton.1 h]
          exact Or.inr ⟨hu.1, of_decide_eq_true hu.2⟩
      · exact Or.inl (Or.inr h)
    · exact Or.inl h
  | receive u =>
    rw [step] at h
    split at h
    · next hu =>
      rcases h with h | h
      · exact Or.inl (Or.inl (List.mem_of_mem_erase h))
      · rcases List.mem_append.1 h with h | h
        · exact Or.inl (Or.inr h)
        · rw [List.mem_singleton.1 h]
          exact Or.inl (Or.inl hu)
    · exact Or.inl h
  | claim u =>
    rw [step] at h
    split at h
    · rw [(claim_frame w.scheduler u.key u.generation).2.1] at h
      exact Or.inl h
    · exact Or.inl h

variable {ops before after : List Op} {key : String} {g : Nat} {t : Tick}

theorem quiet_run (quiet : Nat) (ops : List Op) : (run quiet ops).scheduler.quiet = quiet := by
  induction ops using List.reverseRecOn with
  | nil => rfl
  | append_singleton ops op ih => rw [run_concat, (clock_step op).1, ih]

theorem generation_run_le (quiet : Nat) (before after : List Op) :
    (run quiet before).scheduler.generation ≤ (run quiet (before ++ after)).scheduler.generation := by
  induction after using List.reverseRecOn with
  | nil => exact Nat.le_of_eq (by rw [List.append_nil])
  | append_singleton after op ih =>
    rw [← List.append_assoc, run_concat, generation_step]
    exact Nat.le_trans ih (Nat.le_add_right _ _)

def returned (quiet : Nat) (before : List Op) (key : String) : Nat :=
  ((run quiet before).scheduler.schedule key).2

theorem returned_eq (quiet : Nat) (before : List Op) (key : String) :
    returned quiet before key = (run quiet before).scheduler.generation + 1 := schedule_snd _ _

/-- Each start returns a generation higher than all before. -/
theorem returned_lt (quiet : Nat) (before : List Op) (key : String) (middle : List Op) (key' : String) :
    returned quiet before key < returned quiet (before ++ .schedule key :: middle) key' := by
  have hle := generation_run_le quiet (before ++ [.schedule key]) middle
  rw [List.append_assoc, List.singleton_append, run_concat, generation_step] at hle
  rw [returned_eq, returned_eq]
  exact Nat.succ_lt_succ (Nat.lt_of_succ_le hle)

/-- So a generation stands for one start. -/
theorem start_unique {before' after' : List Op} {key' : String}
    (h : before ++ .schedule key :: after = before' ++ .schedule key' :: after')
    (hg : returned quiet before key = returned quiet before' key') :
    before = before' ∧ key = key' ∧ after = after' := by
  rcases List.append_eq_append_iff.1 h with ⟨middle, rfl, hrest⟩ | ⟨middle, rfl, hrest⟩
  · cases middle with
    | nil =>
      obtain ⟨hkey, hafter⟩ := List.cons.inj hrest
      exact ⟨(List.append_nil _).symm, Op.schedule.inj hkey, hafter⟩
    | cons op middle =>
      obtain ⟨rfl, -⟩ := List.cons.inj hrest
      exact absurd hg (Nat.ne_of_lt (returned_lt quiet before key middle key'))
  · cases middle with
    | nil =>
      obtain ⟨hkey, hafter⟩ := List.cons.inj hrest
      exact ⟨List.append_nil _, (Op.schedule.inj hkey).symm, hafter.symm⟩
    | cons op middle =>
      obtain ⟨rfl, -⟩ := List.cons.inj hrest
      exact absurd hg.symm (Nat.ne_of_lt (returned_lt quiet before' key' middle key))

/-- Every tick is of a start of its key, and its time comes a quiet period later. -/
theorem exists_start (h : t ∈ (run quiet ops).ticks) :
    ∃ before after, ops = before ++ .schedule t.key :: after ∧
      returned quiet before t.key = t.generation ∧
      t.time = (run quiet before).scheduler.now + quiet := by
  induction ops using List.reverseRecOn with
  | nil => exact absurd h List.not_mem_nil
  | append_singleton ops op ih =>
    rw [run_concat] at h
    rcases mem_ticks_step h with h | ⟨key, rfl, rfl⟩
    · obtain ⟨before, after, heq, hgen, htime⟩ := ih h
      exact ⟨before, after ++ [op], by rw [heq]; simp, hgen, htime⟩
    · refine ⟨ops, [], rfl, returned_eq quiet ops key, ?_⟩
      rw [upcoming, quiet_run]

theorem mem_ticks_of_mem_past (h : t ∈ w.past) : t ∈ w.ticks := by
  rw [past, List.mem_append] at h
  exact List.mem_append.2 (h.imp_left fun h => mem_pool.2 (Or.inr h))

theorem time_le_now (h : t ∈ (run quiet ops).past) : t.time ≤ (run quiet ops).scheduler.now := by
  induction ops using List.reverseRecOn with
  | nil => exact absurd h List.not_mem_nil
  | append_singleton ops op ih =>
    rw [run_concat] at h ⊢
    refine Nat.le_trans ?_ (clock_step op).2
    rcases mem_past_step h with h | ⟨-, h⟩
    · exact ih h
    · exact h

/-- Nothing ended a timer since it was started. -/
def Undisturbed (quiet : Nat) (before : List Op) (key : String) (after : List Op) : Prop :=
  ∀ middle op rest, after = middle ++ op :: rest →
    ¬ (run quiet (before ++ .schedule key :: middle)).Ends key (returned quiet before key) op

theorem undisturbed_concat {op : Op} :
    Undisturbed quiet before key (after ++ [op]) ↔ Undisturbed quiet before key after ∧
      ¬ (run quiet (before ++ .schedule key :: after)).Ends key (returned quiet before key) op := by
  constructor
  · intro h
    exact ⟨fun middle op' rest heq => h middle op' (rest ++ [op]) (by rw [heq]; simp),
      h after op [] rfl⟩
  · rintro ⟨h, hlast⟩ middle op' rest heq
    rcases List.eq_nil_or_concat rest with rfl | ⟨rest', last, rfl⟩
    · obtain ⟨rfl, hop⟩ := List.append_inj' heq rfl
      obtain rfl := List.singleton_inj.1 hop
      exact hlast
    · rw [List.concat_eq_append, ← List.cons_append, ← List.append_assoc] at heq
      exact h middle op' rest' (List.append_inj' heq rfl).1

/-- A timer is current exactly if nothing ended it since its key was started. -/
theorem current_iff :
    (run quiet ops).scheduler.current.get? key = some g ↔
      ∃ before after, ops = before ++ .schedule key :: after ∧ returned quiet before key = g ∧
        Undisturbed quiet before key after := by
  induction ops using List.reverseRecOn with
  | nil => simp [run]
  | append_singleton ops op ih =>
    rw [run_concat, get?_step_iff, ih]
    constructor
    · rintro (⟨⟨before, after, rfl, rfl, h⟩, hop⟩ | ⟨rfl, rfl⟩)
      · refine ⟨before, after ++ [op], by simp, rfl, undisturbed_concat.2 ⟨h, hop⟩⟩
      · refine ⟨ops, [], rfl, returned_eq quiet ops key, fun middle op rest h => ?_⟩
        simp at h
    · rintro ⟨before, after, heq, rfl, h⟩
      rcases List.eq_nil_or_concat after with rfl | ⟨after', last, rfl⟩
      · obtain ⟨rfl, hop⟩ := List.append_inj' heq rfl
        exact Or.inr ⟨List.singleton_inj.1 hop, (returned_eq quiet ops key).symm⟩
      · rw [List.concat_eq_append] at h heq
        rw [← List.cons_append, ← List.append_assoc] at heq
        obtain ⟨rfl, hop⟩ := List.append_inj' heq rfl
        obtain rfl := List.singleton_inj.1 hop
        obtain ⟨h, hlast⟩ := undisturbed_concat.1 h
        exact Or.inl ⟨⟨before, after', rfl, rfl, h⟩, hlast⟩

/-- Once the timer of a tick is ended, no tick of its generation is accepted. -/
theorem not_accepts_of_ends {start since : List Op} {op : Op} {u : Tick}
    (hstart : before = start ++ .schedule key :: since)
    (hends : (run quiet before).Ends key (returned quiet start key) op)
    (hu : u.generation = returned quiet start key) :
    ¬ (run quiet (before ++ op :: after)).Accepts u := by
  intro haccepts
  obtain ⟨start', since', heq, hreturned, hundisturbed⟩ := current_iff.1 (accepts_iff.1 haccepts).2
  rw [hstart, List.append_assoc, List.cons_append] at heq
  obtain ⟨rfl, rfl, rfl⟩ := start_unique heq (hu.symm.trans hreturned.symm)
  exact hundisturbed since op after rfl (hstart ▸ hends)

/-- A start returns a higher generation than any before, and a tick has the generation of a start of its
key. A received tick is accepted exactly if nothing has ended the timer that was started with its
generation, and then that was a quiet period ago or longer. None is accepted whose generation was
accepted before, and none that was posted before its key or all keys were cancelled. -/
theorem claims_safe (quiet : Nat) (ops : List Op) :
    (∀ before key middle key',
        returned quiet before key < returned quiet (before ++ .schedule key :: middle) key') ∧
      (∀ t ∈ (run quiet ops).ticks, ∀ u ∈ (run quiet ops).ticks,
        t.generation = u.generation → t.key = u.key) ∧
      (∀ t, (run quiet ops).Accepts t ↔ t ∈ (run quiet ops).received ∧
        ∃ before after, ops = before ++ .schedule t.key :: after ∧
          returned quiet before t.key = t.generation ∧
          (run quiet before).scheduler.now + quiet ≤ (run quiet ops).scheduler.now ∧
          Undisturbed quiet before t.key after) ∧
      (∀ before t after u, ops = before ++ .claim t :: after → (run quiet before).Accepts t →
        (run quiet ops).Accepts u → u.generation ≠ t.generation) ∧
      ∀ before op after t, ops = before ++ op :: after → op = .cancel t.key ∨ op = .cancelAll →
        t ∈ (run quiet before).past → ¬ (run quiet ops).Accepts t := by
  refine ⟨returned_lt quiet, fun t ht u hu he => ?_, fun t => ⟨fun h => ?_, ?_⟩, ?_, ?_⟩
  · obtain ⟨before, after, heq, hgen, -⟩ := exists_start ht
    obtain ⟨before', after', heq', hgen', -⟩ := exists_start hu
    exact (start_unique (heq.symm.trans heq') (hgen.trans (he.trans hgen'.symm))).2.1
  · obtain ⟨hreceived, hcurrent⟩ := accepts_iff.1 h
    have hpast : t ∈ (run quiet ops).past := List.mem_append_right _ hreceived
    obtain ⟨before, after, heq, hgen, htime⟩ := exists_start (mem_ticks_of_mem_past hpast)
    obtain ⟨before', after', heq', hgen', hundisturbed⟩ := current_iff.1 hcurrent
    obtain ⟨rfl, -, rfl⟩ := start_unique (heq.symm.trans heq') (hgen.trans hgen'.symm)
    refine ⟨hreceived, before, after, heq, hgen, ?_, hundisturbed⟩
    rw [← htime]
    exact time_le_now hpast
  · rintro ⟨hreceived, before, after, heq, hgen, -, hundisturbed⟩
    exact accepts_iff.2 ⟨hreceived, current_iff.2 ⟨before, after, heq, hgen, hundisturbed⟩⟩
  · rintro before t after u rfl ht hu he
    obtain ⟨start, since, hstart, hgen, -⟩ := current_iff.1 (accepts_iff.1 ht).2
    have hends : (run quiet before).Ends t.key (returned quiet start t.key) (.claim t) := ⟨ht, rfl⟩
    exact not_accepts_of_ends hstart hends (he.trans hgen.symm) hu
  · rintro before op after t rfl hop ht hu
    obtain ⟨start, since, hstart, hgen, -⟩ := exists_start (mem_ticks_of_mem_past ht)
    refine not_accepts_of_ends hstart ?_ hgen.symm hu
    rcases hop with rfl | rfl
    · exact rfl
    · exact trivial

def sampleOps : List Op :=
  [.schedule "a", .pass 100, .ring ⟨"a", 1, 100⟩, .schedule "a", .receive ⟨"a", 1, 100⟩,
    .claim ⟨"a", 1, 100⟩, .pass 150, .ring ⟨"a", 2, 200⟩, .receive ⟨"a", 2, 200⟩]

theorem claims_safe_sampleOps :
    (run 100 sampleOps).Accepts ⟨"a", 2, 200⟩ ∧ ¬ (run 100 sampleOps).Accepts ⟨"a", 1, 100⟩ ∧
      ¬ (run 100 (sampleOps ++ [.claim ⟨"a", 2, 200⟩])).Accepts ⟨"a", 2, 200⟩ ∧
      ¬ (run 100 (sampleOps ++ [.cancelAll, .schedule "a"])).Accepts ⟨"a", 2, 200⟩ := by
  have hsecond : (run 100 sampleOps).Accepts ⟨"a", 2, 200⟩ := by decide
  refine ⟨hsecond, by decide, fun h => ?_, ?_⟩
  · exact (claims_safe 100 _).2.2.2.1 sampleOps _ [] _ rfl hsecond h rfl
  · exact (claims_safe 100 _).2.2.2.2 sampleOps .cancelAll [.schedule "a"] _ rfl (Or.inr rfl) (by decide)

end Watch
end EditSync.Debounce
