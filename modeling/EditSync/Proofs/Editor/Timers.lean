import EditSync.Debounce

/-! Every entry of a scheduler stands for a timer that runs or for a tick that was posted and that
nobody has taken. A tick therefore is taken in vain only if its timer was replaced, cancelled or given
up. Timers run out one by one, in any order once they are due. -/

namespace EditSync.Debounce

/-- Time goes on, and no timer has noticed yet. -/
def pass (d : Debounce) (ms : Nat) : Debounce := { d with now := d.now + ms }

def ring (d : Debounce) (t : Tick) : Debounce :=
  if t ∈ d.running ∧ d.isDue t then
    { d with running := d.running.erase t, posted := d.posted ++ [t] }
  else d

def take (d : Debounce) (t : Tick) : Debounce := { d with posted := d.posted.erase t }

/-- The ticks of all timers that run, and those that were posted and not taken. -/
def pool (d : Debounce) : List Tick := d.running ++ d.posted

structure Sound (d : Debounce) : Prop where
  bounded : ∀ t ∈ d.pool, t.generation ≤ d.generation
  keyed : ∀ t ∈ d.pool, ∀ u ∈ d.pool, t.generation = u.generation → t.key = u.key
  ticking : ∀ k g, d.current.get? k = some g → ∃ t ∈ d.pool, t.key = k ∧ t.generation = g

theorem mem_pool {d : Debounce} {t : Tick} : t ∈ d.pool ↔ t ∈ d.running ∨ t ∈ d.posted :=
  List.mem_append

theorem sound_start (quiet : Nat) : Sound { quiet } :=
  ⟨fun t ht => absurd ht List.not_mem_nil, fun t ht => absurd ht List.not_mem_nil,
    fun k g h => by simp at h⟩

theorem isRunning_iff {d : Debounce} {g : Nat} :
    d.isRunning g = true ↔ ∃ t ∈ d.running, t.generation = g := by
  simp [isRunning]

/-- Two entries of one generation are the same. -/
theorem Sound.key_eq {d : Debounce} (h : d.Sound) {k l : String} {g : Nat}
    (hk : d.current.get? k = some g) (hl : d.current.get? l = some g) : k = l := by
  obtain ⟨t, ht, rfl, htg⟩ := h.ticking k g hk
  obtain ⟨u, hu, rfl, hug⟩ := h.ticking l g hl
  exact h.keyed t ht u hu (htg.trans hug.symm)

theorem get?_prune (d : Debounce) (k : String) :
    d.prune.current.get? k =
      if crowded < d.current.size then (d.current.get? k).filter fun g => d.isRunning g
      else d.current.get? k := by
  unfold prune
  split
  · exact Table.get?_filter _ _ k
  · rfl

theorem prune_frame (d : Debounce) :
    d.prune.running = d.running ∧ d.prune.posted = d.posted ∧ d.prune.generation = d.generation ∧
      d.prune.now = d.now ∧ d.prune.quiet = d.quiet := by
  unfold prune
  split <;> exact ⟨rfl, rfl, rfl, rfl, rfl⟩

theorem get?_of_get?_prune {d : Debounce} {k : String} {g : Nat}
    (h : d.prune.current.get? k = some g) : d.current.get? k = some g := by
  rw [get?_prune] at h
  split at h
  · exact (Option.filter_eq_some_iff.1 h).1
  · exact h

theorem Sound.prune {d : Debounce} (h : d.Sound) : d.prune.Sound := by
  obtain ⟨hr, hp, hg, -, -⟩ := prune_frame d
  have hpool : d.prune.pool = d.pool := by rw [pool, hr, hp, pool]
  refine ⟨?_, ?_, ?_⟩
  · rw [hpool, hg]; exact h.bounded
  · rw [hpool]; exact h.keyed
  · intro k g hk
    rw [hpool]
    exact h.ticking k g (get?_of_get?_prune hk)

theorem get?_cancel (d : Debounce) (key k : String) :
    (d.cancel key).1.current.get? k = if k = key then none else d.current.get? k := by
  unfold cancel
  split
  · next h =>
    split
    · next hk => rw [hk, h]
    · rfl
  · exact Table.get?_erase _ _ _

theorem cancel_frame (d : Debounce) (key : String) :
    (d.cancel key).1.posted = d.posted ∧ (d.cancel key).1.generation = d.generation ∧
      (d.cancel key).1.now = d.now ∧ (d.cancel key).1.quiet = d.quiet := by
  unfold cancel
  split <;> exact ⟨rfl, rfl, rfl, rfl⟩

theorem cancel_snd (d : Debounce) (key : String) : (d.cancel key).2 = d.hasPending key := by
  unfold cancel hasPending Table.contains
  split
  · next h => rw [h]; rfl
  · next h => rw [h]; rfl

/-- What runs after a cancel is what ran before, less the timer of the key. -/
theorem mem_running_cancel {d : Debounce} {key : String} {t : Tick} :
    t ∈ (d.cancel key).1.running ↔ t ∈ d.running ∧ d.current.get? key ≠ some t.generation := by
  unfold cancel
  split
  · next h => simp [h]
  · next g h =>
    rw [h]
    simp only [List.mem_filter, decide_eq_true_eq, ne_eq, Option.some.injEq]
    exact and_congr_right fun _ => not_congr eq_comm

theorem mem_pool_of_mem_cancel {d : Debounce} {key : String} {t : Tick}
    (h : t ∈ (d.cancel key).1.pool) : t ∈ d.pool := by
  rcases mem_pool.1 h with h | h
  · exact mem_pool.2 (Or.inl (mem_running_cancel.1 h).1)
  · rw [(cancel_frame d key).1] at h
    exact mem_pool.2 (Or.inr h)

theorem Sound.cancel {d : Debounce} (h : d.Sound) (key : String) : (d.cancel key).1.Sound := by
  refine ⟨?_, ?_, ?_⟩
  · intro t ht
    rw [(cancel_frame d key).2.1]
    exact h.bounded t (mem_pool_of_mem_cancel ht)
  · intro t ht u hu
    exact h.keyed t (mem_pool_of_mem_cancel ht) u (mem_pool_of_mem_cancel hu)
  · intro k g hk
    rw [get?_cancel] at hk
    split at hk
    · exact absurd hk (by simp)
    · next hne =>
      obtain ⟨t, ht, htk, htg⟩ := h.ticking k g hk
      refine ⟨t, ?_, htk, htg⟩
      rcases mem_pool.1 ht with hr | hp
      · refine mem_pool.2 (Or.inl (mem_running_cancel.2 ⟨hr, fun hc => hne ?_⟩))
        exact h.key_eq hk (htg ▸ hc)
      · exact mem_pool.2 (Or.inr ((cancel_frame d key).1.symm ▸ hp))

theorem generation_prune_cancel (d : Debounce) (key : String) :
    (d.prune.cancel key).1.generation = d.generation := by
  rw [(cancel_frame _ key).2.1, (prune_frame d).2.2.1]

theorem get?_schedule (d : Debounce) (key k : String) :
    (d.schedule key).1.current.get? k =
      if k = key then some (d.generation + 1) else d.prune.current.get? k := by
  simp only [schedule, Table.get?_set, get?_cancel, generation_prune_cancel]
  split <;> rfl

def upcoming (d : Debounce) (key : String) : Tick := ⟨key, d.generation + 1, d.now + d.quiet⟩

/-- A timer that is started joins those that are left. -/
theorem mem_pool_schedule {d : Debounce} {key : String} {t : Tick} :
    t ∈ (d.schedule key).1.pool ↔ t ∈ (d.prune.cancel key).1.pool ∨ t = d.upcoming key := by
  have hnew : (d.schedule key).1.running = (d.prune.cancel key).1.running ++ [d.upcoming key] := by
    obtain ⟨-, -, hg, hn, hq⟩ := prune_frame d
    obtain ⟨-, hg', hn', hq'⟩ := cancel_frame d.prune key
    simp only [schedule, upcoming, hg', hn', hq', hg, hn, hq]
  rw [mem_pool, mem_pool, hnew, List.mem_append, List.mem_singleton, or_right_comm]
  rfl

theorem generation_schedule (d : Debounce) (key : String) :
    (d.schedule key).1.generation = d.generation + 1 := by
  simp only [schedule, generation_prune_cancel]

theorem Sound.schedule {d : Debounce} (h : d.Sound) (key : String) : (d.schedule key).1.Sound := by
  have hc := h.prune.cancel key
  have hbound : ∀ t ∈ (d.prune.cancel key).1.pool, t.generation ≤ d.generation := by
    intro t ht
    rw [← generation_prune_cancel d key]
    exact hc.bounded t ht
  have hgen : (d.upcoming key).generation = d.generation + 1 := rfl
  refine ⟨fun t ht => ?_, fun t ht u hu he => ?_, fun k g hk => ?_⟩
  · rw [generation_schedule]
    rcases mem_pool_schedule.1 ht with ht | rfl
    · exact Nat.le_succ_of_le (hbound t ht)
    · exact Nat.le_refl _
  · rcases mem_pool_schedule.1 ht with ht | rfl <;> rcases mem_pool_schedule.1 hu with hu | rfl
    · exact hc.keyed t ht u hu he
    · have := hbound t ht
      omega
    · have := hbound u hu
      omega
    · rfl
  · rw [get?_schedule] at hk
    split at hk
    · next hkey =>
      obtain rfl := Option.some.inj hk
      exact ⟨d.upcoming key, mem_pool_schedule.2 (Or.inr rfl), hkey.symm, rfl⟩
    · next hne =>
      have hcur : (d.prune.cancel key).1.current.get? k = some g := by
        rw [get?_cancel, if_neg hne]
        exact hk
      obtain ⟨t, ht, htk⟩ := hc.ticking k g hcur
      exact ⟨t, mem_pool_schedule.2 (Or.inl ht), htk⟩

/-- Starting the timer of one key ends no other that runs. -/
theorem Sound.running_schedule {d : Debounce} (h : d.Sound) {key k : String} {g : Nat} (hne : k ≠ key)
    (hk : d.current.get? k = some g) (hr : d.isRunning g = true) :
    (d.schedule key).1.current.get? k = some g ∧ (d.schedule key).1.isRunning g = true := by
  have hp : d.prune.current.get? k = some g := by
    rw [get?_prune]
    split
    · rw [hk]; simp [Option.filter, hr]
    · exact hk
  constructor
  · rw [get?_schedule, if_neg hne]; exact hp
  · obtain ⟨t, ht, htg⟩ := isRunning_iff.1 hr
    refine isRunning_iff.2 ⟨t, ?_, htg⟩
    simp only [Debounce.schedule]
    refine List.mem_append_left _ (mem_running_cancel.2 ⟨(prune_frame d).1.symm ▸ ht, fun hc => hne ?_⟩)
    exact h.prune.key_eq hp (htg ▸ hc)

theorem isRunning_schedule_self (d : Debounce) (key : String) :
    (d.schedule key).1.isRunning (d.generation + 1) = true := by
  rw [isRunning_iff]
  simp only [Debounce.schedule, generation_prune_cancel]
  exact ⟨_, List.mem_append_right _ (List.mem_singleton_self _), rfl⟩

theorem Sound.pass {d : Debounce} (h : d.Sound) (ms : Nat) : (d.pass ms).Sound :=
  ⟨h.bounded, h.keyed, h.ticking⟩

theorem mem_pool_ring {d : Debounce} {t u : Tick} : u ∈ (d.ring t).pool ↔ u ∈ d.pool := by
  unfold ring
  split
  · next ht =>
    simp only [pool, List.mem_append, List.mem_singleton]
    by_cases hu : u = t
    · simp [hu, ht.1]
    · simp [List.mem_erase_of_ne hu, hu]
  · rfl

theorem ring_frame (d : Debounce) (t : Tick) :
    (d.ring t).current = d.current ∧ (d.ring t).generation = d.generation := by
  unfold ring
  split <;> exact ⟨rfl, rfl⟩

theorem Sound.ring {d : Debounce} (h : d.Sound) (t : Tick) : (d.ring t).Sound := by
  obtain ⟨hc, hg⟩ := ring_frame d t
  refine ⟨fun u hu => ?_, fun u hu v hv => ?_, fun k g hk => ?_⟩
  · rw [hg]; exact h.bounded u (mem_pool_ring.1 hu)
  · exact h.keyed u (mem_pool_ring.1 hu) v (mem_pool_ring.1 hv)
  · obtain ⟨u, hu, huk⟩ := h.ticking k g (hc ▸ hk)
    exact ⟨u, mem_pool_ring.2 hu, huk⟩

theorem get?_claim (d : Debounce) (key : String) (g : Nat) (k : String) :
    (d.claim key g).1.current.get? k =
      if d.current.get? key = some g ∧ k = key then none else d.current.get? k := by
  unfold claim
  split
  · next h => simp [Table.get?_erase, h]
  · next h => simp [h]

theorem claim_of_ne {d : Debounce} {key : String} {g : Nat} (h : d.current.get? key ≠ some g) :
    (d.claim key g).1 = d := by
  rw [claim, if_neg h]

theorem claim_frame (d : Debounce) (key : String) (g : Nat) :
    (d.claim key g).1.running = d.running ∧ (d.claim key g).1.posted = d.posted ∧
      (d.claim key g).1.generation = d.generation := by
  unfold claim
  split <;> exact ⟨rfl, rfl, rfl⟩

/-- A tick that is taken is claimed, or it was no longer the tick of an entry. -/
theorem Sound.take_claim {d : Debounce} (h : d.Sound) (t : Tick) :
    ((d.take t).claim t.key t.generation).1.Sound := by
  obtain ⟨hr, hp, hg⟩ := claim_frame (d.take t) t.key t.generation
  have hmem : ∀ u, u ∈ ((d.take t).claim t.key t.generation).1.pool → u ∈ d.pool := by
    intro u hu
    rw [mem_pool, hr, hp] at hu
    exact mem_pool.2 (hu.imp_right List.mem_of_mem_erase)
  refine ⟨fun u hu => ?_, fun u hu v hv => ?_, fun k g hk => ?_⟩
  · rw [hg]; exact h.bounded u (hmem u hu)
  · exact h.keyed u (hmem u hu) v (hmem v hv)
  · rw [get?_claim] at hk
    split at hk
    · exact absurd hk (by simp)
    · next hne =>
      obtain ⟨u, hu, huk, hug⟩ := h.ticking k g hk
      refine ⟨u, ?_, huk, hug⟩
      have hut : u ≠ t := by
        rintro rfl
        exact hne ⟨by rw [huk, hug]; exact hk, huk.symm⟩
      rw [mem_pool, hr, hp]
      exact (mem_pool.1 hu).imp_right fun hu => (List.mem_erase_of_ne hut).2 hu

/-- Letting all timers that are due run out is letting each of them. -/
theorem expire_eq_foldl_ring (d : Debounce) : d.expire = (d.running.filter d.isDue).foldl ring d := by
  have hfold : ∀ (l m posted : List Tick), (∀ t ∈ m, d.isDue t = false) →
      (l.filter d.isDue).foldl ring { d with running := m ++ l, posted := posted } =
        { d with running := m ++ l.filter (fun t => !d.isDue t), posted := posted ++ l.filter d.isDue } := by
    intro l
    induction l with
    | nil => intro m posted _; simp
    | cons t l ih =>
      intro m posted hm
      cases ht : d.isDue t with
      | false =>
        have := ih (m ++ [t]) posted (by
          intro u hu
          rcases List.mem_append.1 hu with hu | hu
          · exact hm u hu
          · rw [List.mem_singleton.1 hu]; exact ht)
        simpa [List.filter_cons, ht] using this
      | true =>
        have htm : t ∉ m := fun h => by simp [hm t h] at ht
        have hring : ring { d with running := m ++ t :: l, posted := posted } t =
            { d with running := m ++ l, posted := posted ++ [t] } := by
          rw [ring, if_pos ⟨by simp, ht⟩]
          simp [List.erase_append_right _ htm]
        have := ih m (posted ++ [t]) hm
        simp only [List.filter_cons, ht, if_true, List.foldl_cons, hring, this]
        simp
  have := hfold d.running [] d.posted (by simp)
  simp only [List.nil_append] at this
  exact this.symm

end EditSync.Debounce
