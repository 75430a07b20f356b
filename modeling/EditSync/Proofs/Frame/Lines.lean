import EditSync.Proofs.Frame.Stream

/-! Taking one frame off a stream line by line. Errors are told with the octets that they leave, which the
reading of a whole stream has no use for. Reading octet by octet comes to the same. -/

namespace EditSync.Frame

open Text

def splitLine (bs : List UInt8) : List UInt8 × List UInt8 :=
  (bs.takeWhile (· ≠ 10), (bs.dropWhile (· ≠ 10)).drop 1)

theorem length_splitLine_lt (b : UInt8) (bs : List UInt8) :
    (splitLine (b :: bs)).2.length < (b :: bs).length := by
  have hsplit := congrArg List.length (List.takeWhile_append_dropWhile (p := (· ≠ 10)) (l := b :: bs))
  rw [List.length_append] at hsplit
  rw [splitLine, List.length_drop]
  rw [List.length_cons] at *
  omega

/-- Reads lines up to a blank one, which leaves the length that was said last. There is no header at all
where the stream ends before its first line. The octets that are left come second. -/
def readLines (started : Bool) (length : Option UInt64) (bs : List UInt8) :
    Except SyncError (Option (Option UInt64)) × List UInt8 :=
  match bs with
  | [] => (if started then .error (malformed "EOF inside header block") else .ok none, [])
  | b :: bs =>
    let split := splitLine (b :: bs)
    match Line.ofBytes split.1 with
    | .error e => (.error e, split.2)
    | .ok .blank => (.ok (some length), split.2)
    | .ok (.contentLength n) => readLines true (some n) split.2
    | .ok .other => readLines true length split.2
termination_by bs.length
decreasing_by all_goals exact length_splitLine_lt b bs

def decodeBody (bs : List UInt8) : Except SyncError Json :=
  match (Utf8.decode? bs).bind Json.parseChars? with
  | some v => .ok v
  | none => .error (malformed "invalid JSON body")

def takeBody (n : UInt64) (bs : List UInt8) : Except SyncError Json × List UInt8 :=
  if n > maxBody then (.error (malformed s!"Content-Length {n} exceeds {maxBody} bytes"), bs)
  else if bs.length < n.toNat then (.error (.io .unexpectedEnd), [])
  else (decodeBody (bs.take n.toNat), bs.drop n.toNat)

/-- Takes one frame off a stream that has ended: what it comes to, and the octets that are left. -/
def takeFrame (bs : List UInt8) : Except SyncError (Option Json) × List UInt8 :=
  match readLines false none bs with
  | (.error e, rest) => (.error e, rest)
  | (.ok none, rest) => (.ok none, rest)
  | (.ok (some none), rest) => (.error (malformed "missing Content-Length header"), rest)
  | (.ok (some (some n)), rest) => ((takeBody n rest).1.map some, (takeBody n rest).2)

def Header.ofLines : Except SyncError (Option (Option UInt64)) × List UInt8 → Header
  | (.error e, _) => Header.failed e
  | (.ok Option.none, _) => Header.none
  | (.ok (some length), rest) => Header.complete length rest

def Outcome.ofTaken : Except SyncError (Option Json) × List UInt8 → Outcome
  | (.error e, _) => .failed e
  | (.ok none, _) => .ended
  | (.ok (some v), rest) => .message v rest

theorem splitLine_append {line : List UInt8} (h : 10 ∉ line) (rest : List UInt8) :
    splitLine (line ++ 10 :: rest) = (line, rest) := by
  have hline : ∀ b ∈ line, decide (b ≠ 10) = true := fun b hb =>
    decide_eq_true fun h10 => h (h10 ▸ hb)
  rw [splitLine, List.takeWhile_append_of_pos hline, List.dropWhile_append_of_pos hline]
  simp

theorem splitLine_of_notMem {line : List UInt8} (h : 10 ∉ line) : splitLine line = (line, []) := by
  have hline : ∀ b ∈ line, decide (b ≠ 10) = true := fun b hb =>
    decide_eq_true fun h10 => h (h10 ▸ hb)
  rw [splitLine, List.takeWhile_eq_self_iff.2 hline, List.dropWhile_eq_nil_iff.2 hline, List.drop_nil]

/-- The line at the front ends with a newline, or the stream ends with it. -/
theorem exists_line (bs : List UInt8) :
    ∃ line, 10 ∉ line ∧ (bs = line ∨ ∃ rest, bs = line ++ 10 :: rest) := by
  induction bs with
  | nil => exact ⟨[], List.not_mem_nil, Or.inl rfl⟩
  | cons b bs ih =>
    by_cases hb : b = 10
    · exact ⟨[], List.not_mem_nil, Or.inr ⟨bs, by rw [hb]; rfl⟩⟩
    · obtain ⟨line, hline, hbs⟩ := ih
      refine ⟨b :: line, by simp [Ne.symm hb, hline], ?_⟩
      rcases hbs with rfl | ⟨rest, rfl⟩
      · exact Or.inl rfl
      · exact Or.inr ⟨rest, rfl⟩

section

variable (started : Bool) (length : Option UInt64)

theorem readLines_nil :
    readLines started length [] =
      (if started then .error (malformed "EOF inside header block") else .ok none, []) := by
  rw [readLines]

theorem readLines_of_ne_nil {bs : List UInt8} (h : bs ≠ []) :
    readLines started length bs =
      match Line.ofBytes (splitLine bs).1 with
      | .error e => (.error e, (splitLine bs).2)
      | .ok .blank => (.ok (some length), (splitLine bs).2)
      | .ok (.contentLength n) => readLines true (some n) (splitLine bs).2
      | .ok .other => readLines true length (splitLine bs).2 := by
  cases bs with
  | nil => exact absurd rfl h
  | cons b bs => rw [readLines]

/-- The scan of the octets and the reading of whole lines agree. -/
theorem run_eq_ofLines (bs : List UInt8) :
    HeaderScan.run true { started, length } bs = .ofLines (readLines started length bs) := by
  induction hn : bs.length using Nat.strongRecOn generalizing started length bs with
  | ind n ih =>
    obtain ⟨line, hline, rfl | ⟨rest, rfl⟩⟩ := exists_line bs
    · -- the stream ends with this line, if there is one
      have hrun := HeaderScan.run_append true { started, length } hline []
      rw [List.append_nil, List.append_nil] at hrun
      rw [hrun, HeaderScan.run, if_pos rfl, HeaderScan.finish]
      by_cases hempty : bs = []
      · rw [hempty, readLines_nil]
        cases started <;> rfl
      · rw [if_neg (by simpa using hempty), HeaderScan.endLine, List.reverse_reverse,
          readLines_of_ne_nil started length hempty, splitLine_of_notMem hline]
        cases Line.ofBytes bs with
        | error e => rfl
        | ok said => cases said <;> simp only [Except.map, readLines_nil] <;> rfl
    · rw [HeaderScan.run_append true { started, length } hline, List.append_nil, HeaderScan.run, if_pos rfl,
        HeaderScan.endLine, List.reverse_reverse, readLines_of_ne_nil started length (by simp),
        splitLine_append hline]
      have hshorter : rest.length < n := by
        rw [← hn, List.length_append, List.length_cons]
        omega
      cases Line.ofBytes line with
      | error e => rfl
      | ok said =>
        cases said with
        | blank => rfl
        | contentLength m => exact ih _ hshorter true (some m) rest rfl
        | other => exact ih _ hshorter true length rest rfl

end

/-- Reading a frame octet by octet comes to what taking it line by line does. -/
theorem read_eq_ofTaken (bs : List UInt8) : read true bs = .ofTaken (takeFrame bs) := by
  have hheader := run_eq_ofLines false none bs
  rw [read, hheader, takeFrame]
  rcases hlines : readLines false none bs with ⟨_ | _ | _ | n, rest⟩
  · rfl
  · rfl
  · rfl
  · dsimp only [Header.ofLines]
    rw [readBody, takeBody]
    split
    · rfl
    · split
      · rfl
      · rw [decodeBody]
        cases (Utf8.decode? (rest.take n.toNat)).bind Json.parseChars? <;> rfl

end EditSync.Frame
