import EditSync.Proofs.Frame.Codec

/-! Reading a stream as it comes. A frame that is decided by the octets so far is not changed by later
ones, so it does not matter in which pieces a stream arrives: what is read of a piece, and then of the rest
after what it left unread, is what is read of the whole. -/

namespace EditSync.Frame

variable (closed : Bool) {bs : List UInt8}

/-- Only the end of a stream says that no frame begins, and then nothing is left open. -/
theorem HeaderScan.run_ne {s : HeaderScan} : run closed s bs ≠ bif closed then .pending else .none := by
  induction bs generalizing s with
  | nil =>
    rw [run]
    cases closed with
    | false => simp
    | true =>
      rw [if_pos rfl, finish]
      split
      · split <;> simp [cut]
      · split <;> simp [cut]
  | cons b bs ih =>
    rw [run]
    split
    · cases s.endLine with
      | error e => cases closed <;> simp
      | ok next => cases next with
        | none => cases closed <;> simp
        | some s' => exact ih
    · exact ih

theorem readBody_ne {n : UInt64} : readBody closed n bs ≠ bif closed then .pending else .ended := by
  rw [readBody]
  split
  · cases closed <;> simp
  · split
    · cases closed <;> simp
    · split <;> cases closed <;> simp

theorem read_ne : read closed bs ≠ bif closed then .pending else .ended := by
  have hheader : HeaderScan.run closed {} bs ≠ bif closed then .pending else .none :=
    HeaderScan.run_ne closed
  rw [read]
  split
  · next hrun => cases closed with
    | true => simp
    | false => exact absurd hrun hheader
  · cases closed <;> simp
  · next hrun => cases closed with
    | true => exact absurd hrun hheader
    | false => simp
  · cases closed <;> simp
  · exact readBody_ne closed

def Header.append (more : List UInt8) : Header → Header
  | .complete length rest => .complete length (rest ++ more)
  | h => h

def Outcome.append (more : List UInt8) : Outcome → Outcome
  | .message v rest => .message v (rest ++ more)
  | o => o

theorem HeaderScan.run_append_of_decided {s : HeaderScan} (h : run false s bs ≠ .pending)
    (more : List UInt8) : run closed s (bs ++ more) = (run false s bs).append more := by
  induction bs generalizing s with
  | nil => exact absurd rfl h
  | cons b bs ih =>
    rw [run] at h
    rw [List.cons_append, run, run]
    split
    · next hb =>
      rw [if_pos hb] at h
      cases hline : s.endLine with
      | error e => rfl
      | ok next =>
        rw [hline] at h
        cases next with
        | none => rfl
        | some s' => exact ih h
    · next hb =>
      rw [if_neg hb] at h
      exact ih h

theorem readBody_append_of_decided {n : UInt64} (h : readBody false n bs ≠ .pending) (more : List UInt8) :
    readBody closed n (bs ++ more) = (readBody false n bs).append more := by
  rw [readBody] at h
  rw [readBody, readBody]
  split
  · rfl
  · next hn =>
    have hlength : n.toNat ≤ bs.length := by
      refine Nat.le_of_not_lt fun hshort => h ?_
      rw [if_neg hn, if_pos hshort]
      rfl
    have hmore : ¬(bs ++ more).length < n.toNat := by rw [List.length_append]; omega
    rw [if_neg hmore, if_neg (by omega), List.take_append_of_le_length hlength,
      List.drop_append_of_le_length hlength]
    cases (Text.Utf8.decode? (bs.take n.toNat)).bind Json.parseChars? <;> rfl

theorem read_append_of_decided (h : read false bs ≠ .pending) (more : List UInt8) :
    read closed (bs ++ more) = (read false bs).append more := by
  rw [read] at h
  have hheader : HeaderScan.run false {} bs ≠ .pending := fun hpending => h (by rw [hpending])
  rw [read, read, HeaderScan.run_append_of_decided closed hheader]
  cases hrun : HeaderScan.run false {} bs with
  | complete length rest =>
    rw [hrun] at h
    cases length with
    | none => rfl
    | some n => exact readBody_append_of_decided closed h more
  | none => rfl
  | failed e => rfl
  | pending => exact absurd hrun hheader

/-- The messages of one reading before those of another, which ends as the other does. -/
def Reading.before (ms : List Json) (r : Reading) : Reading := { r with messages := ms ++ r.messages }

theorem readAll_open_ne_ended : (readAll false bs).ending ≠ .ended := by
  induction bs using readAll.induct false with
  | case1 bs v rest h _ ih => rwa [readAll_of_message h]
  | case2 bs h => exact absurd h (read_ne false)
  | case3 bs e h => rw [readAll_of_failed h]; simp
  | case4 bs h => rw [readAll_of_pending h]; simp

theorem readAll_closed_ne_pending {unread : List UInt8} : (readAll true bs).ending ≠ .pending unread := by
  induction bs using readAll.induct true with
  | case1 bs v rest h _ ih => rwa [readAll_of_message h]
  | case2 bs h => rw [readAll_of_ended h]; simp
  | case3 bs e h => rw [readAll_of_failed h]; simp
  | case4 bs h => exact absurd h (read_ne true)

/-- What is read of a stream when it goes on. -/
theorem readAll_append (more : List UInt8) :
    readAll closed (bs ++ more) =
      match (readAll false bs).ending with
      | .pending unread => (readAll closed (unread ++ more)).before (readAll false bs).messages
      | .ended | .failed _ => readAll false bs := by
  induction bs using readAll.induct false with
  | case1 bs v rest h _ ih =>
    have hread : read closed (bs ++ more) = .message v (rest ++ more) := by
      rw [read_append_of_decided closed (by rw [h]; simp), h]
      rfl
    rw [readAll_of_message hread, readAll_of_message h, ih]
    cases (readAll false rest).ending <;> rfl
  | case2 bs h => exact absurd h (read_ne false)
  | case3 bs e h =>
    have hread : read closed (bs ++ more) = .failed e := by
      rw [read_append_of_decided closed (by rw [h]; simp), h]
      rfl
    rw [readAll_of_failed hread, readAll_of_failed h]
  | case4 bs h =>
    rw [readAll_of_pending h]
    rfl

end EditSync.Frame
