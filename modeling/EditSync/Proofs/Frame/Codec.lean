import EditSync.Frame.Reader
import EditSync.Proofs.Frame.Header
import EditSync.Proofs.Json.Reader
import Mathlib.Data.List.TakeWhile

/-! Frames are read as they were written, each from where the one before it ends, up to the first that
only the reader has a limit for: a body that is too long or nested too deeply. -/

namespace EditSync.Frame

open Text

variable {closed : Bool} {bs rest : List UInt8}

theorem readAll_of_message {v : Json} (h : read closed bs = .message v rest) :
    readAll closed bs =
      { readAll closed rest with messages := v :: (readAll closed rest).messages } := by
  rw [readAll]
  split
  · next v' rest' heq =>
    obtain ⟨rfl, rfl⟩ := Outcome.message.inj (h.symm.trans heq)
    rfl
  · next heq => exact absurd (h.symm.trans heq) (by simp)
  · next heq => exact absurd (h.symm.trans heq) (by simp)
  · next heq => exact absurd (h.symm.trans heq) (by simp)

theorem readAll_of_ended (h : read closed bs = .ended) : readAll closed bs = ⟨[], .ended⟩ := by
  rw [readAll]
  split
  · next heq => exact absurd (h.symm.trans heq) (by simp)
  · rfl
  · next heq => exact absurd (h.symm.trans heq) (by simp)
  · next heq => exact absurd (h.symm.trans heq) (by simp)

theorem readAll_of_failed {e : SyncError} (h : read closed bs = .failed e) :
    readAll closed bs = ⟨[], .failed e⟩ := by
  rw [readAll]
  split
  · next heq => exact absurd (h.symm.trans heq) (by simp)
  · next heq => exact absurd (h.symm.trans heq) (by simp)
  · next e' heq =>
    obtain rfl := Outcome.failed.inj (h.symm.trans heq)
    rfl
  · next heq => exact absurd (h.symm.trans heq) (by simp)

theorem readAll_of_pending (h : read closed bs = .pending) : readAll closed bs = ⟨[], .pending bs⟩ := by
  rw [readAll]
  split
  · next heq => exact absurd (h.symm.trans heq) (by simp)
  · next heq => exact absurd (h.symm.trans heq) (by simp)
  · next heq => exact absurd (h.symm.trans heq) (by simp)
  · rfl

theorem readAll_nil (closed : Bool) : readAll closed [] = ⟨[], if closed then .ended else .pending []⟩ := by
  cases closed with
  | true => exact readAll_of_ended rfl
  | false => exact readAll_of_pending rfl

def body (v : Json) : List UInt8 := Utf8.encode (Json.print v [])

/-- A reader accepts the frame of this value. -/
def fits (v : Json) : Bool := (body v).length ≤ maxBody.toNat && v.depth ≤ Json.maxDepth

theorem fits_iff {v : Json} :
    fits v = true ↔ (body v).length ≤ maxBody.toNat ∧ v.depth ≤ Json.maxDepth := by
  rw [fits, Bool.and_eq_true, decide_eq_true_eq, decide_eq_true_eq]

def refusal (v : Json) : SyncError :=
  malformed <|
    if (body v).length ≤ maxBody.toNat then "invalid JSON body"
    else if (body v).length < UInt64.size then
      s!"Content-Length {UInt64.ofNat (body v).length} exceeds {maxBody} bytes"
    else s!"invalid Content-Length: {LengthFault.tooLarge.message}"

theorem write_eq (v : Json) : write v = Utf8.encode (header (body v).length) ++ body v := rfl

theorem maxBody_lt_size : maxBody.toNat < UInt64.size := by decide

theorem ofNat_gt_maxBody_iff {n : Nat} (hn : n < UInt64.size) :
    UInt64.ofNat n > maxBody ↔ maxBody.toNat < n := by
  rw [gt_iff_lt, UInt64.lt_iff_toNat_lt, UInt64.toNat_ofNat_of_lt' hn]

theorem readBody_append (closed : Bool) {n : Nat} (hn : n < UInt64.size) (bs : List UInt8)
    (hlength : bs.length = n) (rest : List UInt8) :
    readBody closed (UInt64.ofNat n) (bs ++ rest) =
      if maxBody.toNat < n then
        .failed (malformed s!"Content-Length {UInt64.ofNat n} exceeds {maxBody} bytes")
      else
        match (Utf8.decode? bs).bind Json.parseChars? with
        | some v => .message v rest
        | none => .failed (malformed "invalid JSON body") := by
  rw [readBody, UInt64.toNat_ofNat_of_lt' hn]
  by_cases h : maxBody.toNat < n
  · rw [if_pos ((ofNat_gt_maxBody_iff hn).2 h), if_pos h]
  · have hwhole : ¬(bs ++ rest).length < n := by rw [List.length_append]; omega
    rw [if_neg (mt (ofNat_gt_maxBody_iff hn).1 h), if_neg h, if_neg hwhole, List.take_left' hlength]
    cases (Utf8.decode? bs).bind Json.parseChars? with
    | none => rfl
    | some v => exact congrArg (Outcome.message v) (List.drop_left' hlength)

/-- A written frame is read as its value and exactly up to its end, or refused for its limit. -/
theorem read_write (closed : Bool) {v : Json} (h : v.WellFormed) (rest : List UInt8) :
    read closed (write v ++ rest) = if fits v then .message v rest else .failed (refusal v) := by
  have hparse : (Utf8.decode? (body v)).bind Json.parseChars? =
      if v.depth ≤ Json.maxDepth then some v else none := by
    rw [body, Utf8.decode?_encode, Option.bind_some, Json.parseChars?_print h]
  have hbound := maxBody_lt_size
  rw [read, write_eq, List.append_assoc, run_header]
  by_cases hn : (body v).length < UInt64.size
  · rw [if_pos hn]
    dsimp only
    rw [readBody_append closed hn (body v) rfl, hparse]
    by_cases hlarge : maxBody.toNat < (body v).length
    · have hunfit : ¬fits v = true := mt fits_iff.1 fun hfits => absurd hfits.1 (by omega)
      rw [if_pos hlarge, if_neg hunfit, refusal, if_neg (by omega), if_pos hn]
    · by_cases hdeep : v.depth ≤ Json.maxDepth
      · have hfits : fits v = true := fits_iff.2 ⟨by omega, hdeep⟩
        rw [if_neg hlarge, if_pos hdeep, if_pos hfits]
      · have hunfit : ¬fits v = true := mt fits_iff.1 fun hfits => absurd hfits.2 hdeep
        rw [if_neg hlarge, if_neg hdeep, if_neg hunfit, refusal, if_pos (by omega)]
  · have hunfit : ¬fits v = true := mt fits_iff.1 fun hfits => absurd hfits.1 (by omega)
    rw [if_neg hn, if_neg hunfit, refusal, if_neg (by omega), if_neg hn]

/-- Values that were written are read up to the first that does not fit. If there is none, reading goes on
after them. -/
theorem readAll_writeAll_append (closed : Bool) {vs : List Json} (h : ∀ v ∈ vs, v.WellFormed)
    (rest : List UInt8) :
    readAll closed (writeAll vs ++ rest) =
      { messages := vs.takeWhile fits ++ if vs.all fits then (readAll closed rest).messages else []
        ending := match vs.find? fun v => !fits v with
          | none => (readAll closed rest).ending
          | some v => .failed (refusal v) } := by
  induction vs with
  | nil => rfl
  | cons v vs ih =>
    have hread := read_write closed (h v List.mem_cons_self) (writeAll vs ++ rest)
    have hcons : writeAll (v :: vs) ++ rest = write v ++ (writeAll vs ++ rest) := by
      rw [writeAll, List.flatMap_cons, List.append_assoc]
      rfl
    rw [hcons]
    cases hv : fits v with
    | true =>
      rw [hv] at hread
      rw [readAll_of_message hread, ih fun w hw => h w (List.mem_cons_of_mem v hw),
        List.takeWhile_cons_of_pos hv, List.find?_cons_of_neg (by simp [hv]), List.all_cons, hv,
        Bool.true_and, List.cons_append]
    | false =>
      rw [hv] at hread
      rw [readAll_of_failed hread, List.takeWhile_cons_of_neg (by simp [hv]),
        List.find?_cons_of_pos (by simp [hv]), List.all_cons, hv]
      rfl

theorem readAll_writeAll_of_fits (closed : Bool) {vs : List Json}
    (h : ∀ v ∈ vs, v.WellFormed ∧ fits v = true) :
    readAll closed (writeAll vs) = ⟨vs, if closed then .ended else .pending []⟩ := by
  have hnone : (vs.find? fun v => !fits v) = none :=
    List.find?_eq_none.2 fun v hv => by simp [(h v hv).2]
  have htake : vs.takeWhile fits = vs := List.takeWhile_eq_self_iff.2 fun v hv => (h v hv).2
  have hread := readAll_writeAll_append closed (fun v hv => (h v hv).1) []
  rwa [hnone, htake, List.append_nil, readAll_nil, ite_self, List.append_nil] at hread

/-- Reading what was written gives the values up to the first that does not fit. Then the stream has
ended, or that value is refused. -/
theorem readAll_writeAll (vs : List Json) (h : ∀ v ∈ vs, v.WellFormed) :
    readAll true (writeAll vs) =
      { messages := vs.takeWhile fits
        ending := match vs.find? fun v => !fits v with
          | none => .ended
          | some v => .failed (refusal v) } := by
  have hread := readAll_writeAll_append true h []
  rwa [List.append_nil, readAll_nil, ite_self, List.append_nil] at hread

def nested : Nat → Json
  | 0 => .null
  | n + 1 => .arr [nested n]

theorem wellFormed_nested (n : Nat) : (nested n).WellFormed := by
  induction n with
  | zero => exact .null
  | succ n ih =>
    refine .arr fun v hv => ?_
    rw [List.mem_singleton.1 hv]
    exact ih

def sampleValues : List Json :=
  [.object [("name", .str "ä\n\"𝄞"),
      ("größe", .arr [.int (-9223372036854775808), .int 18446744073709551615])],
    nested 127, nested 128, .null]

theorem readAll_writeAll_nested :
    (∀ v ∈ sampleValues, v.WellFormed) ∧
      readAll true (writeAll sampleValues) =
        ⟨sampleValues.take 2, .failed (malformed "invalid JSON body")⟩ := by
  have hwellFormed : ∀ v ∈ sampleValues, v.WellFormed := by
    simp only [sampleValues, List.forall_mem_cons, List.not_mem_nil, false_implies, implies_true, and_true]
    refine ⟨.object ?_, wellFormed_nested 127, wellFormed_nested 128, .null⟩
    simp only [List.forall_mem_cons, List.not_mem_nil, false_implies, implies_true, and_true]
    refine ⟨.str _, .arr ?_⟩
    simp only [List.forall_mem_cons, List.not_mem_nil, false_implies, implies_true, and_true]
    exact ⟨.int (by decide) (by decide), .int (by decide) (by decide)⟩
  have hfits : sampleValues.map fits = [true, true, false, true] := by decide +kernel
  have hshort : (body (nested 128)).length ≤ maxBody.toNat := by decide +kernel
  refine ⟨hwellFormed, (readAll_writeAll sampleValues hwellFormed).trans ?_⟩
  simp only [sampleValues, List.map_cons, List.cons.injEq] at hfits
  obtain ⟨hobject, hdeepest, hdeeper, -⟩ := hfits
  simp [sampleValues, hobject, hdeepest, hdeeper, refusal, hshort]

end EditSync.Frame
