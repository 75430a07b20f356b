import EditSync.Proofs.Frame.Codec

/-! A stream that stops in the middle of a frame. The frames before that are read as ever. What is there of
the last one never makes a message, wherever it stops: within the name of the length or its digits, which may
leave a shorter number, between a carriage return and its newline, which leaves a line that looks blank, or
within the body. -/

namespace EditSync.Frame

open Text

theorem encode_of_narrow {cs : List Char} (h : ∀ c ∈ cs, c.utf8Size = 1) :
    Utf8.encode cs = cs.map fun c => c.val.toUInt8 := by
  induction cs with
  | nil => rfl
  | cons c cs ih =>
    have hc : String.utf8EncodeChar c = [c.val.toUInt8] :=
      String.utf8EncodeChar_eq_singleton (h c List.mem_cons_self)
    rw [List.map_cons, ← ih fun d hd => h d (List.mem_cons_of_mem c hd), Utf8.encode, List.flatMap_cons, hc]
    rfl

theorem utf8Size_of_isDigit {c : Char} (h : c.isDigit = true) : c.utf8Size = 1 := by
  simp only [Char.isDigit, Bool.and_eq_true, decide_eq_true_eq] at h
  rw [Char.utf8Size_eq_one_iff]
  exact UInt32.le_trans h.2 (by decide)

theorem narrow_lengthLine {n : Nat} : ∀ c ∈ lengthLine n, c.utf8Size = 1 := by
  have hall : lengthName.all (fun c => c.utf8Size == 1) = true := by decide
  have hname : ∀ c ∈ lengthName, c.utf8Size = 1 := by simpa using hall
  simp only [lengthLine, List.mem_append, List.mem_cons, List.not_mem_nil, or_false]
  rintro c (hc | rfl | hc | rfl)
  · exact hname c hc
  · rfl
  · exact utf8Size_of_isDigit (Json.isDigit_of_mem_toDigits hc)
  · rfl

/-- A stream that ends within a line. -/
theorem HeaderScan.run_unended {s : HeaderScan} (hs : s.line = []) {cs : List Char} (hne : cs ≠ [])
    (h : '\n' ∉ cs) :
    run true s (Utf8.encode cs) =
      match Line.ofChars cs with
      | .error e => .failed e
      | .ok .blank => .complete s.length []
      | .ok _ => cut := by
  have hrun := run_append true s (newline_notMem_encode h) []
  rw [List.append_nil, hs, List.append_nil, run, if_pos rfl] at hrun
  have hsome : (Utf8.encode cs).reverse ≠ [] := by
    intro hnil
    have hdecode := Utf8.decode?_encode cs
    rw [List.reverse_eq_nil_iff.1 hnil] at hdecode
    exact hne (Option.some.inj hdecode).symm
  rw [hrun, finish, if_neg hsome, endLine]
  dsimp only
  rw [List.reverse_reverse, Line.ofBytes_encode]
  cases Line.ofChars cs with
  | error e => rfl
  | ok line => cases line <;> rfl

def unnumbered (k : Nat) : Bool := k = lengthName.length || k = lengthName.length + 1

theorem unnumbered_iff {k : Nat} :
    unnumbered k = true ↔ k = lengthName.length ∨ k = lengthName.length + 1 := by
  rw [unnumbered, Bool.or_eq_true, decide_eq_true_eq, decide_eq_true_eq]

theorem ofChars_take_of_unnumbered (n : Nat) {k : Nat} (hk : unnumbered k = true) :
    Line.ofChars ((lengthLine n).take k) =
      .error (malformed s!"invalid Content-Length: {LengthFault.empty.message}") := by
  rcases unnumbered_iff.1 hk with rfl | rfl
  · rw [lengthLine, List.take_left]
    rfl
  · rw [lengthLine, List.take_length_add_append]
    rfl

/-- A line that stops elsewhere says a length, as a part of the digits does, or nothing. -/
theorem exists_ofChars_take {n k : Nat} (hn : n < UInt64.size) (hpos : 0 < k) (hk : ¬unnumbered k = true) :
    ∃ line, Line.ofChars ((lengthLine n).take k) = .ok line ∧ line ≠ .blank := by
  rw [unnumbered_iff, not_or] at hk
  rcases Nat.lt_or_ge k lengthName.length with hlt | hge
  · have hname : ∀ k < lengthName.length, 0 < k → Line.ofChars (lengthName.take k) = .ok .other := by decide
    refine ⟨.other, ?_, nofun⟩
    rw [lengthLine, List.take_append_of_le_length (Nat.le_of_lt hlt), hname k hlt hpos]
  · obtain ⟨i, rfl⟩ : ∃ i, k = lengthName.length + (i + 2) :=
      ⟨k - (lengthName.length + 2), by omega⟩
    let ds := (Nat.toDigits 10 n).take (i + 1)
    have hdigits : ∀ c ∈ ds, c.isDigit = true := fun c hc =>
      Json.isDigit_of_mem_toDigits (List.mem_of_mem_take hc)
    have hne : ds ≠ [] := by simp [ds, Nat.toDigits_ne_nil]
    have hfits : Nat.ofDigitChars 10 ds 0 < UInt64.size := by
      have hle := le_ofDigitChars ((Nat.toDigits 10 n).drop (i + 1)) (Nat.ofDigitChars 10 ds 0)
      rw [← Nat.ofDigitChars_append, List.take_append_drop, Nat.ofDigitChars_ten_toDigits] at hle
      omega
    refine ⟨.contentLength (UInt64.ofNat (Nat.ofDigitChars 10 ds 0)), ?_, by simp⟩
    rw [lengthLine, List.take_length_add_append, List.take_succ_cons, List.take_append,
      Line.ofChars_length _ hne hdigits fun c hc => by rw [List.mem_singleton.1 (List.mem_of_mem_take hc)]; rfl,
      parseLength_of_digits hne hdigits, if_pos hfits]

/-- Why no frame is read of the first `k` octets of one, if they are not all and not none. -/
def truncation (v : Json) (k : Nat) : SyncError :=
  if unnumbered k then malformed s!"invalid Content-Length: {LengthFault.empty.message}"
  else if k + 1 < (header (body v).length).length then malformed "EOF inside header block"
  else .io .unexpectedEnd

theorem body_ne_nil {v : Json} (h : v.WellFormed) (hfits : fits v = true) : body v ≠ [] := by
  intro hnil
  have hprint : Json.print v [] = [] := by
    have hdecode := Utf8.decode?_encode (Json.print v [])
    rw [← body, hnil] at hdecode
    exact (Option.some.inj hdecode).symm
  have hparse := Json.parseChars?_print h
  rw [hprint, if_pos (fits_iff.1 hfits).2] at hparse
  have hempty : Json.parseChars? [] = none := rfl
  exact absurd (hempty.symm.trans hparse) (by simp)

/-- The header is complete and the body is not. -/
theorem readBody_short {n : Nat} (hn : n ≤ maxBody.toNat) {bs : List UInt8} (hshort : bs.length < n) :
    readBody true (UInt64.ofNat n) bs = .failed (.io .unexpectedEnd) := by
  have hlt : n < UInt64.size := Nat.lt_of_le_of_lt hn maxBody_lt_size
  rw [readBody, if_neg (mt (ofNat_gt_maxBody_iff hlt).1 (Nat.not_lt.2 hn)), UInt64.toNat_ofNat_of_lt' hlt,
    if_pos hshort, if_pos rfl]

/-- A frame that stops within its first line. -/
theorem read_take_lengthLine {n k : Nat} (hn : n < UInt64.size) (hpos : 0 < k) :
    read true (Utf8.encode ((lengthLine n).take k)) =
      .failed (if unnumbered k then malformed s!"invalid Content-Length: {LengthFault.empty.message}"
        else malformed "EOF inside header block") := by
  have hne : (lengthLine n).take k ≠ [] := by
    rw [Ne, List.take_eq_nil_iff, lengthLine, not_or]
    exact ⟨by omega, by simp⟩
  have hnewline : '\n' ∉ (lengthLine n).take k := fun h =>
    newline_notMem_lengthLine n (List.mem_of_mem_take h)
  rw [read, HeaderScan.run_unended rfl hne hnewline]
  by_cases hk : unnumbered k = true
  · rw [ofChars_take_of_unnumbered n hk, if_pos hk]
  · obtain ⟨line, hline, hblank⟩ := exists_ofChars_take hn hpos hk
    rw [hline, if_neg hk]
    cases line with
    | blank => exact absurd rfl hblank
    | contentLength m => rfl
    | other => rfl

/-- What is there of a frame after its first line, if that is not all. -/
theorem read_lengthLine_append {n k : Nat} (hn : n ≤ maxBody.toNat) (hpos : 0 < n) {bs : List UInt8}
    (hbs : bs.length = n) (hk : k < n + 2) :
    read true (Utf8.encode (lengthLine n) ++ 10 :: (13 :: 10 :: bs).take k) =
      .failed (if k = 0 then malformed "EOF inside header block" else .io .unexpectedEnd) := by
  have hbound := maxBody_lt_size
  rw [read, HeaderScan.run_line true rfl (newline_notMem_lengthLine n), Line.ofChars_lengthLine,
    if_pos (by omega)]
  dsimp only
  -- a carriage return is all of a blank line but its newline
  have hblank : Line.ofChars ['\r'] = .ok .blank := rfl
  rcases k with _ | _ | i
  · rfl
  · have htake : (13 :: 10 :: bs).take 1 = Utf8.encode ['\r'] := rfl
    rw [htake, HeaderScan.run_unended rfl (by simp) (by decide), hblank, if_neg (by omega)]
    exact readBody_short hn hpos
  · have htake : (13 :: 10 :: bs).take (i + 2) = Utf8.encode ['\r'] ++ 10 :: bs.take i := rfl
    rw [htake, HeaderScan.run_line true rfl (by decide), hblank, if_neg (by omega)]
    exact readBody_short hn (by rw [List.length_take]; omega)

/-- A part of a frame is no message. -/
theorem read_take_write {v : Json} (h : v.WellFormed) (hfits : fits v = true) {k : Nat} (hpos : 0 < k)
    (hk : k < (write v).length) : read true ((write v).take k) = .failed (truncation v k) := by
  have hsize : (body v).length ≤ maxBody.toNat := (fits_iff.1 hfits).1
  have hbody : 0 < (body v).length := List.length_pos_iff.2 (body_ne_nil h hfits)
  have hbound := maxBody_lt_size
  have hheader : (header (body v).length).length = (lengthLine (body v).length).length + 3 := by
    rw [header_eq, List.length_append]
    rfl
  have hline : Utf8.encode (lengthLine (body v).length) =
      (lengthLine (body v).length).map fun c => c.val.toUInt8 := encode_of_narrow narrow_lengthLine
  have hwrite : write v = Utf8.encode (lengthLine (body v).length) ++ 10 :: 13 :: 10 :: body v := by
    rw [write_eq, header_eq, Utf8.encode_append, List.append_assoc]
    rfl
  rw [truncation]
  rcases Nat.lt_or_ge (lengthLine (body v).length).length k with hlt | hle
  · obtain ⟨i, rfl⟩ : ∃ i, k = (lengthLine (body v).length).length + (i + 1) :=
      ⟨k - ((lengthLine (body v).length).length + 1), by omega⟩
    have hlength : (Utf8.encode (lengthLine (body v).length)).length =
        (lengthLine (body v).length).length := by rw [hline, List.length_map]
    have htake : (write v).take ((lengthLine (body v).length).length + (i + 1)) =
        Utf8.encode (lengthLine (body v).length) ++ 10 :: (13 :: 10 :: body v).take i := by
      rw [hwrite, ← hlength, List.take_length_add_append, List.take_succ_cons]
    have hname : lengthName.length + 2 ≤ (lengthLine (body v).length).length := by
      rw [lengthLine]
      simp only [List.length_append, List.length_cons]
      omega
    have hnumbered : ¬unnumbered ((lengthLine (body v).length).length + (i + 1)) = true := by
      rw [unnumbered_iff]
      omega
    have hi : i < (body v).length + 2 := by
      rw [hwrite] at hk
      simp only [List.length_append, List.length_cons] at hk
      omega
    rw [htake, read_lengthLine_append hsize hbody rfl hi, if_neg hnumbered]
    congr 1
    exact if_congr (by omega) rfl rfl
  · have htake : (write v).take k = Utf8.encode ((lengthLine (body v).length).take k) := by
      rw [hwrite, List.take_append_of_le_length (by rwa [hline, List.length_map]), hline, ← List.map_take]
      exact (encode_of_narrow fun c hc => narrow_lengthLine c (List.mem_of_mem_take hc)).symm
    have hshort : k + 1 < (header (body v).length).length := by omega
    rw [htake, read_take_lengthLine (by omega) hpos, if_pos hshort]

theorem writeAll_cons (v : Json) (vs : List Json) : writeAll (v :: vs) = write v ++ writeAll vs :=
  List.flatMap_cons

/-- Of a stream that stops too early, exactly the messages are read whose frames are whole. Reading then ends
well if it stops between two frames, and fails if it stops in one. -/
theorem readAll_take_writeAll {vs : List Json} (h : ∀ v ∈ vs, v.WellFormed ∧ fits v = true) {k : Nat}
    (hk : k < (writeAll vs).length) :
    ∃ us v ws, vs = us ++ v :: ws ∧ (writeAll us).length ≤ k ∧ k < (writeAll (us ++ [v])).length ∧
      readAll true ((writeAll vs).take k) =
        { messages := us
          ending := if k = (writeAll us).length then .ended
            else .failed (truncation v (k - (writeAll us).length)) } := by
  induction vs generalizing k with
  | nil => exact absurd hk (Nat.not_lt_zero k)
  | cons v vs ih =>
    obtain ⟨hv, hfits⟩ := h v List.mem_cons_self
    rw [writeAll_cons] at hk ⊢
    rcases Nat.lt_or_ge k (write v).length with hlt | hge
    · refine ⟨[], v, vs, rfl, Nat.zero_le k, by rwa [List.nil_append, writeAll_cons, writeAll,
        List.flatMap_nil, List.append_nil], ?_⟩
      rw [List.take_append_of_le_length (Nat.le_of_lt hlt)]
      rcases Nat.eq_zero_or_pos k with rfl | hpos
      · exact readAll_nil true
      · have hne : k ≠ (writeAll []).length := Nat.ne_of_gt hpos
        rw [readAll_of_failed (read_take_write hv hfits hpos hlt), if_neg hne]
        rfl
    · obtain ⟨i, rfl⟩ := Nat.exists_eq_add_of_le hge
      obtain ⟨us, w, ws, hvs, hle, hlt, hread⟩ :=
        ih (fun u hu => h u (List.mem_cons_of_mem v hu)) (k := i) (by rw [List.length_append] at hk; omega)
      have hmessage : read true (write v ++ (writeAll vs).take i) = .message v ((writeAll vs).take i) := by
        rw [read_write true hv, if_pos hfits]
      have hwritten (xs : List Json) : (writeAll (v :: xs)).length = (write v).length + (writeAll xs).length := by
        rw [writeAll_cons, List.length_append]
      refine ⟨v :: us, w, ws, by rw [hvs, List.cons_append], by rw [hwritten]; omega,
        by rw [List.cons_append, hwritten]; omega, ?_⟩
      rw [List.take_length_add_append, readAll_of_message hmessage, hread, hwritten, Nat.add_sub_add_left]
      have hsame : (write v).length + i = (write v).length + (writeAll us).length ↔
          i = (writeAll us).length := Nat.add_left_cancel_iff
      rw [if_congr hsame rfl rfl]

def samplePair : List Json := [.arr [.int 12], .str "ä"]

/-- The second of two frames stops between the octets of its character. -/
theorem readAll_take_writeAll_withinChar :
    (∀ v ∈ samplePair, v.WellFormed ∧ fits v = true) ∧ 48 < (writeAll samplePair).length ∧
      readAll true ((writeAll samplePair).take 48) = ⟨[.arr [.int 12]], .failed (.io .unexpectedEnd)⟩ := by
  have hwellFormed : ∀ v ∈ samplePair, v.WellFormed := by
    simp only [samplePair, List.forall_mem_cons, List.not_mem_nil, false_implies, implies_true, and_true]
    exact ⟨.arr fun v hv => List.mem_singleton.1 hv ▸ .int (by decide) (by decide), .str _⟩
  have hfits : ∀ v ∈ samplePair, fits v = true := by decide +kernel
  have hlength : 48 < (writeAll samplePair).length := by decide +kernel
  have hall : ∀ v ∈ samplePair, v.WellFormed ∧ fits v = true := fun v hv => ⟨hwellFormed v hv, hfits v hv⟩
  refine ⟨hall, hlength, ?_⟩
  obtain ⟨us, v, ws, hvs, hle, hlt, hread⟩ := readAll_take_writeAll hall hlength
  rw [hread]
  match us with
  | [] =>
    obtain ⟨rfl, -⟩ := List.cons.inj hvs
    exact absurd hlt (by decide +kernel)
  | [u] =>
    obtain ⟨rfl, hrest⟩ := List.cons.inj hvs
    obtain ⟨rfl, -⟩ := List.cons.inj hrest
    have hinside : ¬48 = (writeAll [Json.arr [.int 12]]).length := by decide +kernel
    have herror : truncation (.str "ä") (48 - (writeAll [Json.arr [.int 12]]).length) =
        .io .unexpectedEnd := by decide +kernel
    rw [if_neg hinside, herror]
  | u :: u' :: us =>
    have hshort := congrArg List.length hvs
    simp [samplePair] at hshort

end EditSync.Frame
