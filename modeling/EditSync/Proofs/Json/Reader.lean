import EditSync.Json.Reader
import EditSync.Proofs.Json.Token
import Mathlib.Logic.Basic

/-! A printed value is read back if it is not nested too deeply, and refused if it is. The reader is run
on the tokens of a value with any containers open around it: their number and the depth of the value
decide. -/

namespace EditSync.Json

/-- The token is taken, and the reader goes on. -/
theorem foldlM_cons_of_read {r next : Reader} {t : Token} (h : r.step t = some next) (ts : List Token) :
    (t :: ts).foldlM Reader.step r = ts.foldlM Reader.step next := by
  rw [List.foldlM_cons, h]
  rfl

theorem foldlM_cons_of_refused {r : Reader} {t : Token} (h : r.step t = none) (ts : List Token) :
    (t :: ts).foldlM Reader.step r = none := by
  rw [List.foldlM_cons, h]
  rfl

/-- Wherever a value may stand it is read, unless that would nest too deeply. -/
def Reads (v : Json) : Prop :=
  ∀ (stack : List Container) (orEnd : Bool), stack.length ≤ maxDepth →
    (tokens v).foldlM Reader.step ⟨stack, .value orEnd⟩ =
      if stack.length + v.depth ≤ maxDepth then some ⟨stack, .next v⟩ else none

/-- A value inside a container. -/
theorem Reads.inside {v : Json} (h : Reads v) {stack : List Container} (hstack : stack.length < maxDepth)
    (c : Container) (orEnd : Bool) (ts : List Token) :
    (tokens v ++ ts).foldlM Reader.step ⟨c :: stack, .value orEnd⟩ =
      if stack.length + 1 + v.depth ≤ maxDepth then ts.foldlM Reader.step ⟨c :: stack, .next v⟩
      else none := by
  rw [List.foldlM_append, h (c :: stack) orEnd hstack, List.length_cons]
  split <;> rfl

/-- A value that contains no other. -/
theorem reads_of_flat {v : Json} {t : Token} (htokens : tokens v = [t]) (hdepth : v.depth = 0)
    (hread : ∀ stack orEnd, Reader.step ⟨stack, .value orEnd⟩ t = some ⟨stack, .next v⟩) : Reads v := by
  intro stack orEnd hstack
  rw [htokens, hdepth, foldlM_cons_of_read (hread stack orEnd), Nat.add_zero, if_pos hstack]
  rfl

theorem foldlM_itemTokens {vs : List Json} (h : ∀ v ∈ vs, Reads v) {stack : List Container}
    (hstack : stack.length < maxDepth) (done : List Json) (v : Json) :
    (itemTokens vs).foldlM Reader.step ⟨.array done :: stack, .next v⟩ =
      if stack.length + 1 + depth.depthList vs ≤ maxDepth then
        some ⟨stack, .next (.arr (done.reverse ++ v :: vs))⟩
      else none := by
  induction vs generalizing done v with
  | nil =>
    have hclose : Reader.step ⟨.array done :: stack, .next v⟩ .closeArray =
        some ⟨stack, .next (.arr (v :: done).reverse)⟩ := rfl
    rw [itemTokens, foldlM_cons_of_read hclose, depth.depthList,
      if_pos (show stack.length + 1 + 0 ≤ maxDepth from hstack), List.reverse_cons]
    rfl
  | cons w vs ih =>
    have hcomma : Reader.step ⟨.array done :: stack, .next v⟩ .comma =
        some ⟨.array (v :: done) :: stack, .value false⟩ := rfl
    rw [itemTokens, foldlM_cons_of_read hcomma, (h w List.mem_cons_self).inside hstack,
      ih (fun u hu => h u (List.mem_cons_of_mem w hu)), depth.depthList, List.reverse_cons,
      List.append_assoc, List.singleton_append, ← ite_and]
    exact if_congr (by omega) rfl rfl

theorem reads_array {items : List Json} (h : ∀ v ∈ items, Reads v) : Reads (.arr items) := by
  intro stack orEnd _
  have hopen : Reader.step ⟨stack, .value orEnd⟩ .openArray =
      if stack.length < maxDepth then some ⟨.array [] :: stack, .value true⟩ else none := rfl
  rw [depth]
  by_cases hstack : stack.length < maxDepth
  · rw [if_pos hstack] at hopen
    cases items with
    | nil =>
      rw [tokens, foldlM_cons_of_read hopen, depth.depthList,
        if_pos (show stack.length + (0 + 1) ≤ maxDepth from hstack)]
      rfl
    | cons v vs =>
      rw [tokens, foldlM_cons_of_read hopen, (h v List.mem_cons_self).inside hstack,
        foldlM_itemTokens (fun w hw => h w (List.mem_cons_of_mem v hw)) hstack, depth.depthList, ← ite_and]
      exact if_congr (by omega) rfl rfl
  · rw [if_neg hstack] at hopen
    rw [if_neg (by omega)]
    cases items with
    | nil => rw [tokens, foldlM_cons_of_refused hopen]
    | cons v vs => rw [tokens, foldlM_cons_of_refused hopen]

/-- A name that follows all others is set at the end. -/
theorem insertMember_of_ordered {name : String} {v : Json} {members rest : List (String × Json)}
    (ordered : ((members ++ (name, v) :: rest).map Prod.fst).Pairwise (· < ·)) :
    insertMember name v members = members ++ [(name, v)] := by
  induction members with
  | nil => rfl
  | cons m members ih =>
    rw [List.cons_append, List.map_cons, List.pairwise_cons] at ordered
    have hlt : m.1 < name := ordered.1 name (by simp)
    rw [insertMember, if_neg (String.lt_asymm hlt), if_neg (String.ne_of_lt hlt).symm, ih ordered.2,
      List.cons_append]

/-- A member that follows all others, with its name and colon. -/
theorem foldlM_member {v : Json} (h : Reads v) {stack : List Container} (hstack : stack.length < maxDepth)
    (done : List (String × Json)) (name : String) (orEnd : Bool) (ts : List Token) :
    (.text name :: .colon :: (tokens v ++ ts)).foldlM Reader.step ⟨stack, .name done orEnd⟩ =
      if stack.length + 1 + v.depth ≤ maxDepth then
        ts.foldlM Reader.step ⟨.object done name :: stack, .next v⟩
      else none := by
  have hname : Reader.step ⟨stack, .name done orEnd⟩ (.text name) = some ⟨stack, .colon done name⟩ := rfl
  have hcolon : Reader.step ⟨stack, .colon done name⟩ .colon =
      some ⟨.object done name :: stack, .value false⟩ := rfl
  rw [foldlM_cons_of_read hname, foldlM_cons_of_read hcolon, h.inside hstack]

theorem foldlM_memberTokens {ms : List (String × Json)} (h : ∀ m ∈ ms, Reads m.2)
    {stack : List Container} (hstack : stack.length < maxDepth) {done : List (String × Json)}
    {name : String} (v : Json)
    (ordered : ((done ++ (name, v) :: ms).map Prod.fst).Pairwise (· < ·)) :
    (memberTokens ms).foldlM Reader.step ⟨.object done name :: stack, .next v⟩ =
      if stack.length + 1 + depth.depthMembers ms ≤ maxDepth then
        some ⟨stack, .next (.obj (done ++ (name, v) :: ms))⟩
      else none := by
  induction ms generalizing done name v with
  | nil =>
    have hclose : Reader.step ⟨.object done name :: stack, .next v⟩ .closeObject =
        some ⟨stack, .next (.obj (insertMember name v done))⟩ := rfl
    rw [memberTokens, foldlM_cons_of_read hclose, depth.depthMembers,
      if_pos (show stack.length + 1 + 0 ≤ maxDepth from hstack), insertMember_of_ordered ordered]
    rfl
  | cons m ms ih =>
    have hcomma : Reader.step ⟨.object done name :: stack, .next v⟩ .comma =
        some ⟨stack, .name (insertMember name v done) false⟩ := rfl
    have hsplit : done ++ (name, v) :: m :: ms = (done ++ [(name, v)]) ++ (m.1, m.2) :: ms := by simp
    have hset := insertMember_of_ordered ordered
    rw [hsplit] at ordered
    rw [memberTokens, foldlM_cons_of_read hcomma, foldlM_member (h m List.mem_cons_self) hstack, hset,
      ih (fun n hn => h n (List.mem_cons_of_mem m hn)) m.2 ordered, ← hsplit, depth.depthMembers, ← ite_and]
    exact if_congr (by omega) rfl rfl

theorem reads_object {members : List (String × Json)} (h : ∀ m ∈ members, Reads m.2)
    (ordered : (members.map Prod.fst).Pairwise (· < ·)) : Reads (.obj members) := by
  intro stack orEnd _
  have hopen : Reader.step ⟨stack, .value orEnd⟩ .openObject =
      if stack.length < maxDepth then some ⟨stack, .name [] true⟩ else none := rfl
  rw [depth]
  by_cases hstack : stack.length < maxDepth
  · rw [if_pos hstack] at hopen
    cases members with
    | nil =>
      rw [tokens, foldlM_cons_of_read hopen, depth.depthMembers,
        if_pos (show stack.length + (0 + 1) ≤ maxDepth from hstack)]
      rfl
    | cons m ms =>
      rw [tokens, foldlM_cons_of_read hopen, foldlM_member (h m List.mem_cons_self) hstack,
        foldlM_memberTokens (fun n hn => h n (List.mem_cons_of_mem m hn)) hstack m.2 ordered,
        depth.depthMembers, ← ite_and]
      exact if_congr (by omega) rfl rfl
  · rw [if_neg hstack] at hopen
    rw [if_neg (by omega)]
    cases members with
    | nil => rw [tokens, foldlM_cons_of_refused hopen]
    | cons m ms => rw [tokens, foldlM_cons_of_refused hopen]

theorem WellFormed.reads {v : Json} (h : WellFormed v) : Reads v := by
  induction h with
  | null => exact reads_of_flat rfl rfl fun _ _ => rfl
  | bool b => exact reads_of_flat rfl rfl fun _ _ => rfl
  | int low high => exact reads_of_flat rfl rfl fun _ _ => rfl
  | decimal finite => exact reads_of_flat rfl rfl fun _ _ => rfl
  | str s => exact reads_of_flat rfl rfl fun _ _ => rfl
  | arr values ih => exact reads_array ih
  | obj ordered values ih => exact reads_object ih ordered

/-- A printed value is read as itself, unless it is nested too deeply. -/
theorem parseChars?_print {v : Json} (h : WellFormed v) :
    parseChars? (print v []) = if v.depth ≤ maxDepth then some v else none := by
  rw [parseChars?, tokens?_print h, Option.bind_some, ofTokens?]
  have hread := h.reads [] false (Nat.zero_le _)
  rw [List.length_nil, Nat.zero_add] at hread
  rw [hread]
  split <;> rfl

end EditSync.Json
