import AlertSilences.Proofs.Json.Number
import AlertSilences.Proofs.Json.Text

/-! Lists and maps that were written are read back, part by part. Of a part only this is asked:
its reader takes just the part when something follows that does not go on with it. -/

namespace AlertSilences.Json

/-- A reader takes a part off the front, whatever follows that ends it. -/
def Takes {α : Type} (read : Reader α) (part : Bytes) (a : α) : Prop :=
  ∀ rest, Stops rest → read (part ++ rest) = .ok (a, rest)

/-- A part that begins like a value and not like the end of a list. -/
def Opens (part : Bytes) : Prop :=
  ∃ b more, part = b :: more ∧ isBlank b = false ∧ b ≠ ascii ']'

def following (close : UInt8) (parts : List Bytes) (rest : Bytes) : Bytes :=
  parts.flatMap (ascii ',' :: ·) ++ close :: rest

@[simp] theorem following_cons (close : UInt8) (part : Bytes) (parts : List Bytes) (rest : Bytes) :
    following close (part :: parts) rest = ascii ',' :: (part ++ following close parts rest) := by
  simp [following]

@[simp] theorem separated_append (close : UInt8) (part : Bytes) (parts : List Bytes)
    (rest : Bytes) :
    separated (part :: parts) ++ close :: rest = part ++ following close parts rest := by
  simp [separated, following]

theorem length_following (close : UInt8) (parts : List Bytes) (rest : Bytes) :
    parts.length < (following close parts rest).length := by
  induction parts with
  | nil => simp [following]
  | cons part parts ih =>
    rw [following_cons]
    simp only [List.length_cons, List.length_append]
    omega

theorem stops_following {close : UInt8} (h : close = ascii ']' ∨ close = ascii '\x7d')
    (parts : List Bytes) (rest : Bytes) : Stops (following close parts rest) := by
  cases parts with
  | nil => rcases h with rfl | rfl <;> exact Stops.cons (by decide) _
  | cons part parts =>
    rw [following_cons]
    exact Stops.cons (by decide) _

section Lists

variable {α : Type} {element : Nat → Reader α}

/-- The readers of elements, from the one with number `index` on, take the parts of a list. -/
inductive Elements (element : Nat → Reader α) : Nat → List Bytes → List α → Prop
  | nil (index : Nat) : Elements element index [] []
  | cons {index part a parts as} (opens : Opens part) (takes : Takes (element index) part a)
      (more : Elements element (index + 1) parts as) :
      Elements element index (part :: parts) (a :: as)

@[simp] theorem nextElement_close (first : Bool) (rest : Bytes) :
    nextElement first (ascii ']' :: rest) = .ok none := by
  rw [nextElement, dropBlank_cons (by decide)]
  simp

theorem nextElement_first {part : Bytes} (h : Opens part) (s : Bytes) :
    nextElement true (part ++ s) = .ok (some (part ++ s)) := by
  obtain ⟨b, more, rfl, hblank, hclose⟩ := h
  rw [List.cons_append, nextElement, dropBlank_cons hblank]
  simp [hclose]

theorem nextElement_comma {part : Bytes} (h : Opens part) (s : Bytes) :
    nextElement false (ascii ',' :: (part ++ s)) = .ok (some (part ++ s)) := by
  obtain ⟨b, more, rfl, hblank, hclose⟩ := h
  have hcomma : ascii ',' ≠ ascii ']' := by decide
  rw [List.cons_append, nextElement, dropBlank_cons (by decide)]
  simp [hcomma, hclose, dropBlank_cons hblank]

theorem readElements_close (b : UInt8) (bound : Bytes) (index : Nat) (acc : List α) (rest : Bytes) :
    readElements element (b :: bound) index acc (ascii ']' :: rest) = .ok (acc.reverse, rest) := by
  rw [readElements, nextElement_close, dropBlank_cons (by decide)]
  rfl

theorem readElements_following {index : Nat} {parts : List Bytes} {as : List α}
    (h : Elements element index parts as) (hfirst : index ≠ 0) {bound : Bytes}
    (hbound : parts.length < bound.length) (acc : List α) (rest : Bytes) :
    readElements element bound index acc (following (ascii ']') parts rest) =
      .ok (acc.reverse ++ as, rest) := by
  induction h generalizing bound acc with
  | nil index =>
    cases bound with
    | nil => exact absurd hbound (Nat.not_lt_zero _)
    | cons b bound => simpa [following] using readElements_close b bound index acc rest
  | @cons index part a parts as opens takes _ ih =>
    cases bound with
    | nil => exact absurd hbound (Nat.not_lt_zero _)
    | cons b bound =>
      have hindex : (index == 0) = false := by simpa using hfirst
      have hread := takes _ (stops_following (.inl rfl) parts rest)
      have hmore := ih (Nat.succ_ne_zero index) (Nat.lt_of_succ_lt_succ hbound) (a :: acc)
      rw [following_cons, readElements, hindex, nextElement_comma opens]
      simp only [hread, hmore, List.reverse_cons, List.append_assoc, List.singleton_append]

/-- A list that was written. -/
theorem readList_written {parts : List Bytes} {as : List α} (h : Elements element 0 parts as)
    (rest : Bytes) : readList element (writeList parts ++ rest) = .ok (as, rest) := by
  have hwritten : writeList parts ++ rest =
      ascii '[' :: (separated parts ++ ascii ']' :: rest) := by
    simp [writeList]
  rw [hwritten, readList, dropBlank_cons (by decide)]
  simp only [if_true]
  cases h with
  | nil => exact readElements_close _ _ 0 [] rest
  | @cons _ part a parts as opens takes more =>
    have hread := takes _ (stops_following (.inl rfl) parts rest)
    have hlength := length_following (ascii ']') parts rest
    rw [separated_append, readElements, beq_self_eq_true, nextElement_first opens]
    simp only [hread]
    refine readElements_following more Nat.one_ne_zero ?_ [a] rest
    rw [List.length_append]
    omega

end Lists

section Maps

variable {σ : Type} {member : σ → String → Reader σ}

/-- The reader of members takes those of a map, from state to state. -/
inductive Members (member : σ → String → Reader σ) : σ → List (String × Bytes) → σ → Prop
  | nil (state : σ) : Members member state [] state
  | cons {state next last name value members}
      (takes : Takes (member state name) (ascii ':' :: value) next)
      (more : Members member next members last) :
      Members member state ((name, value) :: members) last

theorem writeMember_append (name : String) (value s : Bytes) :
    writeMember name value ++ s =
      quote :: ((Text.bytes name).flatMap escapeByte ++ quote :: (ascii ':' :: value ++ s)) := by
  rw [writeMember, List.append_assoc, writeText_append]

@[simp] theorem nextKey_close (first : Bool) (rest : Bytes) :
    nextKey first (ascii '\x7d' :: rest) = .ok (false, rest) := by
  rw [nextKey, dropBlank_cons (by decide)]
  simp

theorem nextKey_first (s : Bytes) : nextKey true (quote :: s) = .ok (true, s) := by
  have hclose : quote ≠ ascii '\x7d' := by decide
  rw [nextKey, dropBlank_cons (by decide)]
  simp [hclose]

theorem nextKey_comma (s : Bytes) : nextKey false (ascii ',' :: quote :: s) = .ok (true, s) := by
  have hclose : ascii ',' ≠ ascii '\x7d' := by decide
  rw [nextKey, dropBlank_cons (by decide)]
  simp [hclose, dropBlank_cons (show isBlank quote = false by decide)]

theorem readMembers_following {state last : σ} {members : List (String × Bytes)}
    (h : Members member state members last) {bound : Bytes}
    (hbound : members.length < bound.length) (rest : Bytes) :
    readMembers member bound false state
        (following (ascii '\x7d') (members.map fun m => writeMember m.1 m.2) rest) =
      .ok (last, rest) := by
  induction h generalizing bound with
  | nil state =>
    cases bound with
    | nil => exact absurd hbound (Nat.not_lt_zero _)
    | cons b bound => simp [following, readMembers]
  | @cons state next last name value members takes _ ih =>
    cases bound with
    | nil => exact absurd hbound (Nat.not_lt_zero _)
    | cons b bound =>
      have hread := takes _
        (stops_following (.inr rfl) (members.map fun m => writeMember m.1 m.2) rest)
      have hmore := ih (Nat.lt_of_succ_lt_succ hbound)
      rw [List.map_cons, following_cons, writeMember_append, readMembers, nextKey_comma]
      simp only [readText_written, hread, hmore]

/-- A map that was written, behind its opening brace. -/
theorem readMap_written {state last : σ} {members : List (String × Bytes)}
    (h : Members member state members last) (rest : Bytes) :
    readMap member state
        (separated (members.map fun m => writeMember m.1 m.2) ++ ascii '\x7d' :: rest) =
      .ok (last, rest) := by
  rw [readMap]
  cases h with
  | nil => simp [separated, readMembers]
  | @cons _ next _ name value members takes more =>
    have hread := takes _
      (stops_following (.inr rfl) (members.map fun m => writeMember m.1 m.2) rest)
    have hlength := length_following (ascii '\x7d') (members.map fun m => writeMember m.1 m.2) rest
    rw [List.map_cons, separated_append, writeMember_append, readMembers, nextKey_first]
    simp only [readText_written, hread]
    refine readMembers_following more ?_ rest
    simp only [List.length_cons, List.length_append, List.length_map] at hlength ⊢
    omega

end Maps

theorem Takes.colon {α : Type} {read : Reader α} {part : Bytes} {a : α} (h : Takes read part a) :
    Takes (readMember read) (ascii ':' :: part) a := by
  intro rest hrest
  rw [List.cons_append, readMember, readColon, dropBlank_cons (by decide)]
  simp [h rest hrest]

end AlertSilences.Json
