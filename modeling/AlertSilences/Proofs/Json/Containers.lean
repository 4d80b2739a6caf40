import AlertSilences.Proofs.Json.Reading

/-! Lists and maps are read part by part, in whatever way they are spelled. Where reading stands
between two parts is the same in all of them: white space, and then what is left. -/

namespace AlertSilences.Json

theorem eq_ok_of_toOption {ε α : Type} {x : Except ε α} {a : α} (h : x.toOption = some a) :
    x = .ok a := by
  cases x with
  | error e => cases h
  | ok b => rw [Option.some.inj h]

theorem exists_error_of_toOption {ε α : Type} {x : Except ε α} (h : x.toOption = none) :
    ∃ e, x = .error e := by
  cases x with
  | error e => exact ⟨e, rfl⟩
  | ok b => cases h

/-- What is left of a list or a map: behind its opening bracket all parts, behind one of them those
that follow. -/
def standing (close : UInt8) (first : Bool) (gap : Bytes) (parts : List Bytes) (rest : Bytes) :
    Bytes :=
  gap ++ if first then separated parts ++ close :: rest else following close parts rest

@[simp] theorem standing_nil (close : UInt8) (first : Bool) (gap rest : Bytes) :
    standing close first gap [] rest = gap ++ close :: rest := by
  cases first <;> rfl

@[simp] theorem standing_first (close : UInt8) (gap part : Bytes) (parts : List Bytes)
    (rest : Bytes) :
    standing close true gap (part :: parts) rest =
      gap ++ (part ++ following close parts rest) := by
  rw [standing, if_pos rfl, separated_append]

@[simp] theorem standing_later (close : UInt8) (gap part : Bytes) (parts : List Bytes)
    (rest : Bytes) :
    standing close false gap (part :: parts) rest =
      gap ++ ascii ',' :: (part ++ following close parts rest) := by
  rw [standing, if_neg Bool.false_ne_true, following_cons]

theorem stops_standing {close : UInt8} (h : close = ascii ']' ∨ close = ascii '\x7d')
    {gap : Bytes} (hgap : Blank gap) (parts : List Bytes) (rest : Bytes) :
    Stops (standing close false gap parts rest) :=
  (stops_following h parts rest).blank hgap

theorem length_le_standing (close : UInt8) (first : Bool) (gap : Bytes) (parts : List Bytes)
    (rest : Bytes) : parts.length ≤ (standing close first gap parts rest).length := by
  cases parts with
  | nil => exact Nat.zero_le _
  | cons part parts =>
    have hlength := length_following close parts rest
    cases first with
    | true =>
      rw [standing_first]
      simp only [List.length_cons, List.length_append]
      omega
    | false =>
      rw [standing_later]
      simp only [List.length_cons, List.length_append]
      omega

theorem Spells.opens {t : Tree} {core : Bytes} (h : Spells t core) : Opens core := by
  obtain ⟨b, more, rfl, hbegins⟩ := h.begins
  exact ⟨b, more, rfl, hbegins.not_blank.1, hbegins.not_blank.2.1⟩

section Lists

variable {gap : Bytes} {rest : Bytes}

theorem nextElement_blank (first : Bool) (hgap : Blank gap) (s : Bytes) :
    nextElement first (gap ++ s) = nextElement first s := by
  rw [nextElement, nextElement, dropBlank_append hgap]

theorem nextElement_standing_nil (first : Bool) (hgap : Blank gap) (rest : Bytes) :
    nextElement first (standing (ascii ']') first gap [] rest) = .ok none := by
  rw [standing_nil, nextElement_blank first hgap, nextElement_close]

theorem nextElement_standing (first : Bool) (hgap : Blank gap) {p : Padded} (hp : Opens p.core)
    (parts : List Bytes) (rest : Bytes) :
    nextElement first (standing (ascii ']') first gap (p.bytes :: parts) rest) =
      .ok (some (p.core ++ standing (ascii ']') false p.after parts rest)) := by
  have hpart : p.bytes ++ following (ascii ']') parts rest =
      p.before ++ (p.core ++ standing (ascii ']') false p.after parts rest) := by
    rw [Padded.bytes, standing, List.append_assoc, List.append_assoc]
    rfl
  cases first with
  | true =>
    rw [standing_first, nextElement_blank true hgap, hpart, nextElement_blank true p.blank_before,
      nextElement_first hp]
  | false =>
    obtain ⟨b, more, hcore, hblank, hclose⟩ := hp
    have hcomma : ascii ',' ≠ ascii ']' := by decide
    rw [standing_later, nextElement_blank false hgap, hpart, nextElement,
      dropBlank_cons (by decide), hcore]
    simp [hcomma, hclose, dropBlank_append p.blank_before, dropBlank_cons hblank]

variable {α : Type} {element : Nat → Reader α} {value? : Nat → Tree → Option α}

/-- All elements from the one with number `index` on, or none if one of them cannot be read. -/
theorem readElements_standing
    (hread : ∀ index t core, Spells t core → Yields (element index) core (value? index t))
    {parts : List (Tree × Padded)} (each : ∀ p ∈ parts, Spells p.1 p.2.core) (index : Nat)
    {bound : Bytes} (hbound : parts.length < bound.length) (acc : List α) (hgap : Blank gap)
    (rest : Bytes) :
    (readElements element bound index acc
        (standing (ascii ']') (index == 0) gap (parts.map (·.2.bytes)) rest)).toOption =
      (((parts.map Prod.fst).zipIdx index).mapM fun e => value? e.2 e.1).map
        fun as => (acc.reverse ++ as, rest) := by
  induction parts generalizing index bound acc gap with
  | nil =>
    obtain _ | ⟨b, bound⟩ := bound
    · exact absurd hbound (Nat.not_lt_zero _)
    · rw [readElements, List.map_nil, nextElement_standing_nil _ hgap, standing_nil,
        dropBlank_append hgap, dropBlank_cons (by decide)]
      simp [Except.toOption]
  | cons p parts ih =>
    obtain _ | ⟨b, bound⟩ := bound
    · exact absurd hbound (Nat.not_lt_zero _)
    · obtain ⟨hp, hparts⟩ := List.forall_mem_cons.1 each
      have hvalue := hread index p.1 p.2.core hp []
        (standing (ascii ']') false p.2.after (parts.map (·.2.bytes)) rest) blank_nil
        (stops_standing (.inl rfl) p.2.blank_after _ _)
      have hmore (a : α) := ih hparts (index + 1) (Nat.lt_of_succ_lt_succ hbound)
        (a :: acc) p.2.blank_after
      rw [List.nil_append] at hvalue
      rw [readElements, List.map_cons, nextElement_standing _ hgap hp.opens, List.map_cons,
        List.zipIdx_cons, List.mapM_cons]
      cases ha : value? index p.1 with
      | none =>
        rw [ha] at hvalue
        obtain ⟨e, he⟩ := exists_error_of_toOption hvalue
        simp only [he]
        rfl
      | some a =>
        rw [ha] at hvalue
        simp only [eq_ok_of_toOption hvalue]
        refine (hmore a).trans ?_
        cases ((parts.map Prod.fst).zipIdx (index + 1)).mapM fun e => value? e.2 e.1 <;> simp

/-- A list is its opening bracket and then its elements, where reading stands first. -/
theorem Spells.list_cases {elements : List Tree} {core : Bytes} (h : Spells (.list elements) core) :
    ∃ (gap : Bytes) (parts : List (Tree × Padded)), Blank gap ∧
      (∀ p ∈ parts, Spells p.1 p.2.core) ∧ parts.map Prod.fst = elements ∧
      ∀ rest, core ++ rest =
        ascii '[' :: standing (ascii ']') true gap (parts.map (·.2.bytes)) rest := by
  cases h with
  | emptyList hblank => exact ⟨_, [], hblank, nofun, rfl, fun rest => by simp⟩
  | list nonempty each => exact ⟨[], _, blank_nil, each, rfl, fun rest => by simp [standing]⟩

/-- Nothing but a list is read as a list, and of a list all elements are read or none. -/
theorem yields_readList
    (hread : ∀ index t core, Spells t core → Yields (element index) core (value? index t))
    {elements : List Tree} {core : Bytes} (h : Spells (.list elements) core) :
    Yields (readList element) core (elements.zipIdx.mapM fun e => value? e.2 e.1) := by
  intro before rest hb _
  obtain ⟨gap, parts, hgap, each, rfl, hcore⟩ := h.list_cases
  have hbound : parts.length <
      (before ++ ascii '[' ::
        standing (ascii ']') true gap (parts.map (·.2.bytes)) rest).length := by
    have hlength := length_le_standing (ascii ']') true gap (parts.map (·.2.bytes)) rest
    rw [List.length_map] at hlength
    rw [List.length_append, List.length_cons]
    omega
  have hall := readElements_standing hread each 0 hbound [] hgap rest
  rw [readList, dropBlank_append hb, hcore, dropBlank_cons (by decide)]
  simpa only [if_true, List.reverse_nil, List.nil_append, beq_self_eq_true] using hall

end Lists

section Maps

variable {gap : Bytes} {rest : Bytes}

/-- A map is its opening brace and then its members, where reading stands first. -/
theorem Spells.map_cases {members : List (List Piece × Tree)} {core : Bytes}
    (h : Spells (.map members) core) :
    ∃ (gap : Bytes) (parts : List (Tree × Member)), Blank gap ∧
      (∀ p ∈ parts, Spells p.1 p.2.value.core) ∧
      parts.map (fun p => (p.2.key, p.1)) = members ∧
      ∀ rest, core ++ rest =
        ascii '\x7b' :: standing (ascii '\x7d') true gap (parts.map (·.2.bytes)) rest := by
  cases h with
  | emptyMap hblank => exact ⟨_, [], hblank, nofun, rfl, fun rest => by simp⟩
  | map nonempty each => exact ⟨[], _, blank_nil, each, rfl, fun rest => by simp [standing]⟩

theorem nextKey_blank (first : Bool) (hgap : Blank gap) (s : Bytes) :
    nextKey first (gap ++ s) = nextKey first s := by
  rw [nextKey, nextKey, dropBlank_append hgap]

theorem nextKey_standing_nil (first : Bool) (hgap : Blank gap) (rest : Bytes) :
    nextKey first (standing (ascii '\x7d') first gap [] rest) = .ok (false, rest) := by
  rw [standing_nil, nextKey_blank first hgap, nextKey_close]

/-- What is left of a map behind a key. -/
def Member.tail (m : Member) (parts : List Bytes) (rest : Bytes) : Bytes :=
  m.after ++ ascii ':' :: (m.value.before ++ (m.value.core ++
    standing (ascii '\x7d') false m.value.after parts rest))

theorem nextKey_standing (first : Bool) (hgap : Blank gap) (m : Member) (parts : List Bytes)
    (rest : Bytes) :
    nextKey first (standing (ascii '\x7d') first gap (m.bytes :: parts) rest) =
      .ok (true, m.key.flatMap Piece.bytes ++ quote :: m.tail parts rest) := by
  have hpart : m.bytes ++ following (ascii '\x7d') parts rest =
      m.before ++ quote :: (m.key.flatMap Piece.bytes ++ quote :: m.tail parts rest) := by
    simp [Member.bytes, Member.tail, Padded.bytes, quoted, standing]
  cases first with
  | true =>
    rw [standing_first, nextKey_blank true hgap, hpart, nextKey_blank true m.blank_before,
      nextKey_first]
  | false =>
    have hclose : ascii ',' ≠ ascii '\x7d' := by decide
    rw [standing_later, nextKey_blank false hgap, hpart, nextKey, dropBlank_cons (by decide)]
    simp [hclose, dropBlank_append m.blank_before,
      dropBlank_cons (show isBlank quote = false by decide)]

/-- What the reader of a member makes of the bytes of a value, which is behind a colon. -/
def YieldsMember {α : Type} (read : Reader α) (core : Bytes) (a? : Option α) : Prop :=
  ∀ after before rest, Blank after → Blank before → Stops rest →
    (read (after ++ ascii ':' :: (before ++ (core ++ rest)))).toOption = a?.map (·, rest)

theorem readColon_blank {after : Bytes} (h : Blank after) (s : Bytes) :
    readColon (after ++ ascii ':' :: s) = .ok s := by
  rw [readColon, dropBlank_append h, dropBlank_cons (by decide)]
  rfl

theorem Yields.member {α : Type} {read : Reader α} {core : Bytes} {a? : Option α}
    (h : Yields read core a?) : YieldsMember (readMember read) core a? := by
  intro after before rest hafter hbefore hrest
  rw [readMember, readColon_blank hafter]
  exact h before rest hbefore hrest

variable {σ : Type} {member : σ → String → Reader σ} {next? : σ → String → Tree → Option σ}

/-- All members from state to state, or none if one of them cannot be read. -/
theorem readMembers_standing
    (hread : ∀ state key t core, Spells t core →
      YieldsMember (member state key) core (next? state key t))
    {parts : List (Tree × Member)} (each : ∀ p ∈ parts, Spells p.1 p.2.value.core) (first : Bool)
    (state : σ) {bound : Bytes} (hbound : parts.length < bound.length) (hgap : Blank gap)
    (rest : Bytes) :
    (readMembers member bound first state
        (standing (ascii '\x7d') first gap (parts.map (·.2.bytes)) rest)).toOption =
      (parts.foldlM (fun state p => (text? p.2.key).bind (next? state · p.1)) state).map
        (·, rest) := by
  induction parts generalizing first state bound gap with
  | nil =>
    obtain _ | ⟨b, bound⟩ := bound
    · exact absurd hbound (Nat.not_lt_zero _)
    · rw [readMembers, List.map_nil, nextKey_standing_nil first hgap]
      rfl
  | cons p parts ih =>
    obtain _ | ⟨b, bound⟩ := bound
    · exact absurd hbound (Nat.not_lt_zero _)
    · obtain ⟨hp, hparts⟩ := List.forall_mem_cons.1 each
      have hkey := readText_pieces p.2.key (p.2.tail (parts.map (·.2.bytes)) rest)
      rw [readMembers, List.map_cons, nextKey_standing first hgap, List.foldlM_cons]
      cases htext : text? p.2.key with
      | none =>
        rw [htext] at hkey
        obtain ⟨e, he⟩ := exists_error_of_toOption hkey
        simp only [he]
        rfl
      | some key =>
        rw [htext] at hkey
        simp only [eq_ok_of_toOption hkey]
        have hvalue := hread state key p.1 p.2.value.core hp p.2.after p.2.value.before
          (standing (ascii '\x7d') false p.2.value.after (parts.map (·.2.bytes)) rest)
          p.2.blank_after p.2.value.blank_before
          (stops_standing (.inr rfl) p.2.value.blank_after _ _)
        rw [← Member.tail] at hvalue
        cases hnext : next? state key p.1 with
        | none =>
          rw [hnext] at hvalue
          obtain ⟨e, he⟩ := exists_error_of_toOption hvalue
          simp only [he, Option.bind_some, hnext]
          rfl
        | some next =>
          rw [hnext] at hvalue
          simp only [eq_ok_of_toOption hvalue, Option.bind_some, hnext]
          exact ih hparts false next (Nat.lt_of_succ_lt_succ hbound) p.2.value.blank_after

/-- A map behind its opening brace. -/
theorem readMap_spelled
    (hread : ∀ state key t core, Spells t core →
      YieldsMember (member state key) core (next? state key t))
    {members : List (List Piece × Tree)} {core : Bytes} (h : Spells (.map members) core)
    (start : σ) :
    ∃ body, core = ascii '\x7b' :: body ∧ ∀ rest, (readMap member start (body ++ rest)).toOption =
      (members.foldlM (fun state m => (text? m.1).bind (next? state · m.2)) start).map
        (·, rest) := by
  obtain ⟨gap, parts, hgap, each, rfl, hcore⟩ := h.map_cases
  obtain ⟨b, body, rfl, -⟩ := h.begins
  have hb (rest : Bytes) := List.cons.inj (hcore rest)
  refine ⟨body, by rw [(hb []).1], fun rest => ?_⟩
  have hlength : parts.length < (0 :: (body ++ rest)).length := by
    have := length_le_standing (ascii '\x7d') true gap (parts.map (·.2.bytes)) rest
    rw [List.length_map, ← (hb rest).2] at this
    exact Nat.lt_succ_of_le this
  rw [readMap, List.foldlM_map]
  have hall := readMembers_standing hread each true start hlength hgap rest
  rwa [← (hb rest).2] at hall

end Maps

end AlertSilences.Json
