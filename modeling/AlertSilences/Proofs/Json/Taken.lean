import AlertSilences.Proofs.Json.Passed

/-! Readers take nothing off the front but what is spelled: values of their own kind, parts of a
list and members of a map, and the list or the map as a whole. -/

namespace AlertSilences.Json

section Readers

variable {α : Type} {s rest : Bytes}

/-- A reader takes nothing but a value off the front. -/
def TakesValues (read : Reader α) : Prop := ∀ s a rest, read s = .ok (a, rest) → Spelled s rest

theorem spelled_of_readNumber {expected : Expected} {numeral : Numeral}
    (h : readNumber expected s = .ok (numeral, rest))
    (hreal : ∀ minus size, numeral ≠ .real minus size) : Spelled s rest := by
  have hnumeral (minus : Bool) (n : Nat) :
      Spelled ((if minus then [ascii '-'] else []) ++ (writeNatural n ++ rest)) rest := by
    obtain ⟨t, hspells⟩ := spells_numeral minus n (.inl rfl) (.inl rfl)
    simpa using hspells.spelled rest
  refine spelled_of_dropBlank ?_
  rw [readNumber] at h
  split at h
  · cases h
  · next b more hdrop =>
    rw [hdrop]
    split_ifs at h with hminus hdigit
    · obtain ⟨n, rfl⟩ := eq_append_of_readNumeral h hreal
      exact hminus ▸ hnumeral true n
    · obtain ⟨n, hn⟩ := eq_append_of_readNumeral h hreal
      exact hn ▸ hnumeral false n
    · exact absurd h (refuse_ne_ok _ _ _)

theorem takesValues_readUnsigned : TakesValues readUnsigned := by
  intro s a rest h
  rw [readUnsigned] at h
  split at h
  · cases h
  · next hnumber =>
    cases h
    exact spelled_of_readNumber hnumber (by simp)
  · cases h
  · cases h

theorem takesValues_readSigned : TakesValues readSigned := by
  intro s a rest h
  rw [readSigned] at h
  split at h
  · cases h
  · next hnumber =>
    split_ifs at h
    cases h
    exact spelled_of_readNumber hnumber (by simp)
  · next hnumber =>
    cases h
    exact spelled_of_readNumber hnumber (by simp)
  · cases h

theorem takesValues_readString : TakesValues readString := by
  intro s a rest h
  refine spelled_of_dropBlank ?_
  rw [readString] at h
  split at h
  · cases h
  · next b more hdrop =>
    rw [hdrop]
    split_ifs at h with hquote
    · obtain ⟨pieces, rfl⟩ := exists_pieces_of_readText h
      rw [hquote]
      simpa [quoted] using (Spells.text pieces).spelled rest
    · exact absurd h (refuse_ne_ok _ _ _)

theorem TakesValues.orNull {read : Reader α} (hread : TakesValues read) (default : α) :
    TakesValues (readOrNull default read) := by
  intro s a rest h
  refine spelled_of_dropBlank ?_
  rw [readOrNull] at h
  split at h
  · cases h
  · next b more hdrop =>
    rw [hdrop]
    split_ifs at h with hnull
    · obtain ⟨left, hword, heq⟩ := exists_of_map_eq_ok h
      cases heq
      rw [hnull, eq_append_of_readWord hword]
      exact Spells.null.spelled rest
    · exact hread _ _ _ h

theorem nextElement_cases {first : Bool} {next : Option Bytes}
    (h : nextElement first s = .ok next) :
    ∃ gap, Blank gap ∧
      ((next = none ∧ s = gap ++ ascii ']' :: (dropBlank s).drop 1) ∨
        ∃ left blank, next = some left ∧ Blank blank ∧
          s = gap ++ (separator first ++ (blank ++ left))) := by
  obtain ⟨gap, hgap, hs⟩ := exists_blank s
  refine ⟨gap, hgap, ?_⟩
  rw [nextElement] at h
  split at h
  · cases h
  · next b more hdrop =>
    rw [hdrop] at hs
    split_ifs at h with hclose hfirst hcomma
    · cases h
      exact .inl ⟨rfl, by rw [hdrop, ← hclose]; exact hs⟩
    · cases h
      exact .inr ⟨_, [], rfl, blank_nil, by rw [hfirst]; exact hs⟩
    · split at h
      · cases h
      · next c more' hdrop' =>
        split_ifs at h
        cases h
        obtain ⟨blank, hblank, hmore⟩ := exists_blank more
        refine .inr ⟨_, blank, rfl, hblank, ?_⟩
        rw [Bool.eq_false_iff.2 hfirst, hs, hcomma, hmore, hdrop']
        rfl

theorem nextKey_cases {first : Bool} {more : Bool} (h : nextKey first s = .ok (more, rest)) :
    ∃ gap, Blank gap ∧
      ((more = false ∧ s = gap ++ ascii '\x7d' :: rest) ∨
        ∃ blank, more = true ∧ Blank blank ∧
          s = gap ++ (separator first ++ (blank ++ quote :: rest))) := by
  obtain ⟨gap, hgap, hs⟩ := exists_blank s
  refine ⟨gap, hgap, ?_⟩
  rw [nextKey] at h
  split at h
  · cases h
  · next b left hdrop =>
    rw [hdrop] at hs
    split_ifs at h with hclose hfirst hquote hcomma
    · cases h
      exact .inl ⟨rfl, hclose ▸ hs⟩
    · cases h
      refine .inr ⟨[], rfl, blank_nil, ?_⟩
      rw [hfirst, hs, hquote]
      rfl
    · split at h
      · cases h
      · next c left' hdrop' =>
        split_ifs at h with hquote
        cases h
        obtain ⟨blank, hblank, hleft⟩ := exists_blank left
        refine .inr ⟨blank, rfl, hblank, ?_⟩
        rw [Bool.eq_false_iff.2 hfirst, hs, hcomma, hleft, hdrop', hquote]
        rfl

/-- An element that was read is a part of the list. -/
theorem from_element {first : Bool} {gap blank left left' : Bytes} (hgap : Blank gap)
    (hblank : Blank blank) (helement : Spelled left left')
    (h : Bracket.list.Behind left' rest) :
    Bracket.list.From first (gap ++ (separator first ++ (blank ++ left))) rest := by
  obtain ⟨front, hfront, heq⟩ := (helement.blank hblank).list_front
  rw [heq]
  exact from_part first hgap hfront h

theorem from_of_readElements {element : Nat → Reader α} (helement : ∀ i, TakesValues (element i))
    {bound : Bytes} {index : Nat} {acc as : List α}
    (h : readElements element bound index acc s = .ok (as, rest)) :
    Bracket.list.From (index == 0) s rest := by
  induction bound generalizing index acc s with
  | nil => cases h
  | cons b bound ih =>
    rw [readElements] at h
    split at h
    · cases h
    · next hnext =>
      cases h
      obtain ⟨gap, hgap, ⟨-, hs⟩ | ⟨_, _, hnone, -⟩⟩ := nextElement_cases hnext
      · have hfrom := @from_close .list gap (index == 0) hgap ((dropBlank s).drop 1)
        rwa [show gap ++ Bracket.closing .list :: _ = s from hs.symm] at hfrom
      · cases hnone
    · next left hnext =>
      split at h
      · cases h
      · next a left' hread =>
        obtain ⟨gap, hgap, ⟨hnone, -⟩ | ⟨_, blank, hsome, hblank, hs⟩⟩ := nextElement_cases hnext
        · cases hnone
        · cases hsome
          rw [hs]
          exact from_element hgap hblank (helement index _ _ _ hread) (ih h)

/-- What follows a key is a colon and a value. -/
def TakesMember (read : Reader α) : Prop :=
  ∀ s a rest, read s = .ok (a, rest) →
    ∃ after left, Blank after ∧ s = after ++ ascii ':' :: left ∧ Spelled left rest

theorem exists_colon (h : readColon s = .ok rest) :
    ∃ after, Blank after ∧ s = after ++ ascii ':' :: rest := by
  obtain ⟨after, hafter, hs⟩ := exists_blank s
  rw [readColon] at h
  split at h
  · cases h
  · next b more hdrop =>
    split_ifs at h with hcolon
    cases h
    exact ⟨after, hafter, by rw [hs, hdrop, hcolon]⟩

theorem TakesValues.member {read : Reader α} (hread : TakesValues read) :
    TakesMember (readMember read) := by
  intro s a rest h
  rw [readMember] at h
  split at h
  · cases h
  · next left hcolon =>
    obtain ⟨after, hafter, hs⟩ := exists_colon hcolon
    exact ⟨after, left, hafter, hs, hread _ _ _ h⟩

theorem exists_skipped (h : skipMember s = .ok rest) :
    ∃ after left, Blank after ∧ s = after ++ ascii ':' :: left ∧ Spelled left rest := by
  rw [skipMember] at h
  split at h
  · cases h
  · next left hcolon =>
    obtain ⟨after, hafter, hs⟩ := exists_colon hcolon
    exact ⟨after, left, hafter, hs, spelled_of_skipValue h⟩

theorem from_of_readMembers {σ : Type} {member : σ → String → Reader σ}
    (hmember : ∀ state key, TakesMember (member state key)) {bound : Bytes} {first : Bool}
    {state state' : σ} (h : readMembers member bound first state s = .ok (state', rest)) :
    Bracket.map.From first s rest := by
  induction bound generalizing first state s with
  | nil => cases h
  | cons b bound ih =>
    rw [readMembers] at h
    split at h
    · cases h
    · next left hnext =>
      cases h
      obtain ⟨gap, hgap, ⟨-, rfl⟩ | ⟨_, hmore, -⟩⟩ := nextKey_cases hnext
      · exact from_close first hgap rest
      · cases hmore
    · next left hnext =>
      obtain ⟨gap, hgap, ⟨hmore, -⟩ | ⟨blank, -, hblank, rfl⟩⟩ := nextKey_cases hnext
      · cases hmore
      · split at h
        · cases h
        · next key behind hkey =>
          split at h
          · cases h
          · next state behind' hread =>
            obtain ⟨pieces, rfl⟩ := exists_pieces_of_readText hkey
            obtain ⟨after, value, hafter, rfl, hvalue⟩ := hmember _ _ _ _ _ hread
            obtain ⟨front, hfront, heq⟩ := hvalue.map_front hblank pieces hafter
            rw [heq]
            exact from_part first hgap hfront (ih h)

theorem within_of_readMap {σ : Type} {member : σ → String → Reader σ}
    (hmember : ∀ state key, TakesMember (member state key)) {start state : σ}
    (h : readMap member start s = .ok (state, rest)) : Bracket.map.Within s rest :=
  from_of_readMembers hmember h

/-- Only a list is read as a list. -/
theorem exists_list_of_readList {element : Nat → Reader α}
    (helement : ∀ i, TakesValues (element i)) {as : List α}
    (h : readList element s = .ok (as, rest)) :
    ∃ before elements core, Blank before ∧ Spells (.list elements) core ∧
      s = before ++ (core ++ rest) := by
  obtain ⟨before, hbefore, hs⟩ := exists_blank s
  rw [readList] at h
  split at h
  · cases h
  · next b more hdrop =>
    split_ifs at h with hbracket
    · have hwithin : Bracket.list.Within more rest := from_of_readElements helement h
      obtain ⟨elements, core, hspells, heq⟩ := exists_list_of_within hwithin
      exact ⟨before, elements, core, hbefore, hspells, by rw [hs, hdrop, hbracket, heq]⟩
    · exact absurd h (refuse_ne_ok _ _ _)

end Readers

end AlertSilences.Json
