import AlertSilences.Proofs.Json.Tokens

/-! Nothing is passed over but what is spelled: a value without brackets at once, and any other one
through places in open brackets, from each of which the rest of it leads on. -/

namespace AlertSilences.Json

/-- From one place to a later one there is a value, with white space before it. -/
def Spelled (s rest : Bytes) : Prop :=
  ∃ t before core, Blank before ∧ Spells t core ∧ s = before ++ (core ++ rest)

theorem Spells.spelled {t : Tree} {core : Bytes} (h : Spells t core) (rest : Bytes) :
    Spelled (core ++ rest) rest := ⟨t, [], core, blank_nil, h, rfl⟩

theorem Blank.append {a b : Bytes} (ha : Blank a) (hb : Blank b) : Blank (a ++ b) :=
  fun c hc => (List.mem_append.1 hc).elim (ha c) (hb c)

theorem Spelled.blank {blank s rest : Bytes} (hblank : Blank blank) (h : Spelled s rest) :
    Spelled (blank ++ s) rest := by
  obtain ⟨t, before, core, hb, hspells, rfl⟩ := h
  exact ⟨t, blank ++ before, core, hblank.append hb, hspells, (List.append_assoc _ _ _).symm⟩

/-- White space plays no part in what is read. -/
theorem spelled_of_dropBlank {s rest : Bytes} (h : Spelled (dropBlank s) rest) :
    Spelled s rest := by
  obtain ⟨blank, hblank, hs⟩ := exists_blank s
  rw [hs]
  exact h.blank hblank

section Scalars

theorem spelled_numeral {s rest : Bytes} (minus : Bool) (h : skipNumeral s = .ok rest) :
    Spelled ((if minus then [ascii '-'] else []) ++ s) rest := by
  obtain ⟨n, fraction, exponent, hfraction, hexponent, rfl⟩ := exists_numeral h
  obtain ⟨t, hspells⟩ := spells_numeral minus n hfraction hexponent
  simpa only [List.append_assoc] using hspells.spelled rest

theorem spelled_text {s rest : Bytes} (h : skipText s = .ok rest) : Spelled (quote :: s) rest := by
  obtain ⟨pieces, rfl⟩ := exists_pieces h
  simpa [quoted] using (Spells.text pieces).spelled rest

theorem skipScalar_cases {s rest : Bytes} {bracket : Option Bracket}
    (h : skipScalar s = .ok (bracket, rest)) :
    (bracket = none ∧ Spelled s rest) ∨
      ∃ b : Bracket, bracket = some b ∧ s = b.opening :: rest := by
  have hplain {skip : Except Error Bytes}
      (h : (skip.map fun rest => ((none : Option Bracket), rest)) = .ok (bracket, rest)) :
      bracket = none ∧ skip = .ok rest := by
    obtain ⟨left, hskip, heq⟩ := exists_of_map_eq_ok h
    cases heq
    exact ⟨rfl, hskip⟩
  cases s with
  | nil => cases h
  | cons b s =>
    rw [skipScalar] at h
    dsimp only at h
    split_ifs at h with hnull htrue hfalse hminus hdigit hquote hlist hmap
    · obtain ⟨rfl, hword⟩ := hplain h
      rw [hnull, eq_append_of_readWord hword]
      exact .inl ⟨rfl, Spells.null.spelled rest⟩
    · obtain ⟨rfl, hword⟩ := hplain h
      rw [htrue, eq_append_of_readWord hword]
      exact .inl ⟨rfl, Spells.isTrue.spelled rest⟩
    · obtain ⟨rfl, hword⟩ := hplain h
      rw [hfalse, eq_append_of_readWord hword]
      exact .inl ⟨rfl, Spells.isFalse.spelled rest⟩
    · obtain ⟨rfl, hnumeral⟩ := hplain h
      rw [hminus]
      exact .inl ⟨rfl, spelled_numeral true hnumeral⟩
    · obtain ⟨rfl, hnumeral⟩ := hplain h
      exact .inl ⟨rfl, spelled_numeral false hnumeral⟩
    · obtain ⟨rfl, htext⟩ := hplain h
      rw [hquote]
      exact .inl ⟨rfl, spelled_text htext⟩
    · cases h
      exact .inr ⟨.list, rfl, by rw [hlist]; rfl⟩
    · cases h
      exact .inr ⟨.map, rfl, by rw [hmap]; rfl⟩

end Scalars

section Brackets

/-- The bytes of an element of a list, or of a member of a map. -/
def Bracket.Part : Bracket → Bytes → Prop
  | .list, part => ∃ t p, Spells t (Padded.core p) ∧ part = p.bytes
  | .map, part => ∃ t m, Spells t (Padded.core (Member.value m)) ∧ part = m.bytes

/-- What is a part with any white space behind it. -/
def Bracket.Front (bracket : Bracket) (front : Bytes) : Prop :=
  ∀ gap, Blank gap → bracket.Part (front ++ gap)

variable {bracket : Bracket} {front gap left rest s : Bytes}

theorem Spelled.list_front (h : Spelled s rest) :
    ∃ front, Bracket.list.Front front ∧ s = front ++ rest := by
  obtain ⟨t, before, core, hb, hspells, rfl⟩ := h
  refine ⟨before ++ core, fun gap hgap => ?_, (List.append_assoc _ _ _).symm⟩
  exact ⟨t, ⟨before, core, gap, hb, hgap⟩, hspells, List.append_assoc _ _ _⟩

theorem Spelled.map_front {before after : Bytes} (hbefore : Blank before) (key : List Piece)
    (hafter : Blank after) (h : Spelled s rest) :
    ∃ front, Bracket.map.Front front ∧
      before ++ quote :: (key.flatMap Piece.bytes ++ quote :: (after ++ ascii ':' :: s)) =
        front ++ rest := by
  obtain ⟨t, blank, core, hb, hspells, rfl⟩ := h
  refine ⟨before ++ (quoted key ++ (after ++ ascii ':' :: (blank ++ core))), fun gap hgap => ?_,
    by simp [quoted]⟩
  exact ⟨t, ⟨before, key, after, ⟨blank, core, gap, hb, hgap⟩, hbefore, hafter⟩, hspells,
    by simp [Member.bytes, Padded.bytes]⟩

/-- From behind a part to behind the bracket that closes. -/
def Bracket.Behind (bracket : Bracket) (s rest : Bytes) : Prop :=
  ∃ gap parts, Blank gap ∧ (∀ part ∈ parts, bracket.Part part) ∧
    s = gap ++ following bracket.closing parts rest

/-- From behind the bracket that opens to behind the one that closes. -/
def Bracket.Within (bracket : Bracket) (s rest : Bytes) : Prop :=
  (∃ gap, Blank gap ∧ s = gap ++ bracket.closing :: rest) ∨
    ∃ front left, bracket.Front front ∧ bracket.Behind left rest ∧ s = front ++ left

theorem behind_close (hgap : Blank gap) (rest : Bytes) :
    bracket.Behind (gap ++ bracket.closing :: rest) rest := ⟨gap, [], hgap, nofun, rfl⟩

theorem behind_comma (hgap : Blank gap) (hfront : bracket.Front front)
    (h : bracket.Behind left rest) : bracket.Behind (gap ++ ascii ',' :: (front ++ left)) rest := by
  obtain ⟨gap', parts, hgap', hparts, rfl⟩ := h
  refine ⟨gap, (front ++ gap') :: parts, hgap,
    List.forall_mem_cons.2 ⟨hfront gap' hgap', hparts⟩, ?_⟩
  rw [following_cons, List.append_assoc]

theorem exists_parts (hfront : bracket.Front front) (h : bracket.Behind left rest) :
    ∃ parts, parts ≠ [] ∧ (∀ part ∈ parts, bracket.Part part) ∧
      front ++ left = separated parts ++ bracket.closing :: rest := by
  obtain ⟨gap, parts, hgap, hparts, rfl⟩ := h
  refine ⟨(front ++ gap) :: parts, List.cons_ne_nil _ _,
    List.forall_mem_cons.2 ⟨hfront gap hgap, hparts⟩, ?_⟩
  rw [separated_append, List.append_assoc]

/-- All parts at once. -/
theorem exists_map_eq {α β : Type} {p : α → Prop} {f : α → β} {bs : List β}
    (h : ∀ b ∈ bs, ∃ a, p a ∧ b = f a) : ∃ as : List α, (∀ a ∈ as, p a) ∧ bs = as.map f := by
  induction bs with
  | nil => exact ⟨[], nofun, rfl⟩
  | cons b bs ih =>
    obtain ⟨⟨a, ha, rfl⟩, hbs⟩ := List.forall_mem_cons.1 h
    obtain ⟨as, has, rfl⟩ := ih hbs
    exact ⟨a :: as, List.forall_mem_cons.2 ⟨ha, has⟩, rfl⟩

theorem exists_list_of_within (h : Bracket.list.Within s rest) :
    ∃ elements core, Spells (.list elements) core ∧ ascii '[' :: s = core ++ rest := by
  rcases h with ⟨gap, hgap, rfl⟩ | ⟨front, left, hfront, hleft, rfl⟩
  · exact ⟨[], _, .emptyList hgap, by simp [Bracket.closing]⟩
  · obtain ⟨parts, hne, hparts, heq⟩ := exists_parts hfront hleft
    obtain ⟨pairs, hpairs, rfl⟩ := @exists_map_eq (Tree × Padded) _ (fun p => Spells p.1 p.2.core)
      (·.2.bytes) parts fun part hpart => by
        obtain ⟨t, p, hspells, heq⟩ := hparts part hpart
        exact ⟨(t, p), hspells, heq⟩
    refine ⟨_, _, .list (by simpa using hne) hpairs, ?_⟩
    rw [heq]
    simp [Bracket.closing]

theorem exists_map_of_within (h : Bracket.map.Within s rest) :
    ∃ members core, Spells (.map members) core ∧ ascii '\x7b' :: s = core ++ rest := by
  rcases h with ⟨gap, hgap, rfl⟩ | ⟨front, left, hfront, hleft, rfl⟩
  · exact ⟨[], _, .emptyMap hgap, by simp [Bracket.closing]⟩
  · obtain ⟨parts, hne, hparts, heq⟩ := exists_parts hfront hleft
    obtain ⟨pairs, hpairs, rfl⟩ := @exists_map_eq (Tree × Member) _
      (fun p => Spells p.1 p.2.value.core) (·.2.bytes) parts fun part hpart => by
        obtain ⟨t, m, hspells, heq⟩ := hparts part hpart
        exact ⟨(t, m), hspells, heq⟩
    refine ⟨_, _, .map (by simpa using hne) hpairs, ?_⟩
    rw [heq]
    simp [Bracket.closing]

theorem spelled_of_within (h : bracket.Within s rest) : Spelled (bracket.opening :: s) rest := by
  cases bracket with
  | list =>
    obtain ⟨elements, core, hspells, heq⟩ := exists_list_of_within h
    exact heq ▸ hspells.spelled rest
  | map =>
    obtain ⟨members, core, hspells, heq⟩ := exists_map_of_within h
    exact heq ▸ hspells.spelled rest

/-- White space before a part belongs to it. -/
theorem Bracket.Front.blank {blank : Bytes} (hblank : Blank blank) (h : bracket.Front front) :
    bracket.Front (blank ++ front) := by
  intro gap hgap
  rw [List.append_assoc]
  cases bracket with
  | list =>
    obtain ⟨t, p, hspells, heq⟩ := h gap hgap
    exact ⟨t, { p with before := blank ++ p.before, blank_before := hblank.append p.blank_before },
      hspells, by simp [heq, Padded.bytes]⟩
  | map =>
    obtain ⟨t, m, hspells, heq⟩ := h gap hgap
    exact ⟨t, { m with before := blank ++ m.before, blank_before := hblank.append m.blank_before },
      hspells, by simp [heq, Member.bytes]⟩

/-- From a place in an open bracket, behind it or behind a part, to behind the one that closes. -/
def Bracket.From (bracket : Bracket) (first : Bool) (s rest : Bytes) : Prop :=
  if first then bracket.Within s rest else bracket.Behind s rest

theorem from_close (first : Bool) (hgap : Blank gap) (rest : Bytes) :
    bracket.From first (gap ++ bracket.closing :: rest) rest := by
  cases first with
  | true => exact .inl ⟨gap, hgap, rfl⟩
  | false => exact behind_close hgap rest

/-- What is before a part, behind the white space: the comma, but not before the first one. -/
def separator (first : Bool) : Bytes := if first then [] else [ascii ',']

theorem from_part (first : Bool) (hgap : Blank gap) (hfront : bracket.Front front)
    (h : bracket.Behind left rest) :
    bracket.From first (gap ++ (separator first ++ (front ++ left))) rest := by
  cases first with
  | true =>
    exact .inr ⟨gap ++ front, left, hfront.blank hgap, h, (List.append_assoc gap front left).symm⟩
  | false =>
    have hbehind := behind_comma hgap hfront h
    exact hbehind

end Brackets

section Rounds

variable {brackets : List Bracket} {s rest : Bytes} {u v : Unread}

/-- From behind a value to behind the last of the brackets that are open. -/
def Closes : List Bracket → Bytes → Bytes → Prop
  | [], s, rest => s = rest
  | bracket :: brackets, s, rest => ∃ left, bracket.Behind s left ∧ Closes brackets left rest

def Unread.LeadsTo (u : Unread) (rest : Bytes) : Prop :=
  match u.place, u.brackets with
  | .element, brackets => Closes brackets u.text rest
  | .opened, bracket :: brackets => ∃ left, bracket.Within u.text left ∧ Closes brackets left rest
  | _, brackets => ∃ left, Spelled u.text left ∧ Closes brackets left rest

theorem spelled_of_enter (h : Unread.enter brackets s = .ok v) (hv : v.LeadsTo rest) :
    ∃ left, Spelled s left ∧ Closes brackets left rest := by
  rw [Unread.enter] at h
  split at h
  · cases h
  · next bracket left hscalar =>
    cases h
    obtain ⟨hnone, -⟩ | ⟨b, hb, hs⟩ := skipScalar_cases hscalar
    · cases hnone
    · cases hb
      obtain ⟨left', hwithin, hcloses⟩ := hv
      exact ⟨left', spelled_of_dropBlank (hs ▸ spelled_of_within hwithin), hcloses⟩
  · next left hscalar =>
    cases h
    obtain ⟨-, hspelled⟩ | ⟨b, hb, -⟩ := skipScalar_cases hscalar
    · exact ⟨left, spelled_of_dropBlank hspelled, hv⟩
    · cases hb

theorem exists_key (h : skipKey s = .ok rest) :
    ∃ (before : Bytes) (key : List Piece) (after : Bytes), Blank before ∧ Blank after ∧
      s = before ++ quote ::
        (key.flatMap Piece.bytes ++ quote :: (after ++ ascii ':' :: rest)) := by
  obtain ⟨before, hbefore, hs⟩ := exists_blank s
  rw [skipKey] at h
  split at h
  · cases h
  · next b more hdrop =>
    split_ifs at h with hquote
    split at h
    · cases h
    · next left htext =>
      obtain ⟨key, rfl⟩ := exists_pieces htext
      obtain ⟨after, hafter, hleft⟩ := exists_blank left
      split at h
      · cases h
      · next c _ hcolon =>
        split_ifs at h with hc
        cases h
        refine ⟨before, key, after, hbefore, hafter, ?_⟩
        rw [hs, hdrop, not_not.1 hquote, hleft, hcolon, hc]

theorem front_of_next {bracket : Bracket} (h : Unread.next bracket brackets s = .ok v)
    (hv : v.LeadsTo rest) :
    ∃ front left, bracket.Front front ∧ s = front ++ left ∧
      Closes (bracket :: brackets) left rest := by
  cases bracket with
  | list =>
    obtain ⟨left, hspelled, hcloses⟩ := spelled_of_enter h hv
    obtain ⟨front, hfront, rfl⟩ := hspelled.list_front
    exact ⟨front, left, hfront, rfl, hcloses⟩
  | map =>
    rw [Unread.next] at h
    split at h
    · cases h
    · next hkey =>
      cases h
      obtain ⟨left, hspelled, hcloses⟩ := hv
      obtain ⟨before, key, after, hbefore, hafter, rfl⟩ := exists_key hkey
      obtain ⟨front, hfront, heq⟩ := hspelled.map_front hbefore key hafter
      exact ⟨front, left, hfront, heq, hcloses⟩

/-- What a round leads to can be led to from where it began. -/
theorem leadsTo_of_round (unfinished : u.place = .element → u.brackets ≠ [])
    (h : u.round = .ok v) (hv : v.LeadsTo rest) : u.LeadsTo rest := by
  obtain ⟨place, brackets, text⟩ := u
  have hbracket (first : Bool) (bracket : Bracket) (brackets : List Bracket)
      (h : Unread.round ⟨between first, bracket :: brackets, text⟩ = .ok v) :
      ∃ left, bracket.From first text left ∧ Closes brackets left rest := by
    obtain ⟨gap, hgap, htext⟩ := exists_blank text
    cases hdrop : dropBlank text with
    | nil => cases first <;> simp [between, Unread.round, hdrop] at h
    | cons b more =>
      rw [hdrop] at htext
      have hround : (if bracket.closes b then .ok ⟨.element, brackets, more⟩
          else if first then Unread.next bracket brackets (b :: more)
          else if b = ascii ',' then Unread.next bracket brackets more
          else .error bracket.commaError) = Except.ok v := by
        cases first <;> simpa [between, Unread.round, hdrop] using h
      rw [htext]
      split_ifs at hround with hcloses hfirst hcomma
      · cases hround
        have hb : b = bracket.closing := by cases bracket <;> exact of_decide_eq_true hcloses
        exact ⟨more, hb ▸ from_close first hgap more, hv⟩
      · obtain ⟨front, left, hfront, heq, left', hbehind, hcloses⟩ := front_of_next hround hv
        rw [heq, hfirst]
        exact ⟨left', from_part true hgap hfront hbehind, hcloses⟩
      · obtain ⟨front, left, hfront, heq, left', hbehind, hcloses⟩ := front_of_next hround hv
        rw [heq, hcomma, Bool.eq_false_iff.2 hfirst]
        exact ⟨left', from_part false hgap hfront hbehind, hcloses⟩
  cases brackets with
  | nil =>
    cases place with
    | element => exact absurd rfl (unfinished rfl)
    | value | opened => exact spelled_of_enter h hv
  | cons bracket brackets =>
    cases place with
    | value => exact spelled_of_enter h hv
    | opened => exact hbracket true bracket brackets h
    | element => exact hbracket false bracket brackets h

/-- All rounds lead from where they begin to the end. -/
theorem leadsTo_of_skipRounds {bound : Bytes} (h : skipRounds bound u = .ok rest) :
    u.LeadsTo rest := by
  fun_induction skipRounds bound u with
  | case1 =>
    cases h
    rfl
  | case2 | case3 => cases h
  | case4 _ _ u unfinished v hround ih =>
    refine leadsTo_of_round (fun hplace hnil => ?_) hround (ih h)
    obtain ⟨place, brackets, text⟩ := u
    exact unfinished text (by rw [show place = _ from hplace, show brackets = _ from hnil])

/-- Nothing but a value is passed over. -/
theorem spelled_of_skipValue (h : skipValue s = .ok rest) : Spelled s rest := by
  obtain ⟨left, hspelled, rfl⟩ := leadsTo_of_skipRounds h
  exact hspelled

end Rounds

end AlertSilences.Json
