import AlertSilences.Json.Skip
import AlertSilences.Proofs.Json.Containers

/-! Any value can be passed over, however deep it is nested: some rounds take it off the front, not
more than it has bytes. -/

namespace AlertSilences.Json

section Numbers

variable {rest : Bytes}

theorem Digits.split {digits : Bytes} (h : Digits digits)
    (hrest : startsWith isDigit rest = false) :
    (∃ b more, digits = b :: more ∧ isDigit b = true) ∧
      (digits ++ rest).dropWhile isDigit = rest := by
  obtain ⟨cs, hne, hd, rfl⟩ := h
  refine ⟨?_, (split_digits (fun b hb => ?_) hrest).2⟩
  · obtain ⟨c, cs, rfl⟩ := List.exists_cons_of_ne_nil hne
    exact ⟨_, _, rfl, isDigit_ascii (hd c List.mem_cons_self)⟩
  · obtain ⟨c, hc, rfl⟩ := List.mem_map.1 hb
    exact isDigit_ascii (hd c hc)

theorem skipExponent_digits {sign digits : Bytes}
    (hsign : sign ∈ [[], [ascii '+'], [ascii '-']]) (hd : Digits digits)
    (hrest : startsWith isDigit rest = false) :
    skipExponent (sign ++ (digits ++ rest)) = .ok rest := by
  obtain ⟨⟨b, more, rfl, hdigit⟩, hdrop⟩ := hd.split hrest
  have hleft : (if startsWith isDigit (b :: more ++ rest) then
      .ok ((b :: more ++ rest).dropWhile isDigit)
      else .error Error.badNumber) = Except.ok rest := by
    rw [hdrop, if_pos (show startsWith isDigit (b :: more ++ rest) = true from hdigit)]
  simp only [List.mem_cons, List.not_mem_nil, or_false] at hsign
  rw [skipExponent]
  rcases hsign with rfl | rfl | rfl
  · have hplus : b ≠ ascii '+' := ne_of_isDigit hdigit (by decide)
    have hminus : b ≠ ascii '-' := ne_of_isDigit hdigit (by decide)
    have hsigns :
        startsWith (fun b => b = ascii '+' || b = ascii '-') (b :: more ++ rest) = false := by
      simp [startsWith, hplus, hminus]
    simp only [List.nil_append, hsigns, Bool.false_eq_true, if_false]
    exact hleft
  · exact hleft
  · exact hleft

/-- An exponent, if there is one, is passed over. It does not go on with digits before it. -/
theorem skip_exponent {exponent : Bytes} (h : Exponent exponent) (hrest : Stops rest) :
    startsWith isDigit (exponent ++ rest) = false ∧
      startsWith (· = ascii '.') (exponent ++ rest) = false ∧
      (if startsWith isMark (exponent ++ rest) then skipExponent ((exponent ++ rest).drop 1)
        else .ok (exponent ++ rest)) = .ok rest := by
  obtain ⟨hdigit, hpoint, hmark⟩ := hrest.each
  rcases h with rfl | ⟨mark, sign, digits, hm, hsign, hd, rfl⟩
  · refine ⟨hdigit, hpoint, ?_⟩
    rw [List.nil_append, show startsWith isMark rest = false from hmark]
    rfl
  · have hall : ∀ b ∈ [ascii 'e', ascii 'E'],
        isDigit b = false ∧ decide (b = ascii '.') = false ∧ isMark b = true :=
      List.all_iff_forall_prop.1 (by decide)
    obtain ⟨hm₁, hm₂, hm₃⟩ := hall mark hm
    refine ⟨hm₁, hm₂, ?_⟩
    rw [List.cons_append, if_pos (show startsWith isMark (mark :: _) = true from hm₃),
      List.append_assoc]
    exact skipExponent_digits hsign hd hdigit

theorem skipNumeral_natural (n : Nat) {s : Bytes} (h : startsWith isDigit s = false) :
    skipNumeral (writeNatural n ++ s) =
      if startsWith (· = ascii '.') s then skipFraction (s.drop 1)
      else if startsWith isMark s then skipExponent (s.drop 1)
      else .ok s := by
  obtain ⟨c, cs, hcs, hd, hwritten⟩ := writeNatural_cons n
  have hfirst : isDigit (ascii c) = true := isDigit_ascii (hd c List.mem_cons_self)
  have hzero := not_zero_and_more hcs (hd c List.mem_cons_self) h
  have hdrop : (cs.map ascii ++ s).dropWhile isDigit = s := by
    refine (split_digits (fun b hb => ?_) h).2
    obtain ⟨d, hd', rfl⟩ := List.mem_map.1 hb
    exact isDigit_ascii (hd d (List.mem_cons_of_mem _ hd'))
  rw [hwritten, List.cons_append, skipNumeral]
  simp only [hfirst, hzero, hdrop, Bool.not_true, Bool.false_eq_true, if_false]

/-- Any number is passed over behind its sign. -/
theorem skipNumeral_spelled (n : Nat) {fraction exponent : Bytes} (hfraction : Fraction fraction)
    (hexponent : Exponent exponent) (hrest : Stops rest) :
    skipNumeral (writeNatural n ++ (fraction ++ (exponent ++ rest))) = .ok rest := by
  obtain ⟨hdigit, hpoint, hexp⟩ := skip_exponent hexponent hrest
  rcases hfraction with rfl | ⟨digits, hd, rfl⟩
  · rw [List.nil_append, skipNumeral_natural n hdigit, hpoint]
    exact hexp
  · obtain ⟨⟨b, more, rfl, hb⟩, hdrop⟩ := hd.split hdigit
    have hdot : isDigit (ascii '.') = false := by decide
    rw [List.cons_append, skipNumeral_natural n (show startsWith isDigit (ascii '.' :: _) = false
      from hdot), if_pos (by simp [startsWith]), List.drop_one, List.tail_cons, skipFraction,
      if_pos (show startsWith isDigit (b :: more ++ _) = true from hb), hdrop]
    exact hexp

end Numbers

section Rounds

/-- So many rounds lead from one place to another without coming to the end before. -/
inductive Rounds : Nat → Unread → Unread → Prop
  | none (u : Unread) : Rounds 0 u u
  | cons {n u v w} (unfinished : u.place = .element → u.brackets ≠ []) (first : u.round = .ok v)
      (more : Rounds n v w) : Rounds (n + 1) u w

theorem Rounds.trans {m n : Nat} {u v w : Unread} (h : Rounds m u v) (h' : Rounds n v w) :
    Rounds (n + m) u w := by
  induction h with
  | none => exact h'
  | cons unfinished first _ ih => exact .cons unfinished first (ih h')

theorem skipRounds_of_rounds {n : Nat} {u : Unread} {rest : Bytes}
    (h : Rounds n u ⟨.element, [], rest⟩) {bound : Bytes} (hbound : n ≤ bound.length) :
    skipRounds bound u = .ok rest := by
  generalize hend : (⟨.element, [], rest⟩ : Unread) = w at h
  induction h generalizing bound with
  | none u =>
    subst hend
    rw [skipRounds]
  | @cons n u v w unfinished first _ ih =>
    obtain _ | ⟨b, bound⟩ := bound
    · exact absurd hbound (Nat.not_succ_le_zero _)
    · have hmore := ih (Nat.le_of_succ_le_succ hbound) hend
      rw [skipRounds.eq_def]
      split
      · exact absurd rfl (unfinished rfl)
      · rename_i hnil _
        cases hnil
      · rename_i hcons _
        obtain ⟨rfl, rfl⟩ := List.cons.inj hcons
        rw [first]
        exact hmore

/-- From any place where the bytes of a value are next they are passed over, in not more rounds than
there are bytes. -/
def Passes (core : Bytes) : Prop :=
  ∀ (u : Unread) (brackets : List Bracket) (before rest : Bytes), Blank before → Stops rest →
    (u.place = .element → u.brackets ≠ []) →
    u.round = Unread.enter brackets (before ++ (core ++ rest)) →
    ∃ n, n ≤ core.length ∧ Rounds n u ⟨.element, brackets, rest⟩

variable {t : Tree} {core : Bytes}

/-- A value without brackets takes one round. -/
theorem passes_scalar (h : Spells t core)
    (hskip : ∀ rest, Stops rest → skipScalar (core ++ rest) = .ok (none, rest)) : Passes core := by
  intro u brackets before rest hb hrest unfinished hround
  obtain ⟨b, more, hbegins, rfl, hdrop⟩ := h.dropBlank hb rest
  refine ⟨1, Nat.succ_le_succ (Nat.zero_le _), .cons unfinished ?_ (.none _)⟩
  have hscalar := hskip rest hrest
  rw [List.cons_append] at hscalar
  rw [hround, Unread.enter, hdrop, hscalar]

theorem skipScalar_number (minus : Bool) (n : Nat) {fraction exponent : Bytes}
    (hfraction : Fraction fraction) (hexponent : Exponent exponent) {rest : Bytes}
    (hrest : Stops rest) :
    skipScalar ((if minus then [ascii '-'] else []) ++
      (writeNatural n ++ (fraction ++ (exponent ++ rest)))) = .ok (none, rest) := by
  have hskip := skipNumeral_spelled n hfraction hexponent hrest
  cases minus with
  | true =>
    have hminus : ascii '-' ≠ ascii 'n' ∧ ascii '-' ≠ ascii 't' ∧ ascii '-' ≠ ascii 'f' := by decide
    simp [skipScalar, hskip, hminus]
    rfl
  | false =>
    obtain ⟨c, cs, -, hd, hwritten⟩ := writeNatural_cons n
    have hfirst : isDigit (ascii c) = true := isDigit_ascii (hd c List.mem_cons_self)
    have hne {b : UInt8} (hb : isDigit b = false) : ascii c ≠ b := ne_of_isDigit hfirst hb
    rw [hwritten] at hskip ⊢
    rw [List.cons_append] at hskip ⊢
    simp [skipScalar, hne (show isDigit (ascii 'n') = false by decide),
      hne (show isDigit (ascii 't') = false by decide),
      hne (show isDigit (ascii 'f') = false by decide),
      hne (show isDigit (ascii '-') = false by decide), hfirst, hskip]
    rfl

theorem passes_of_scalar (h : Spells t core) (hlist : ∀ elements, t ≠ .list elements)
    (hmap : ∀ members, t ≠ .map members) : Passes core := by
  refine passes_scalar h fun rest hrest => ?_
  cases h with
  | null | isTrue | isFalse => rfl
  | integer n =>
    have hskip := skipScalar_number (decide (n < 0)) n.natAbs (.inl rfl) (.inl rfl) hrest
    rw [writeInteger_eq, List.append_assoc]
    simpa using hskip
  | real x =>
    rw [RealNumeral.bytes]
    simp only [List.append_assoc]
    exact skipScalar_number x.minus x.whole x.is_fraction x.is_exponent hrest
  | text pieces =>
    have hskip := skipText_pieces pieces rest
    have hquote : quote ≠ ascii 'n' ∧ quote ≠ ascii 't' ∧ quote ≠ ascii 'f' ∧ quote ≠ ascii '-' ∧
        isDigit quote = false := by decide
    simp [quoted, skipScalar, hskip, hquote]
    rfl
  | emptyList | list => exact absurd rfl (hlist _)
  | emptyMap | map => exact absurd rfl (hmap _)

section Standing

variable (bracket : Bracket) (brackets : List Bracket) (first : Bool) {gap : Bytes}

def Bracket.opening : Bracket → UInt8
  | .list => ascii '['
  | .map => ascii '\x7b'

def Bracket.closing : Bracket → UInt8
  | .list => ascii ']'
  | .map => ascii '\x7d'

def between : Place := if first then .opened else .element

theorem round_standing_nil (hgap : Blank gap) (rest : Bytes) :
    Unread.round ⟨between first, bracket :: brackets,
      standing bracket.closing first gap [] rest⟩ = .ok ⟨.element, brackets, rest⟩ := by
  have hclose : bracket.closes bracket.closing = true := by cases bracket <;> decide
  have hblank : isBlank bracket.closing = false := by cases bracket <;> decide
  rw [standing_nil]
  cases first <;>
    simp only [between, Bool.false_eq_true, if_true, if_false, Unread.round,
      dropBlank_append hgap, dropBlank_cons hblank, hclose]

/-- Behind an opening bracket the first part is next, and behind a part the comma. -/
theorem round_standing (hgap : Blank gap) {before : Bytes} (hbefore : Blank before) {b : UInt8}
    (hb : isBlank b = false) (hclose : bracket.closes b = false) (more : Bytes)
    (parts : List Bytes) (rest : Bytes) :
    ∃ blank, Blank blank ∧ Unread.round ⟨between first, bracket :: brackets,
        standing bracket.closing first gap ((before ++ b :: more) :: parts) rest⟩ =
      Unread.next bracket brackets
        (blank ++ (b :: (more ++ following bracket.closing parts rest))) := by
  cases first with
  | true =>
    refine ⟨[], nofun, ?_⟩
    rw [standing_first, List.append_assoc]
    simp only [between, if_true, Unread.round, dropBlank_append hgap, dropBlank_append hbefore,
      List.cons_append, dropBlank_cons hb, hclose, Bool.false_eq_true, if_false, List.nil_append]
  | false =>
    have hblank : isBlank (ascii ',') = false := by decide
    have hcomma : bracket.closes (ascii ',') = false := by cases bracket <;> decide
    refine ⟨before, hbefore, ?_⟩
    rw [standing_later, List.append_assoc]
    simp [between, Unread.round, dropBlank_append hgap, dropBlank_cons hblank, hcomma]

theorem length_standing_cons (close : UInt8) (gap front core after : Bytes) (parts : List Bytes)
    (rest : Bytes) :
    front.length + core.length + (standing close false after parts rest).length ≤
      (standing close first gap ((front ++ (core ++ after)) :: parts) rest).length := by
  rw [standing, if_neg Bool.false_ne_true]
  cases first with
  | true =>
    rw [standing_first]
    simp only [List.length_append]
    omega
  | false =>
    rw [standing_later]
    simp only [List.length_append, List.length_cons]
    omega

end Standing

/-- In a list the elements are passed over one after another, and then the closing bracket. -/
theorem rounds_list {parts : List (Tree × Padded)} (each : ∀ p ∈ parts, Spells p.1 p.2.core)
    (passes : ∀ p ∈ parts, Passes p.2.core) (first : Bool) {gap : Bytes} (hgap : Blank gap)
    (brackets : List Bracket) (rest : Bytes) :
    ∃ n, n + rest.length ≤ (standing (ascii ']') first gap (parts.map (·.2.bytes)) rest).length ∧
      Rounds n ⟨between first, .list :: brackets,
          standing (ascii ']') first gap (parts.map (·.2.bytes)) rest⟩
        ⟨.element, brackets, rest⟩ := by
  induction parts generalizing first gap with
  | nil =>
    refine ⟨1, ?_, .cons (fun _ => List.cons_ne_nil _ _)
      (round_standing_nil .list brackets first hgap rest) (.none _)⟩
    rw [List.map_nil, standing_nil, List.length_append, List.length_cons]
    omega
  | cons p parts ih =>
    obtain ⟨hp, hparts⟩ := List.forall_mem_cons.1 each
    obtain ⟨hpass, hpasses⟩ := List.forall_mem_cons.1 passes
    obtain ⟨m, hm, hmore⟩ := ih hparts hpasses false p.2.blank_after
    obtain ⟨b, more, hcore, hblank, hclose⟩ := hp.opens
    have hbytes : p.2.bytes = p.2.before ++ b :: (more ++ p.2.after) := by
      rw [Padded.bytes, hcore, List.cons_append]
    obtain ⟨blank, hb, hround⟩ := round_standing .list brackets first hgap p.2.blank_before hblank
      (by simpa [Bracket.closes] using hclose) (more ++ p.2.after) (parts.map (·.2.bytes)) rest
    rw [← hbytes, List.append_assoc, ← List.cons_append, ← hcore] at hround
    obtain ⟨n, hn, hvalue⟩ := hpass _ _ _ _ hb (stops_standing (.inl rfl) p.2.blank_after _ _)
      (fun _ => List.cons_ne_nil _ _) hround
    refine ⟨m + n, ?_, hvalue.trans hmore⟩
    have hlength := length_standing_cons first (ascii ']') gap p.2.before p.2.core p.2.after
      (parts.map (·.2.bytes)) rest
    rw [List.map_cons, Padded.bytes]
    omega

theorem skipKey_spelled {blank : Bytes} (hb : Blank blank) (key : List Piece) {after : Bytes}
    (hafter : Blank after) (s : Bytes) :
    skipKey (blank ++ quote :: (key.flatMap Piece.bytes ++ quote :: (after ++ ascii ':' :: s))) =
      .ok s := by
  have hquote : isBlank quote = false := by decide
  have hcolon : isBlank (ascii ':') = false := by decide
  rw [skipKey, dropBlank_append hb, dropBlank_cons hquote]
  simp only [ne_eq, not_true_eq_false, if_false, skipText_pieces, dropBlank_append hafter,
    dropBlank_cons hcolon, if_true]

/-- In a map every key is passed over and then its value. -/
theorem rounds_map {parts : List (Tree × Member)} (passes : ∀ p ∈ parts, Passes p.2.value.core)
    (first : Bool) {gap : Bytes} (hgap : Blank gap) (brackets : List Bracket) (rest : Bytes) :
    ∃ n, n + rest.length ≤
        (standing (ascii '\x7d') first gap (parts.map (·.2.bytes)) rest).length ∧
      Rounds n ⟨between first, .map :: brackets,
          standing (ascii '\x7d') first gap (parts.map (·.2.bytes)) rest⟩
        ⟨.element, brackets, rest⟩ := by
  induction parts generalizing first gap with
  | nil =>
    refine ⟨1, ?_, .cons (fun _ => List.cons_ne_nil _ _)
      (round_standing_nil .map brackets first hgap rest) (.none _)⟩
    rw [List.map_nil, standing_nil, List.length_append, List.length_cons]
    omega
  | cons p parts ih =>
    obtain ⟨hpass, hpasses⟩ := List.forall_mem_cons.1 passes
    obtain ⟨k, hk, hmore⟩ := ih hpasses false p.2.value.blank_after
    obtain ⟨tree, before, key, after, value, hbefore, hafter⟩ := p
    dsimp only at hpass hk hmore ⊢
    obtain ⟨blank, hb, hround⟩ := round_standing .map brackets first hgap hbefore
      (show isBlank quote = false by decide) (by decide)
      (key.flatMap Piece.bytes ++ quote :: (after ++ ascii ':' :: value.bytes))
      (parts.map (·.2.bytes)) rest
    set left := standing (ascii '\x7d') false value.after (parts.map (·.2.bytes)) rest with hleft
    have hbytes : Member.bytes ⟨before, key, after, value, hbefore, hafter⟩ =
        before ++ quote :: (key.flatMap Piece.bytes ++ quote ::
          (after ++ ascii ':' :: value.bytes)) := by
      simp [Member.bytes, quoted]
    have htext :
        quote :: ((key.flatMap Piece.bytes ++ quote :: (after ++ ascii ':' :: value.bytes)) ++
          following (ascii '\x7d') (parts.map (·.2.bytes)) rest) =
        quote :: (key.flatMap Piece.bytes ++ quote ::
          (after ++ ascii ':' :: (value.before ++ (value.core ++ left)))) := by
      simp [Padded.bytes, hleft, standing]
    -- one round for the key, and then those of the value
    have hfirst : Unread.round ⟨between first, .map :: brackets,
        standing (ascii '\x7d') first gap
          (Member.bytes ⟨before, key, after, value, hbefore, hafter⟩ :: parts.map (·.2.bytes))
          rest⟩ =
        .ok ⟨.value, .map :: brackets, value.before ++ (value.core ++ left)⟩ := by
      rw [hbytes]
      refine hround.trans ?_
      rw [show Bracket.closing .map = ascii '\x7d' from rfl, htext, Unread.next,
        skipKey_spelled hb key hafter]
    obtain ⟨n, hn, hvalue⟩ := hpass ⟨.value, .map :: brackets, value.before ++ (value.core ++ left)⟩
      (.map :: brackets) value.before left value.blank_before
      (stops_standing (.inr rfl) value.blank_after _ _) (fun h => by cases h) rfl
    refine ⟨k + n + 1, ?_, .cons (fun _ => List.cons_ne_nil _ _) hfirst (hvalue.trans hmore)⟩
    have hlength := length_standing_cons first (ascii '\x7d') gap
      (before ++ (quoted key ++ (after ++ ascii ':' :: value.before))) value.core value.after
      (parts.map (·.2.bytes)) rest
    have hmember : Member.bytes ⟨before, key, after, value, hbefore, hafter⟩ =
        (before ++ (quoted key ++ (after ++ ascii ':' :: value.before))) ++
          (value.core ++ value.after) := by
      simp [Member.bytes, Padded.bytes]
    rw [List.map_cons, hmember]
    rw [← hleft] at hlength
    simp only [List.length_append, List.length_cons] at hlength
    omega

/-- A bracket that opens, its parts, and what closes it. -/
theorem passes_of_open (bracket : Bracket) (gap : Bytes) (parts : List Bytes)
    (hcore : ∀ rest, core ++ rest =
      bracket.opening :: standing bracket.closing true gap parts rest)
    (hrounds : ∀ brackets rest, ∃ n,
      n + rest.length ≤ (standing bracket.closing true gap parts rest).length ∧
        Rounds n ⟨between true, bracket :: brackets, standing bracket.closing true gap parts rest⟩
          ⟨.element, brackets, rest⟩) : Passes core := by
  have hblank : isBlank bracket.opening = false := by cases bracket <;> decide
  have hskip (s : Bytes) : skipScalar (bracket.opening :: s) = .ok (some bracket, s) := by
    cases bracket <;> rfl
  intro u brackets before rest hb _ unfinished hround
  obtain ⟨n, hn, hmore⟩ := hrounds brackets rest
  rw [Unread.enter, dropBlank_append hb, hcore, dropBlank_cons hblank, hskip] at hround
  refine ⟨n + 1, ?_, .cons unfinished hround hmore⟩
  have hlength := congrArg List.length (hcore rest)
  rw [List.length_append, List.length_cons] at hlength
  omega

/-- Any value is passed over, by induction on how it is spelled. -/
theorem Spells.passes (h : Spells t core) : Passes core := by
  induction h with
  | @emptyList blank hblank =>
    have hrounds := rounds_list (fun _ hp => absurd hp List.not_mem_nil) nofun true hblank
    exact passes_of_open .list blank []
      (fun rest => by simp [Bracket.opening, Bracket.closing]) hrounds
  | @list parts nonempty each ih =>
    have hrounds := rounds_list each ih true blank_nil
    exact passes_of_open .list [] _
      (fun rest => by simp [standing, Bracket.opening, Bracket.closing]) hrounds
  | @emptyMap blank hblank =>
    have hrounds := rounds_map (fun _ hp => absurd hp List.not_mem_nil) true hblank
    exact passes_of_open .map blank []
      (fun rest => by simp [Bracket.opening, Bracket.closing]) hrounds
  | @map parts nonempty each ih =>
    have hrounds := rounds_map ih true blank_nil
    exact passes_of_open .map [] _
      (fun rest => by simp [standing, Bracket.opening, Bracket.closing]) hrounds
  | null => exact passes_of_scalar .null (by simp) (by simp)
  | isTrue => exact passes_of_scalar .isTrue (by simp) (by simp)
  | isFalse => exact passes_of_scalar .isFalse (by simp) (by simp)
  | integer n => exact passes_of_scalar (.integer n) (by simp) (by simp)
  | real x => exact passes_of_scalar (.real x) (by simp) (by simp)
  | text pieces => exact passes_of_scalar (.text pieces) (by simp) (by simp)

/-- A value is passed over wherever it stands. -/
theorem skipValue_spelled (h : Spells t core) {before rest : Bytes} (hb : Blank before)
    (hrest : Stops rest) : skipValue (before ++ (core ++ rest)) = .ok rest := by
  obtain ⟨n, hn, hrounds⟩ := h.passes ⟨.value, [], before ++ (core ++ rest)⟩ [] before rest hb hrest
    nofun rfl
  refine skipRounds_of_rounds hrounds ?_
  simp only [List.length_cons, List.length_append]
  omega

end Rounds

end AlertSilences.Json
