import AlertSilences.Json.Value
import AlertSilences.Json.Writer
import Mathlib.Tactic.IntervalCases
import Mathlib.Tactic.Linarith
import Mathlib.Tactic.SplitIfs

/-! An integer that was written is read back, provided that what follows it does not go on with a
number. Digits are gathered up to a word, and every id and every second fits into one. -/

namespace AlertSilences.Json

/-- What follows does not belong to a number that ends here. -/
def Stops (rest : Bytes) : Prop :=
  startsWith (fun b => isDigit b || isPoint b || isExponentMark b) rest = false

theorem Stops.cons {b : UInt8} (h : (isDigit b || isPoint b || isExponentMark b) = false)
    (rest : Bytes) : Stops (b :: rest) := h

/-- What comes next is no digit, no point and no mark of an exponent. -/
theorem Stops.each {rest : Bytes} (h : Stops rest) :
    startsWith isDigit rest = false ∧ startsWith isPoint rest = false ∧
      startsWith isExponentMark rest = false := by
  cases rest with
  | nil => exact ⟨rfl, rfl, rfl⟩
  | cons b rest =>
    have hb : (isDigit b || isPoint b || isExponentMark b) = false := h
    rw [Bool.or_eq_false_iff, Bool.or_eq_false_iff] at hb
    exact ⟨hb.1.1, hb.1.2, hb.2⟩

section Digits

variable {c : Char}

theorem toNat_ascii (h : c.isDigit = true) :
    (ascii c).toNat = c.toNat ∧ 48 ≤ c.toNat ∧ c.toNat ≤ 57 := by
  have hc : 48 ≤ c.toNat ∧ c.toNat ≤ 57 := by
    simpa [Char.isDigit, UInt32.le_iff_toNat_le] using h
  refine ⟨?_, hc⟩
  rw [ascii, UInt8.toNat_ofNat_of_lt' (by simp [UInt8.size]; omega)]

theorem isDigit_ascii (h : c.isDigit = true) : isDigit (ascii c) = true := by
  have := toNat_ascii h
  simp [isDigit, UInt8.le_iff_toNat_le]
  omega

theorem ascii_inj {d : Char} (h : c.isDigit = true) (h' : d.isDigit = true)
    (heq : ascii c = ascii d) : c = d := by
  apply Char.toNat_inj.1
  rw [← (toNat_ascii h).1, ← (toNat_ascii h').1, heq]

theorem digitValue_ascii (h : c.isDigit = true) :
    digitValue (ascii c) = c.toNat - '0'.toNat := by
  rw [digitValue, (toNat_ascii h).1]
  rfl

end Digits

theorem le_ofDigitChars (cs : List Char) (n : Nat) : n ≤ Nat.ofDigitChars 10 cs n := by
  rw [Nat.ofDigitChars_eq_ofDigitChars_zero]
  have : 0 < 10 ^ cs.length := Nat.pow_pos (by decide)
  nlinarith

/-- Digits that fit into a word are all gathered. -/
theorem gather_digits {cs : List Char} (hd : ∀ c ∈ cs, c.isDigit = true) {n : Nat}
    (hfits : Nat.ofDigitChars 10 cs n < Nat.pow 2 64) (count : Nat) {rest : Bytes}
    (hrest : startsWith isDigit rest = false) :
    gather n count (cs.map ascii ++ rest) =
      (Nat.ofDigitChars 10 cs n, count + cs.length, rest) := by
  induction cs generalizing n count with
  | nil =>
    cases rest with
    | nil => rfl
    | cons b rest =>
      have hb : isDigit b = false := hrest
      simp [gather, hb, Nat.ofDigitChars]
  | cons c cs ih =>
    obtain ⟨hc, hcs⟩ := List.forall_mem_cons.1 hd
    rw [Nat.ofDigitChars_cons] at hfits
    have hstep : 10 * n + (c.toNat - '0'.toNat) < Nat.pow 2 64 :=
      Nat.lt_of_le_of_lt (le_ofDigitChars cs _) hfits
    have hgo : isDigit (ascii c) && 10 * n + digitValue (ascii c) < Nat.pow 2 64 := by
      rw [isDigit_ascii hc, digitValue_ascii hc]
      simpa using hstep
    rw [List.map_cons, List.cons_append, gather, if_pos hgo, digitValue_ascii hc,
      ih hcs hfits, Nat.ofDigitChars_cons, List.length_cons]
    congr 2
    omega

/-- Digits that do not fit into a word are left where they are. -/
theorem gather_cases {cs : List Char} (hd : ∀ c ∈ cs, c.isDigit = true) {n : Nat}
    (hn : n < Nat.pow 2 64) (count : Nat) {rest : Bytes}
    (hrest : startsWith isDigit rest = false) :
    ∃ m k left, gather n count (cs.map ascii ++ rest) = (m, k, left ++ rest) ∧
      (∀ b ∈ left, isDigit b = true) ∧
      (left = [] → Nat.ofDigitChars 10 cs n < Nat.pow 2 64) := by
  induction cs generalizing n count with
  | nil =>
    refine ⟨n, count, [], ?_, nofun, fun _ => hn⟩
    have hgather := @gather_digits [] nofun n hn count rest hrest
    simpa [Nat.ofDigitChars] using hgather
  | cons c cs ih =>
    obtain ⟨hc, hcs⟩ := List.forall_mem_cons.1 hd
    rw [List.map_cons, List.cons_append, gather]
    split_ifs with hgo
    · rw [isDigit_ascii hc, digitValue_ascii hc, Bool.true_and, decide_eq_true_eq] at hgo
      rw [digitValue_ascii hc, Nat.ofDigitChars_cons]
      exact ih hcs hgo (count + 1)
    · refine ⟨n, count, (c :: cs).map ascii, rfl, fun b hb => ?_, nofun⟩
      obtain ⟨d, hd', rfl⟩ := List.mem_map.1 hb
      exact isDigit_ascii (hd d hd')

/-- No number but zero begins with a zero. -/
theorem toDigits_ne_zero_cons {n : Nat} (h : 0 < n) (cs : List Char) :
    Nat.toDigits 10 n ≠ '0' :: cs := by
  induction n using Nat.strongRecOn generalizing cs with
  | ind n ih =>
    by_cases hn : n < 10
    · rw [Nat.toDigits_of_lt_base hn]
      intro heq
      have hdigit : n.digitChar = '0' := (List.cons.inj heq).1
      revert hdigit
      interval_cases n <;> decide
    · rw [Nat.toDigits_of_base_le (by decide) (by omega)]
      intro heq
      cases hfront : Nat.toDigits 10 (n / 10) with
      | nil => exact Nat.toDigits_ne_nil hfront
      | cons d ds =>
        rw [hfront, List.cons_append] at heq
        exact ih (n / 10) (by omega) (by omega) ds (by rw [hfront, (List.cons.inj heq).1])

theorem writeNatural_cons (n : Nat) :
    ∃ (c : Char) (cs : List Char), Nat.toDigits 10 n = c :: cs ∧ (∀ d ∈ c :: cs, d.isDigit = true) ∧
      writeNatural n = ascii c :: cs.map ascii := by
  cases h : Nat.toDigits 10 n with
  | nil => exact absurd h Nat.toDigits_ne_nil
  | cons c cs =>
    refine ⟨c, cs, rfl, fun d hd => ?_, by rw [writeNatural, h, List.map_cons]⟩
    exact Nat.isDigit_of_mem_toDigits (by decide) (by decide) (h ▸ hd)

/-- A zero at the front is all there is. -/
theorem not_zero_and_more {n : Nat} {c : Char} {cs : List Char} (hcs : Nat.toDigits 10 n = c :: cs)
    (hc : c.isDigit = true) {rest : Bytes} (hrest : startsWith isDigit rest = false) :
    (ascii c = ascii '0' && startsWith isDigit (cs.map ascii ++ rest)) = false := by
  by_cases h0 : ascii c = ascii '0'
  · obtain rfl := ascii_inj hc (by decide) h0
    obtain rfl : n = 0 := by
      by_contra hpos
      exact toDigits_ne_zero_cons (Nat.pos_of_ne_zero hpos) cs hcs
    rw [Nat.toDigits_zero] at hcs
    obtain rfl := (List.cons.inj hcs).2
    simpa using hrest
  · simp [h0]

theorem split_digits {digits rest : Bytes} (hd : ∀ b ∈ digits, isDigit b = true)
    (hrest : startsWith isDigit rest = false) :
    (digits ++ rest).takeWhile isDigit = digits ∧ (digits ++ rest).dropWhile isDigit = rest := by
  rw [List.takeWhile_append_of_pos hd, List.dropWhile_append_of_pos hd]
  cases rest with
  | nil => simp
  | cons b rest =>
    have hb : isDigit b = false := hrest
    simp [hb]

/-- A number after its sign. What comes after its first digits decides what kind it is. -/
theorem readNumeral_natural (minus : Bool) (n : Nat) {rest : Bytes}
    (hrest : startsWith isDigit rest = false) :
    ∃ m more, readNumeral minus (writeNatural n ++ rest) =
      if startsWith isPoint rest then readFraction minus m more (rest.drop 1)
      else if startsWith isExponentMark rest then readExponent minus m more (rest.drop 1)
      else if n < Nat.pow 2 64 then integer minus n rest else real minus m more rest := by
  obtain ⟨c, cs, hcs, hd, hwritten⟩ := writeNatural_cons n
  have hvalue : Nat.ofDigitChars 10 (c :: cs) 0 = n := by
    rw [← hcs, Nat.ofDigitChars_ten_toDigits]
  have hfirst : isDigit (ascii c) = true := isDigit_ascii (hd c List.mem_cons_self)
  have hzero := not_zero_and_more hcs (hd c List.mem_cons_self) hrest
  obtain ⟨m, k, left, hgather, hleft, hfits⟩ : ∃ m k left,
      gather 0 0 (ascii c :: (cs.map ascii ++ rest)) = (m, k, left ++ rest) ∧
        (∀ b ∈ left, isDigit b = true) ∧ (n < Nat.pow 2 64 ∧ m = n ∧ left = [] ∨
          ¬n < Nat.pow 2 64 ∧ left.isEmpty = false) := by
    by_cases hn : n < Nat.pow 2 64
    · refine ⟨n, 0 + (c :: cs).length, [], ?_, nofun, .inl ⟨hn, rfl, rfl⟩⟩
      have h := gather_digits hd (n := 0) (by rwa [hvalue]) 0 hrest
      rwa [hvalue] at h
    · obtain ⟨m, k, left, hgather, hleft, hall⟩ := gather_cases hd (n := 0) (by decide) 0 hrest
      refine ⟨m, k, left, hgather, hleft, .inr ⟨hn, ?_⟩⟩
      rw [List.isEmpty_eq_false_iff]
      exact fun hnil => hn (hvalue ▸ hall hnil)
  obtain ⟨htake, hdrop⟩ := split_digits hleft hrest
  refine ⟨m, left.length, ?_⟩
  rw [hwritten, List.cons_append, readNumeral]
  simp only [hfirst, hzero, hgather, htake, hdrop, Bool.not_true, Bool.false_eq_true, if_false]
  rcases hfits with ⟨hn, rfl, rfl⟩ | ⟨hn, hmore⟩
  · simp only [hn, List.isEmpty_nil, if_true]
  · simp only [hn, hmore, Bool.false_eq_true, if_false]

theorem readNumeral_written (minus : Bool) {n : Nat} (hn : n < Nat.pow 2 64) {rest : Bytes}
    (hrest : Stops rest) :
    readNumeral minus (writeNatural n ++ rest) = integer minus n rest := by
  obtain ⟨hdigit, hpoint, hmark⟩ := hrest.each
  obtain ⟨m, more, hread⟩ := readNumeral_natural minus n hdigit
  rw [hread]
  simp only [hpoint, hmark, Bool.false_eq_true, if_false, hn, if_true]

/-- A value that is refused is never taken for another one. -/
theorem refuse_ne_ok {α : Type} (expected : Expected) (s : Bytes) (a : α) :
    (refuse expected s : Except Error α) ≠ .ok a := by
  have hbind {β : Type} (x : Except Error β) (found : β → Found) :
      (x.bind fun b => (refused expected (found b) : Except Error α)) ≠ .ok a := by
    cases x <;> exact nofun
  unfold refuse
  split
  · exact nofun
  · dsimp only
    split_ifs
    any_goals exact hbind _ _
    all_goals exact nofun

theorem toOption_refuse {α : Type} (expected : Expected) (s : Bytes) :
    (refuse expected s : Except Error α).toOption = none := by
  cases h : (refuse expected s : Except Error α) with
  | error e => rfl
  | ok a => exact absurd h (refuse_ne_ok expected s a)

theorem dropBlank_cons {b : UInt8} (h : isBlank b = false) (s : Bytes) :
    dropBlank (b :: s) = b :: s := by
  rw [dropBlank, List.dropWhile_cons_of_neg (by simp [h])]

theorem not_isBlank_of_isDigit {b : UInt8} (h : isDigit b = true) : isBlank b = false := by
  rw [Bool.eq_false_iff]
  intro hb
  simp only [isBlank, Bool.or_eq_true, decide_eq_true_eq] at hb
  obtain ((rfl | rfl) | rfl) | rfl := hb <;> exact absurd h (by decide)

theorem readNumber_natural (expected : Expected) {n : Nat} (hn : n < Nat.pow 2 64) {rest : Bytes}
    (hrest : Stops rest) :
    readNumber expected (writeNatural n ++ rest) = .ok (.natural n, rest) := by
  have h := readNumeral_written false hn hrest
  obtain ⟨c, cs, -, hd, hwritten⟩ := writeNatural_cons n
  have hfirst : isDigit (ascii c) = true := isDigit_ascii (hd c List.mem_cons_self)
  have hminus : ascii c ≠ ascii '-' := by
    intro heq
    rw [heq] at hfirst
    exact absurd hfirst (by decide)
  rw [hwritten, List.cons_append] at h ⊢
  rw [readNumber, dropBlank_cons (not_isBlank_of_isDigit hfirst)]
  simp only [if_neg hminus, hfirst, if_true, h, integer, Bool.not_false]

theorem readNumber_negative (expected : Expected) {n : Nat} (hpos : 0 < n) (hn : n ≤ Nat.pow 2 63)
    {rest : Bytes} (hrest : Stops rest) :
    readNumber expected (ascii '-' :: writeNatural n ++ rest) = .ok (.negative n, rest) := by
  have hfits : n < Nat.pow 2 64 := Nat.lt_of_le_of_lt hn (by decide)
  rw [List.cons_append, readNumber, dropBlank_cons (by decide)]
  simp only [if_true, readNumeral_written true hfits hrest, integer, Bool.not_true,
    Bool.false_eq_true, if_false, hpos, hn, decide_true, Bool.and_self]

theorem readUnsigned_written (id : UInt64) {rest : Bytes} (hrest : Stops rest) :
    readUnsigned (writeNatural id.toNat ++ rest) = .ok (id, rest) := by
  rw [readUnsigned, readNumber_natural .unsigned id.toNat_lt hrest]
  simp only [UInt64.ofNat_toNat]

theorem readSigned_written (second : Int64) {rest : Bytes} (hrest : Stops rest) :
    readSigned (writeInteger second.toInt ++ rest) = .ok (second, rest) := by
  have hlow := second.le_toInt
  have hhigh := second.toInt_lt
  have hpow : Nat.pow 2 63 = 9223372036854775808 := by decide
  rw [writeInteger, readSigned]
  split_ifs with hneg
  · rw [readNumber_negative .signed (by omega) (by omega) hrest]
    have : -(second.toInt.natAbs : Int) = second.toInt := by omega
    simp only [this, Int64.ofInt_toInt]
  · rw [readNumber_natural .signed (Nat.lt_trans (m := Nat.pow 2 63) (by omega) (by decide)) hrest]
    have hfits : second.toInt.natAbs < Nat.pow 2 63 := by omega
    have : (second.toInt.natAbs : Int) = second.toInt := by omega
    simp only [hfits, if_true, ← Int64.ofInt_eq_ofNat, this, Int64.ofInt_toInt]

end AlertSilences.Json
