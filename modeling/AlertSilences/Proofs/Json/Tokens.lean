import AlertSilences.Proofs.Json.Passing

/-! What a reader takes off the front is spelled in one of the ways there are: white space, words,
texts and numbers. -/

namespace AlertSilences.Json

section Results

variable {ε α β : Type} {x : Except ε α} {b : β}

theorem exists_of_bind_eq_ok {f : α → Except ε β} (h : x >>= f = .ok b) :
    ∃ a, x = .ok a ∧ f a = .ok b := by
  cases x with
  | error e => cases h
  | ok a => exact ⟨a, rfl, h⟩

theorem exists_of_map_eq_ok {f : α → β} (h : x.map f = .ok b) : ∃ a, x = .ok a ∧ f a = b := by
  cases x with
  | error e => cases h
  | ok a =>
    cases h
    exact ⟨a, rfl, rfl⟩

end Results

section Bytes

/-- A fact about bytes is known from all of them. -/
theorem forall_byte {p : UInt8 → Prop} (h : ∀ n < 256, p (UInt8.ofNat n)) (b : UInt8) : p b := by
  have hb := h b.toNat b.toNat_lt
  rwa [UInt8.ofNat_toNat] at hb

theorem exists_blank (s : Bytes) : ∃ blank, Blank blank ∧ s = blank ++ dropBlank s := by
  refine ⟨s.takeWhile isBlank, fun b hb => ?_, List.takeWhile_append_dropWhile.symm⟩
  have hall := forall_byte (p := fun b => isBlank b = true →
    b ∈ [ascii ' ', ascii '\t', ascii '\n', ascii '\r']) (by decide +kernel)
  exact hall b (List.all_eq_true.1 List.all_takeWhile b hb)

theorem eq_append_of_readWord {word s rest : Bytes} (h : readWord word s = .ok rest) :
    s = word ++ rest := by
  induction word generalizing s with
  | nil =>
    cases h
    rfl
  | cons w word ih =>
    cases s with
    | nil => cases h
    | cons b s =>
      rw [readWord] at h
      split_ifs at h with hb
      rw [hb, ih h, List.cons_append]

end Bytes

section Texts

theorem exists_hexDigit {b : UInt8} {v : Nat} (h : hexValue? b = some v) :
    ∃ d : HexDigit, d.byte = b ∧ d.value = v := by
  have hall := forall_byte (p := fun b => (hexValue? b).all fun v => (b, v) ∈ hexDigits)
    (by decide +kernel) b
  rw [h] at hall
  exact ⟨⟨b, v, of_decide_eq_true hall⟩, rfl, rfl⟩

theorem exists_codeUnit {h₁ h₂ h₃ h₄ : UInt8} {n : Nat} (h : hexValues? h₁ h₂ h₃ h₄ = some n) :
    ∃ u : CodeUnit, u.h₁.byte = h₁ ∧ u.h₂.byte = h₂ ∧ u.h₃.byte = h₃ ∧ u.h₄.byte = h₄ := by
  simp only [hexValues?, Option.bind_eq_bind, Option.bind_eq_some_iff] at h
  obtain ⟨_, hv₁, _, hv₂, _, hv₃, _, hv₄, -⟩ := h
  obtain ⟨d₁, hd₁, -⟩ := exists_hexDigit hv₁
  obtain ⟨d₂, hd₂, -⟩ := exists_hexDigit hv₂
  obtain ⟨d₃, hd₃, -⟩ := exists_hexDigit hv₃
  obtain ⟨d₄, hd₄, -⟩ := exists_hexDigit hv₄
  exact ⟨⟨d₁, d₂, d₃, d₄⟩, hd₁, hd₂, hd₃, hd₄⟩

theorem mem_letters {e b : UInt8} (h : letterEscape? e = some b) : (e, b) ∈ letters := by
  have hall := forall_byte (p := fun e => (letterEscape? e).all fun b => (e, b) ∈ letters)
    (by decide +kernel) e
  rw [h] at hall
  exact of_decide_eq_true hall

/-- What is passed over as a text is pieces up to a quote. -/
theorem exists_pieces {s rest : Bytes} (h : skipText s = .ok rest) :
    ∃ pieces : List Piece, s = pieces.flatMap Piece.bytes ++ quote :: rest := by
  fun_induction skipText s
  case case2 =>
    cases h
    exact ⟨[], rfl⟩
  case case5 _ _ _ _ _ _ hvalues _ ih =>
    obtain ⟨u, rfl, rfl, rfl, rfl⟩ := exists_codeUnit hvalues
    obtain ⟨pieces, rfl⟩ := ih h
    exact ⟨.unit u :: pieces, by simp [Piece.bytes]⟩
  case case7 _ hletter _ ih =>
    obtain ⟨pieces, rfl⟩ := ih h
    exact ⟨.letter _ _ (mem_letters hletter) :: pieces, by simp [Piece.bytes]⟩
  case case10 hquote hbackslash hcontrol ih =>
    obtain ⟨pieces, rfl⟩ := ih h
    exact ⟨.plain _ ⟨UInt8.not_lt.1 hcontrol, hquote, hbackslash⟩ :: pieces, by simp [Piece.bytes]⟩
  all_goals cases h

/-- What is read as a text can be passed over as well. -/
theorem skipText_of_readBytes {acc s bytes rest : Bytes}
    (h : readBytes acc s = .ok (bytes, rest)) : skipText s = .ok rest := by
  fun_induction readBytes acc s
  case case2 =>
    cases h
    exact skipText_quote _
  case case11 _ _ _ _ _ hlead _ _ _ hb _ hu _ _ _ _ _ _ htrail _ _ ih =>
    obtain rfl := not_not.1 hb
    obtain rfl := not_not.1 hu
    rw [skipText_unit hlead, skipText_unit htrail, ih h]
  case case14 _ _ _ _ _ _ hvalues _ _ _ ih => rw [skipText_unit hvalues, ih h]
  case case16 hu _ hletter _ ih => rw [skipText_letter hu hletter, ih h]
  case case19 hquote hbackslash hcontrol ih =>
    rw [skipText_plain hquote hbackslash hcontrol, ih h]
  all_goals cases h

theorem exists_pieces_of_readText {s rest : Bytes} {text : String}
    (h : readText s = .ok (text, rest)) :
    ∃ pieces : List Piece, s = pieces.flatMap Piece.bytes ++ quote :: rest := by
  rw [readText] at h
  split at h
  · cases h
  · next hread =>
    split at h
    · cases h
      exact exists_pieces (skipText_of_readBytes hread)
    · cases h

end Texts

section Numbers

theorem digits_of_isDigit {digits : Bytes} (hne : digits ≠ [])
    (hd : ∀ b ∈ digits, isDigit b = true) : Digits digits := by
  have hall := forall_byte (p := fun b => isDigit b = true →
    (Char.ofNat b.toNat).isDigit = true ∧ ascii (Char.ofNat b.toNat) = b) (by decide +kernel)
  refine ⟨digits.map fun b => Char.ofNat b.toNat, by simpa using hne, ?_, ?_⟩
  · intro c hc
    obtain ⟨b, hb, rfl⟩ := List.mem_map.1 hc
    exact (hall b (hd b hb)).1
  · rw [List.map_map]
    exact (List.map_id' digits).symm.trans
      (List.map_congr_left fun b hb => (hall b (hd b hb)).2.symm)

theorem exists_digitChar {c : Char} (h : c.isDigit = true) : ∃ v < 10, v.digitChar = c := by
  have hc := (toNat_ascii h).2
  have hall : ∀ v < 10, v.digitChar.toNat = v + 48 := by decide
  refine ⟨c.toNat - 48, by omega, Char.toNat_inj.1 ?_⟩
  rw [hall _ (by omega)]
  omega

/-- Digits go on with the number before them. -/
theorem exists_toDigits_append {cs : List Char} (hd : ∀ c ∈ cs, c.isDigit = true) {m : Nat}
    (hm : 0 < m) : ∃ n, Nat.toDigits 10 n = Nat.toDigits 10 m ++ cs := by
  induction cs generalizing m with
  | nil => exact ⟨m, (List.append_nil _).symm⟩
  | cons c cs ih =>
    obtain ⟨hc, hcs⟩ := List.forall_mem_cons.1 hd
    obtain ⟨v, hv, rfl⟩ := exists_digitChar hc
    obtain ⟨n, hn⟩ := ih hcs (m := 10 * m + v) (by omega)
    refine ⟨n, ?_⟩
    rw [hn, ← Nat.toDigits_append_toDigits (by decide) hm hv, Nat.toDigits_of_lt_base hv,
      List.append_assoc, List.cons_append, List.nil_append]

/-- Digits are those of a number, unless there are more of them behind a zero. -/
theorem exists_toDigits {c : Char} {cs : List Char} (hd : ∀ d ∈ c :: cs, d.isDigit = true)
    (hzero : c = '0' → cs = []) : ∃ n, Nat.toDigits 10 n = c :: cs := by
  obtain ⟨hc, hcs⟩ := List.forall_mem_cons.1 hd
  obtain ⟨v, hv, rfl⟩ := exists_digitChar hc
  cases v with
  | zero => exact ⟨0, by rw [hzero rfl, Nat.toDigits_zero]; rfl⟩
  | succ v =>
    obtain ⟨n, hn⟩ := exists_toDigits_append hcs (Nat.succ_pos v)
    exact ⟨n, by rw [hn, Nat.toDigits_of_lt_base hv, List.cons_append, List.nil_append]⟩

/-- A number that begins with a digit, up to where its digits end. -/
theorem exists_natural {b : UInt8} {s : Bytes} (hb : isDigit b = true)
    (hzero : (b = ascii '0' && startsWith isDigit s) = false) :
    ∃ n, b :: s = writeNatural n ++ s.dropWhile isDigit := by
  obtain ⟨cs, hne, hcs, hdigits⟩ := @digits_of_isDigit (b :: s.takeWhile isDigit) nofun fun d hd =>
    (List.mem_cons.1 hd).elim (fun h => h ▸ hb) (List.all_eq_true.1 List.all_takeWhile d)
  obtain ⟨c, cs, rfl⟩ := List.exists_cons_of_ne_nil hne
  obtain ⟨rfl, hmore⟩ := List.cons.inj hdigits
  obtain ⟨n, hn⟩ := exists_toDigits hcs fun h => by
    subst h
    have hs : startsWith isDigit s = false := by simpa using hzero
    cases s with
    | nil => exact List.map_eq_nil_iff.1 hmore.symm
    | cons d s =>
      rw [List.takeWhile_cons_of_neg (by rw [show isDigit d = false from hs]; decide)] at hmore
      exact List.map_eq_nil_iff.1 hmore.symm
  refine ⟨n, ?_⟩
  rw [writeNatural, hn, ← hdigits, List.cons_append, List.takeWhile_append_dropWhile]

theorem startsWith_dropWhile {p : UInt8 → Bool} (s : Bytes) :
    startsWith p (s.dropWhile p) = false := by
  induction s with
  | nil => rfl
  | cons b s ih =>
    rw [List.dropWhile_cons]
    split_ifs with hb
    · exact ih
    · exact Bool.eq_false_iff.2 hb

theorem exists_digits {s : Bytes} (h : startsWith isDigit s = true) :
    ∃ digits, Digits digits ∧ s = digits ++ s.dropWhile isDigit := by
  refine ⟨s.takeWhile isDigit, digits_of_isDigit ?_ fun b hb =>
    List.all_eq_true.1 List.all_takeWhile b hb, List.takeWhile_append_dropWhile.symm⟩
  cases s with
  | nil => cases h
  | cons b s =>
    rw [List.takeWhile_cons_of_pos (show isDigit b = true from h)]
    exact List.cons_ne_nil _ _

theorem exists_cons_of_startsWith {p : UInt8 → Bool} {s : Bytes} (h : startsWith p s = true) :
    ∃ b more, s = b :: more ∧ p b = true := by
  cases s with
  | nil => cases h
  | cons b more => exact ⟨b, more, rfl, h⟩

/-- What is passed over behind the mark of an exponent. -/
theorem exists_exponent {mark : UInt8} (hmark : isMark mark = true) {s rest : Bytes}
    (h : skipExponent s = .ok rest) :
    ∃ exponent, Exponent exponent ∧ mark :: s = exponent ++ rest := by
  have hdigits (sign : Bytes) {left : Bytes} (hsign : sign ∈ [[], [ascii '+'], [ascii '-']])
      (h : (if startsWith isDigit left then .ok (left.dropWhile isDigit)
        else .error .badNumber : Except Error Bytes) = .ok rest) :
      ∃ exponent, Exponent exponent ∧ mark :: (sign ++ left) = exponent ++ rest := by
    split_ifs at h with hdigit
    cases h
    obtain ⟨digits, hd, hleft⟩ := exists_digits hdigit
    refine ⟨mark :: (sign ++ digits),
      .inr ⟨mark, sign, digits, by simpa [isMark] using hmark, hsign, hd, rfl⟩, ?_⟩
    rw [List.cons_append, List.append_assoc, ← hleft]
  rw [skipExponent] at h
  by_cases hsign : startsWith (fun b => b = ascii '+' || b = ascii '-') s
  · obtain ⟨sign, left, rfl, hs⟩ := exists_cons_of_startsWith hsign
    rw [if_pos hsign] at h
    exact hdigits [sign] (by simpa using hs) h
  · rw [if_neg hsign] at h
    exact hdigits [] (by decide) h

/-- What is passed over behind the digits of a number. -/
theorem exists_tail {s rest : Bytes}
    (h : (if startsWith isMark s then skipExponent (s.drop 1) else .ok s) = .ok rest) :
    ∃ exponent, Exponent exponent ∧ s = exponent ++ rest := by
  split_ifs at h with hmark
  · obtain ⟨mark, more, rfl, hmark⟩ := exists_cons_of_startsWith hmark
    exact exists_exponent hmark h
  · cases h
    exact ⟨[], .inl rfl, rfl⟩

/-- What is passed over as a number behind its sign. -/
theorem exists_numeral {s rest : Bytes} (h : skipNumeral s = .ok rest) :
    ∃ n fraction exponent, Fraction fraction ∧ Exponent exponent ∧
      s = writeNatural n ++ (fraction ++ (exponent ++ rest)) := by
  cases s with
  | nil => cases h
  | cons b s =>
    rw [skipNumeral] at h
    split_ifs at h with hdigit hzero
    obtain ⟨n, hn⟩ := exists_natural (by simpa using hdigit) (Bool.eq_false_iff.2 hzero)
    refine ⟨n, ?_⟩
    rw [hn]
    dsimp only at h
    generalize s.dropWhile isDigit = left at h
    by_cases hpoint : startsWith (· = ascii '.') left
    · rw [if_pos hpoint] at h
      obtain ⟨point, left, rfl, hp⟩ := exists_cons_of_startsWith hpoint
      obtain rfl : point = ascii '.' := of_decide_eq_true hp
      rw [List.drop_one, List.tail_cons, skipFraction] at h
      split_ifs at h with hdigits
      obtain ⟨digits, hd, hleft⟩ := exists_digits hdigits
      obtain ⟨exponent, hexponent, hmore⟩ := exists_tail h
      refine ⟨ascii '.' :: digits, exponent, .inr ⟨digits, hd, rfl⟩, hexponent, ?_⟩
      rw [← hmore, List.cons_append, ← hleft]
    · rw [if_neg hpoint] at h
      obtain ⟨exponent, hexponent, hmore⟩ := exists_tail h
      exact ⟨[], exponent, .inl rfl, hexponent, by rw [hmore, List.nil_append]⟩

/-- Any number that is spelled is an integer or a real one. -/
theorem spells_numeral (minus : Bool) (n : Nat) {fraction exponent : Bytes}
    (hfraction : Fraction fraction) (hexponent : Exponent exponent) :
    ∃ t, Spells t ((if minus then [ascii '-'] else []) ++
      (writeNatural n ++ (fraction ++ exponent))) := by
  by_cases hreal : fraction ≠ [] ∨ exponent ≠ [] ∨ minus = true ∧ n = 0
  · exact ⟨.real, .real ⟨minus, n, fraction, exponent, hfraction, hexponent, hreal⟩⟩
  · obtain ⟨rfl, rfl, hsign⟩ : fraction = [] ∧ exponent = [] ∧ ¬(minus = true ∧ n = 0) := by
      simpa only [not_or, not_not] using hreal
    refine ⟨.integer (if minus then -(n : Int) else n), ?_⟩
    convert Spells.integer _ using 1
    cases minus with
    | false => simp [writeInteger]
    | true =>
      have hn : n ≠ 0 := fun h => hsign ⟨rfl, h⟩
      simp [writeInteger, Nat.pos_of_ne_zero hn]

/-- What is read as an integer is digits and nothing else behind its sign. -/
theorem eq_append_of_readNumeral {minus : Bool} {s rest : Bytes} {numeral : Numeral}
    (h : readNumeral minus s = .ok (numeral, rest))
    (hreal : ∀ minus size, numeral ≠ .real minus size) :
    ∃ n, s = writeNatural n ++ rest := by
  have hnot {read : Except Error (Numeral × Bytes)} (honly : OnlyReal read)
      (h : read = .ok (numeral, rest)) : False := by
    obtain ⟨minus, size, heq⟩ := honly _ _ h
    exact hreal minus size heq
  cases s with
  | nil => cases h
  | cons b s =>
    have hfirst := h
    rw [readNumeral] at hfirst
    split_ifs at hfirst with hdigit hzero
    obtain ⟨n, hn⟩ := exists_natural (by simpa using hdigit) (Bool.eq_false_iff.2 hzero)
    obtain ⟨m, more, hread⟩ := readNumeral_natural minus n (startsWith_dropWhile s)
    rw [hn, hread] at h
    refine ⟨n, ?_⟩
    rw [hn]
    generalize s.dropWhile isDigit = left at h
    split_ifs at h
    · exact (hnot (onlyReal_readFraction _ _ _ _) h).elim
    · exact (hnot (onlyReal_readExponent _ _ _ _) h).elim
    · rw [integer] at h
      split_ifs at h
      · cases h
        rfl
      · cases h
        rfl
      · exact (hnot (onlyReal_real _ _ _ _) h).elim
    · exact (hnot (onlyReal_real _ _ _ _) h).elim

end Numbers

end AlertSilences.Json
