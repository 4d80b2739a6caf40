import AlertSilences.Proofs.Json.Grammar
import AlertSilences.Proofs.Json.Shape

/-! Values of all kinds are read in whatever way they are spelled. What a text or a number stands
for is what its reader makes of it, and a reader takes a value of its own kind only. -/

namespace AlertSilences.Json

section Blanks

theorem isBlank_of_mem {s : Bytes} (h : Blank s) {b : UInt8} (hb : b ∈ s) : isBlank b = true := by
  have hall : ∀ b ∈ [ascii ' ', ascii '\t', ascii '\n', ascii '\r'], isBlank b = true :=
    List.all_iff_forall_prop.1 (by decide)
  exact hall b (h b hb)

theorem blank_nil : Blank [] := nofun

theorem dropBlank_append {blank : Bytes} (h : Blank blank) (s : Bytes) :
    dropBlank (blank ++ s) = dropBlank s :=
  List.dropWhile_append_of_pos fun _ hb => isBlank_of_mem h hb

/-- White space ends whatever is before it. -/
theorem Stops.blank {blank : Bytes} (h : Blank blank) {s : Bytes} (hs : Stops s) :
    Stops (blank ++ s) := by
  cases blank with
  | nil => exact hs
  | cons b blank =>
    have hall : ∀ b ∈ [ascii ' ', ascii '\t', ascii '\n', ascii '\r'],
        (isDigit b || isPoint b || isExponentMark b) = false :=
      List.all_iff_forall_prop.1 (by decide)
    exact Stops.cons (hall b (h b List.mem_cons_self)) _

end Blanks

section Texts

@[simp] theorem HexDigit.hexValue?_byte (d : HexDigit) : hexValue? d.byte = some d.value := by
  have hall : ∀ p ∈ hexDigits, hexValue? p.1 = some p.2 := List.all_iff_forall_prop.1 (by decide)
  exact hall _ d.mem

@[simp] theorem CodeUnit.hexValues?_bytes (u : CodeUnit) :
    hexValues? u.h₁.byte u.h₂.byte u.h₃.byte u.h₄.byte = some u.value := by
  simp [hexValues?, value]

theorem letterEscape?_of_mem {e b : UInt8} (h : (e, b) ∈ letters) :
    letterEscape? e = some b ∧ e ≠ ascii 'u' := by
  have hall : ∀ p ∈ letters, letterEscape? p.1 = some p.2 ∧ p.1 ≠ ascii 'u' :=
    List.all_iff_forall_prop.1 (by decide)
  exact hall _ h

theorem pushPoint_eq (n : Nat) (acc : Bytes) :
    pushPoint n acc = (encoded n).reverse ++ acc := rfl

theorem joined_eq (lead trail : Nat) :
    joined lead trail = 0x10000 + (lead - 0xd800) * 0x400 + (trail - 0xdc00) := rfl

/-- Two code units that are a pair of surrogates. -/
theorem readBytes_pair {u v : CodeUnit} (hu : 0xd800 ≤ u.value ∧ u.value ≤ 0xdbff)
    (hv : 0xdc00 ≤ v.value ∧ v.value ≤ 0xdfff) (acc s : Bytes) :
    readBytes acc ((Piece.unit u).bytes ++ ((Piece.unit v).bytes ++ s)) =
      readBytes (pushPoint (joined u.value v.value) acc) s := by
  have hq : backslash ≠ quote := by decide
  have hno : isTrailing u.value = false := by simp [isTrailing]; omega
  have hlead : isLeading u.value = true := by simpa [isLeading] using hu
  have htrail : isTrailing v.value = true := by simpa [isTrailing] using hv
  simp only [Piece.bytes, List.cons_append, List.nil_append]
  rw [readBytes.eq_def]
  simp only [if_neg hq, if_true, CodeUnit.hexValues?_bytes, hno, hlead, htrail, ne_eq,
    not_true_eq_false, Bool.false_eq_true, if_false]

/-- A surrogate before something that does not make a pair with it. -/
theorem readBytes_lone {u : CodeUnit} (hu : ¬(u.value < 0xd800 ∨ 0xdfff < u.value))
    {pieces : List Piece}
    (hpair : ∀ v more, pieces = .unit v :: more →
      ¬(u.value ≤ 0xdbff ∧ 0xdc00 ≤ v.value ∧ v.value ≤ 0xdfff))
    (acc rest : Bytes) :
    (readBytes acc ((Piece.unit u).bytes ++
      (pieces.flatMap Piece.bytes ++ quote :: rest))).toOption = none := by
  have hq : backslash ≠ quote := by decide
  simp only [Piece.bytes, List.cons_append, List.nil_append]
  rw [readBytes.eq_def]
  simp only [if_neg hq, if_true, CodeUnit.hexValues?_bytes]
  cases hno : isTrailing u.value with
  | true => rfl
  | false =>
    have hlead : isLeading u.value = true := by
      simp [isTrailing] at hno
      simp [isLeading]
      omega
    simp only [hlead, if_true, Bool.false_eq_true, if_false]
    cases pieces with
    | nil => rfl
    | cons piece more =>
      cases piece with
      | plain b h => simp [Piece.bytes, h.2.2, Except.toOption]
      | letter e b h => simp [Piece.bytes, (letterEscape?_of_mem h).2, Except.toOption]
      | unit v =>
        have htrail : isTrailing v.value = false := by
          have := hpair v more rfl
          simp [isLeading] at hlead
          simp [isTrailing]
          omega
        simp [Piece.bytes, htrail, Except.toOption]

theorem readBytes_pieces (pieces : List Piece) (acc rest : Bytes) :
    (readBytes acc (pieces.flatMap Piece.bytes ++ quote :: rest)).toOption =
      (meaning? pieces).map fun bytes => (acc.reverse ++ bytes, rest) := by
  fun_induction meaning? pieces generalizing acc with
  | case1 => simp [Except.toOption]
  | case2 b h more ih =>
    have hb : ¬b < 0x20 := UInt8.not_lt.2 h.1
    rw [List.flatMap_cons, List.append_assoc, Piece.bytes, List.singleton_append,
      readBytes_plain h.2.1 h.2.2 hb, ih, Option.map_map]
    simp [Function.comp_def]
  | case3 e b h more ih =>
    obtain ⟨hletter, hu⟩ := letterEscape?_of_mem h
    rw [List.flatMap_cons, List.append_assoc, Piece.bytes, List.cons_append, List.singleton_append,
      readBytes_letter hu hletter, ih, Option.map_map]
    simp [Function.comp_def]
  | case4 u more hu ih =>
    rw [List.flatMap_cons, List.append_assoc]
    simp only [Piece.bytes, List.cons_append, List.nil_append]
    rw [readBytes_point u.hexValues?_bytes hu, pushPoint_eq, ih, Option.map_map]
    simp [Function.comp_def]
  | case5 u hu v more hpair ih =>
    have hread := readBytes_pair ⟨by omega, hpair.1⟩ hpair.2 acc
      (more.flatMap Piece.bytes ++ quote :: rest)
    rw [List.flatMap_cons, List.flatMap_cons, List.append_assoc, List.append_assoc, hread, ih,
      pushPoint_eq, joined_eq, Option.map_map]
    simp only [Function.comp_def, List.reverse_append, List.reverse_reverse, List.append_assoc]
  | case6 u hu v more hpair =>
    rw [List.flatMap_cons, List.append_assoc]
    refine readBytes_lone hu (fun w _ heq => ?_) acc rest
    cases heq
    exact hpair
  | case7 u more hu hother =>
    rw [List.flatMap_cons, List.append_assoc]
    exact readBytes_lone hu (fun _ _ heq => absurd heq (hother _ _)) acc rest

/-- A text in whatever way it is spelled. -/
theorem readText_pieces (pieces : List Piece) (rest : Bytes) :
    (readText (pieces.flatMap Piece.bytes ++ quote :: rest)).toOption =
      (text? pieces).map (·, rest) := by
  have h := readBytes_pieces pieces [] rest
  rw [readText, text?]
  cases hread : readBytes [] (pieces.flatMap Piece.bytes ++ quote :: rest) with
  | error e =>
    rw [hread] at h
    rw [Option.map_eq_none_iff.1 h.symm]
    rfl
  | ok result =>
    rw [hread] at h
    obtain ⟨bytes, hmeaning, rfl⟩ := Option.map_eq_some_iff.1 h.symm
    rw [hmeaning]
    dsimp only [List.reverse_nil, List.nil_append, Option.bind_some]
    cases Text.ofBytes? bytes <;> rfl

@[simp] theorem skipText_quote (s : Bytes) : skipText (quote :: s) = .ok s := by
  rw [skipText.eq_def]
  rfl

theorem skipText_plain {b : UInt8} (hquote : b ≠ quote) (hbackslash : b ≠ backslash)
    (hcontrol : ¬b < 0x20) (s : Bytes) : skipText (b :: s) = skipText s := by
  rw [skipText.eq_def]
  simp only [if_neg hquote, if_neg hbackslash, if_neg hcontrol]

theorem skipText_letter {e b : UInt8} (hu : e ≠ ascii 'u') (h : letterEscape? e = some b)
    (s : Bytes) : skipText (backslash :: e :: s) = skipText s := by
  have hquote : backslash ≠ quote := by decide
  rw [skipText.eq_def]
  simp only [if_neg hquote, if_true, if_neg hu, h]

theorem skipText_unit {h₁ h₂ h₃ h₄ : UInt8} {n : Nat} (h : hexValues? h₁ h₂ h₃ h₄ = some n)
    (s : Bytes) :
    skipText (backslash :: ascii 'u' :: h₁ :: h₂ :: h₃ :: h₄ :: s) = skipText s := by
  have hquote : backslash ≠ quote := by decide
  rw [skipText.eq_def]
  simp only [if_neg hquote, if_true, h]

/-- A text that is passed over may stand for nothing. -/
theorem skipText_pieces (pieces : List Piece) (rest : Bytes) :
    skipText (pieces.flatMap Piece.bytes ++ quote :: rest) = .ok rest := by
  induction pieces with
  | nil => exact skipText_quote rest
  | cons piece more ih =>
    rw [List.flatMap_cons, List.append_assoc]
    cases piece with
    | plain b h =>
      rw [Piece.bytes, List.singleton_append,
        skipText_plain h.2.1 h.2.2 (UInt8.not_lt.2 h.1), ih]
    | letter e b h =>
      obtain ⟨hletter, hu⟩ := letterEscape?_of_mem h
      rw [Piece.bytes, List.cons_append, List.singleton_append, skipText_letter hu hletter, ih]
    | unit u =>
      simp only [Piece.bytes, List.cons_append, List.nil_append]
      rw [skipText_unit u.hexValues?_bytes, ih]

end Texts

section Numbers

def OnlyReal (read : Except Error (Numeral × Bytes)) : Prop :=
  ∀ numeral rest, read = .ok (numeral, rest) → ∃ minus size, numeral = .real minus size

theorem onlyReal_error (e : Error) : OnlyReal (.error e) := nofun

theorem onlyReal_real (minus : Bool) (n : Nat) (exponent : Int) (rest : Bytes) :
    OnlyReal (real minus n exponent rest) := by
  unfold real
  split
  · rintro _ _ ⟨⟩
    exact ⟨_, _, rfl⟩
  · exact onlyReal_error _

theorem onlyReal_readExponent (minus : Bool) (n : Nat) (shift : Int) (s : Bytes) :
    OnlyReal (readExponent minus n shift s) := by
  unfold readExponent
  dsimp only
  split
  · exact onlyReal_error _
  · split
    · split
      · exact onlyReal_real _ _ _ _
      · split
        · exact onlyReal_error _
        · rintro _ _ ⟨⟩
          exact ⟨_, _, rfl⟩
    · exact onlyReal_error _

theorem onlyReal_readTail (minus : Bool) (n : Nat) (shift : Int) (s : Bytes) :
    OnlyReal (readTail minus n shift s) := by
  unfold readTail
  split
  · exact onlyReal_readExponent _ _ _ _
  · exact onlyReal_real _ _ _ _

theorem onlyReal_readFraction (minus : Bool) (n : Nat) (shift : Int) (s : Bytes) :
    OnlyReal (readFraction minus n shift s) := by
  unfold readFraction
  dsimp only
  split
  · exact onlyReal_readTail _ _ _ _
  · split
    · exact onlyReal_error _
    · exact onlyReal_readTail _ _ _ _

/-- A number with a fraction or an exponent, or zero with a sign. -/
theorem onlyReal_of_realNumeral (x : RealNumeral) {rest : Bytes} (hrest : Stops rest) :
    OnlyReal
      (readNumeral x.minus (writeNatural x.whole ++ (x.fraction ++ (x.exponent ++ rest)))) := by
  obtain ⟨minus, whole, fraction, exponent, hfraction, hexponent, hreal⟩ := x
  obtain ⟨hdigit, hpoint, hmark⟩ := hrest.each
  dsimp only at *
  rcases hfraction with rfl | ⟨digits, -, rfl⟩
  · rcases hexponent with rfl | ⟨mark, sign, digits, hmark', -, -, rfl⟩
    · obtain ⟨rfl, rfl⟩ : minus = true ∧ whole = 0 := by simpa using hreal
      have hread := readNumeral_written true (show 0 < Nat.pow 2 64 by decide) hrest
      rw [List.nil_append, List.nil_append, hread]
      exact onlyReal_real true 0 0 rest
    · have hstart : isDigit mark = false ∧ isPoint mark = false ∧ isExponentMark mark = true := by
        have hall : ∀ b ∈ [ascii 'e', ascii 'E'],
            isDigit b = false ∧ isPoint b = false ∧ isExponentMark b = true :=
          List.all_iff_forall_prop.1 (by decide)
        exact hall mark hmark'
      rw [List.nil_append, List.cons_append]
      obtain ⟨m, more, hread⟩ := readNumeral_natural minus whole
        (show startsWith isDigit (mark :: ((sign ++ digits) ++ rest)) = false from hstart.1)
      rw [hread]
      simp only [startsWith, hstart, Bool.false_eq_true, if_false, if_true]
      exact onlyReal_readExponent _ _ _ _
  · rw [List.cons_append]
    have hdot : isDigit (ascii '.') = false ∧ isPoint (ascii '.') = true := by decide
    obtain ⟨m, more, hread⟩ := readNumeral_natural minus whole
      (show startsWith isDigit (ascii '.' :: (digits ++ (exponent ++ rest))) = false from hdot.1)
    rw [hread, if_pos (show startsWith isPoint (ascii '.' :: _) = true from hdot.2)]
    exact onlyReal_readFraction _ _ _ _

end Numbers

section Kinds

variable {t : Tree} {core before rest : Bytes}

/-- The bytes that a value of a kind may begin with. -/
def Tree.Begins (b : UInt8) : Tree → Prop
  | .null => b = ascii 'n'
  | .boolean _ => b = ascii 't' ∨ b = ascii 'f'
  | .integer _ | .real => b = ascii '-' ∨ isDigit b = true
  | .text _ => b = quote
  | .list _ => b = ascii '['
  | .map _ => b = ascii '\x7b'

theorem begins_signed (minus : Bool) (n : Nat) (tail : Bytes) :
    ∃ b more, (if minus then [ascii '-'] else []) ++ (writeNatural n ++ tail) = b :: more ∧
      (b = ascii '-' ∨ isDigit b = true) := by
  cases minus with
  | true => exact ⟨_, _, rfl, .inl rfl⟩
  | false =>
    obtain ⟨c, cs, -, hd, hwritten⟩ := writeNatural_cons n
    rw [hwritten]
    exact ⟨_, _, rfl, .inr (isDigit_ascii (hd c List.mem_cons_self))⟩

theorem writeInteger_eq (n : Int) :
    writeInteger n = (if n < 0 then [ascii '-'] else []) ++ writeNatural n.natAbs := by
  rw [writeInteger]
  split_ifs <;> rfl

theorem Spells.begins (h : Spells t core) : ∃ b more, core = b :: more ∧ t.Begins b := by
  cases h with
  | integer n =>
    obtain ⟨b, more, hcore, hb⟩ := begins_signed (decide (n < 0)) n.natAbs []
    rw [writeInteger_eq]
    exact ⟨b, more, by simpa using hcore, hb⟩
  | real x => exact begins_signed x.minus x.whole (x.fraction ++ x.exponent)
  | isTrue => exact ⟨_, _, rfl, .inl rfl⟩
  | isFalse => exact ⟨_, _, rfl, .inr rfl⟩
  | _ => exact ⟨_, _, rfl, rfl⟩

theorem ne_of_isDigit {b c : UInt8} (h : isDigit b = true) (hc : isDigit c = false) : b ≠ c := by
  rintro rfl
  rw [h] at hc
  cases hc

theorem Tree.Begins.not_blank {b : UInt8} (h : t.Begins b) :
    isBlank b = false ∧ b ≠ ascii ']' ∧ b ≠ ascii '\x7d' := by
  cases t with
  | integer | real =>
    rcases h with rfl | h
    · decide
    · exact ⟨not_isBlank_of_isDigit h, ne_of_isDigit h (by decide), ne_of_isDigit h (by decide)⟩
  | boolean => rcases h with rfl | rfl <;> decide
  | _ => obtain rfl := h; decide

theorem Tree.Begins.ne {b c : UInt8} (h : t.Begins b) (hc : ¬t.Begins c) : b ≠ c := by
  rintro rfl
  exact hc h

/-- White space before a value is dropped, and then the value begins. -/
theorem Spells.dropBlank (h : Spells t core) (hb : Blank before) (rest : Bytes) :
    ∃ b more, t.Begins b ∧ core = b :: more ∧
      dropBlank (before ++ (core ++ rest)) = b :: (more ++ rest) := by
  obtain ⟨b, more, rfl, hbegins⟩ := h.begins
  refine ⟨b, more, hbegins, rfl, ?_⟩
  rw [dropBlank_append hb, List.cons_append, dropBlank_cons hbegins.not_blank.1]

theorem readNumber_signed (expected : Expected) (minus : Bool) (n : Nat) (tail : Bytes)
    (hb : Blank before) :
    readNumber expected (before ++ ((if minus then [ascii '-'] else []) ++
      (writeNatural n ++ tail))) = readNumeral minus (writeNatural n ++ tail) := by
  rw [readNumber, dropBlank_append hb]
  cases minus with
  | true => simp [dropBlank_cons (show isBlank (ascii '-') = false by decide)]
  | false =>
    obtain ⟨c, cs, -, hd, hwritten⟩ := writeNatural_cons n
    have hfirst : isDigit (ascii c) = true := isDigit_ascii (hd c List.mem_cons_self)
    have hminus : ascii c ≠ ascii '-' := ne_of_isDigit hfirst (by decide)
    rw [hwritten]
    simp [dropBlank_cons (not_isBlank_of_isDigit hfirst), hminus, hfirst]

/-- Where a number is expected, only integers are read as such. -/
theorem onlyReal_readNumber (h : Spells t core) (hother : ∀ n, t ≠ .integer n)
    (expected : Expected) (hb : Blank before) (hrest : Stops rest) :
    OnlyReal (readNumber expected (before ++ (core ++ rest))) := by
  obtain ⟨b, more, hbegins, -, hdrop⟩ := h.dropBlank hb rest
  have hrefuse (hminus : b ≠ ascii '-') (hdigit : isDigit b = false) :
      OnlyReal (readNumber expected (before ++ (core ++ rest))) := by
    rw [readNumber, hdrop]
    simp only [if_neg hminus, hdigit, Bool.false_eq_true, if_false]
    exact fun _ _ hread => absurd hread (refuse_ne_ok _ _ _)
  cases t with
  | integer n => exact absurd rfl (hother n)
  | real =>
    cases h with
    | real x =>
      have hread :=
        readNumber_signed expected x.minus x.whole (x.fraction ++ (x.exponent ++ rest)) hb
      rw [RealNumeral.bytes]
      simp only [List.append_assoc]
      rw [hread]
      exact onlyReal_of_realNumeral x hrest
  | boolean => rcases hbegins with rfl | rfl <;> exact hrefuse (by decide) (by decide)
  | _ => obtain rfl := hbegins; exact hrefuse (by decide) (by decide)

/-- An integer that fits into no word is read as a real number. -/
theorem readNumber_integer (n : Int) (expected : Expected) (hb : Blank before)
    (hrest : Stops rest) :
    (0 ≤ n ∧ n < 2 ^ 64 ∧
      readNumber expected (before ++ (writeInteger n ++ rest)) = .ok (.natural n.toNat, rest)) ∨
    (-2 ^ 63 ≤ n ∧ n < 0 ∧
      readNumber expected (before ++ (writeInteger n ++ rest)) = .ok (.negative (-n).toNat, rest)) ∨
    (2 ^ 64 ≤ n ∨ n < -2 ^ 63) ∧
      OnlyReal (readNumber expected (before ++ (writeInteger n ++ rest))) := by
  have hread := readNumber_signed expected (decide (n < 0)) n.natAbs rest hb
  rw [writeInteger_eq, List.append_assoc]
  simp only [decide_eq_true_eq] at hread
  rw [hread]
  have hpow : Nat.pow 2 64 = 2 ^ 64 ∧ Nat.pow 2 63 = 2 ^ 63 := ⟨rfl, rfl⟩
  by_cases hfits : n.natAbs < Nat.pow 2 64
  · rw [readNumeral_written _ hfits hrest, integer]
    by_cases hneg : n < 0
    · by_cases hlow : n.natAbs ≤ Nat.pow 2 63
      · refine .inr (.inl ⟨by omega, hneg, ?_⟩)
        have hpos : 0 < n.natAbs := by omega
        have hvalue : (-n).toNat = n.natAbs := by omega
        simp only [hneg, hpos, hlow, decide_true, Bool.not_true, Bool.false_eq_true, if_false,
          Bool.and_self, if_true, hvalue]
      · refine .inr (.inr ⟨.inr (by omega), ?_⟩)
        simp only [hneg, hlow, decide_true, decide_false, Bool.not_true, Bool.false_eq_true,
          if_false, Bool.and_false]
        exact onlyReal_real _ _ _ _
    · refine .inl ⟨by omega, by omega, ?_⟩
      have hvalue : n.natAbs = n.toNat := by omega
      simp only [hneg, decide_false, Bool.not_false, if_true, hvalue]
  · obtain ⟨hdigit, hpoint, hmark⟩ := hrest.each
    obtain ⟨m, more, hreal⟩ := readNumeral_natural (decide (n < 0)) n.natAbs hdigit
    refine .inr (.inr ⟨by omega, ?_⟩)
    rw [hreal]
    simp only [hpoint, hmark, hfits, Bool.false_eq_true, if_false]
    exact onlyReal_real _ _ _ _

/-- What a reader makes of the bytes of a value, with any white space before them and anything after
them that ends a number. -/
def Yields {α : Type} (read : Reader α) (core : Bytes) (a? : Option α) : Prop :=
  ∀ before rest, Blank before → Stops rest →
    (read (before ++ (core ++ rest))).toOption = a?.map (·, rest)

theorem yields_readUnsigned (h : Spells t core) : Yields readUnsigned core t.unsigned? := by
  intro before rest hb hrest
  have hreal (hread : OnlyReal (readNumber .unsigned (before ++ (core ++ rest)))) :
      (readUnsigned (before ++ (core ++ rest))).toOption = none := by
    rw [readUnsigned]
    split
    · rfl
    · obtain ⟨_, _, hnot⟩ := hread _ _ ‹_›
      cases hnot
    · rfl
    · rfl
  cases t with
  | integer n =>
    cases h with
    | integer n =>
      rcases readNumber_integer n .unsigned hb hrest with
        ⟨hlow, hhigh, hread⟩ | ⟨hlow, hhigh, hread⟩ | ⟨hout, hread⟩
      · rw [readUnsigned, hread, Tree.unsigned?, if_pos ⟨hlow, hhigh⟩]
        rfl
      · rw [readUnsigned, hread, Tree.unsigned?, if_neg (by omega)]
        rfl
      · rw [hreal hread, Tree.unsigned?, if_neg (by omega)]
        rfl
  | _ => exact hreal (onlyReal_readNumber h (by simp) .unsigned hb hrest)

theorem yields_readSigned (h : Spells t core) : Yields readSigned core t.signed? := by
  intro before rest hb hrest
  have hpow : Nat.pow 2 63 = 2 ^ 63 := rfl
  have hreal (hread : OnlyReal (readNumber .signed (before ++ (core ++ rest)))) :
      (readSigned (before ++ (core ++ rest))).toOption = none := by
    rw [readSigned]
    split
    · rfl
    · obtain ⟨_, _, hnot⟩ := hread _ _ ‹_›
      cases hnot
    · obtain ⟨_, _, hnot⟩ := hread _ _ ‹_›
      cases hnot
    · rfl
  cases t with
  | integer n =>
    cases h with
    | integer n =>
      rcases readNumber_integer n .signed hb hrest with
        ⟨hlow, hhigh, hread⟩ | ⟨hlow, hhigh, hread⟩ | ⟨hout, hread⟩
      · rw [readSigned, hread, Tree.signed?]
        by_cases hfits : n < 2 ^ 63
        · have hvalue : Int64.ofNat n.toNat = Int64.ofInt n := by
            rw [← Int64.ofInt_eq_ofNat, Int.toNat_of_nonneg hlow]
          rw [if_pos ⟨by omega, hfits⟩]
          simp only [show n.toNat < Nat.pow 2 63 by omega, if_true, hvalue]
          rfl
        · rw [if_neg (by omega)]
          simp only [show ¬n.toNat < Nat.pow 2 63 by omega, if_false]
          rfl
      · have hvalue : -((-n).toNat : Int) = n := by omega
        rw [readSigned, hread, Tree.signed?, if_pos ⟨hlow, by omega⟩]
        simp only [hvalue]
        rfl
      · rw [hreal hread, Tree.signed?, if_neg (by omega)]
        rfl
  | _ => exact hreal (onlyReal_readNumber h (by simp) .signed hb hrest)

theorem yields_readString (h : Spells t core) : Yields readString core t.string? := by
  intro before rest hb hrest
  obtain ⟨b, more, hbegins, hcore, hdrop⟩ := h.dropBlank hb rest
  have hrefuse (hquote : b ≠ quote) :
      (readString (before ++ (core ++ rest))).toOption = none := by
    rw [readString, hdrop]
    simp only [if_neg hquote, toOption_refuse]
  cases t with
  | text pieces =>
    cases h with
    | text pieces =>
      obtain ⟨rfl, rfl⟩ := List.cons.inj hcore
      rw [readString, hdrop]
      have happend : (pieces.flatMap Piece.bytes).append [quote] ++ rest =
          pieces.flatMap Piece.bytes ++ quote :: rest := List.append_assoc _ _ _
      simp only [if_true, happend]
      exact readText_pieces pieces rest
  | _ => exact hrefuse (hbegins.ne (by simp only [Tree.Begins]; decide))

/-- Null stands for the default, and any other value for what it stands for by itself. -/
theorem Yields.orNull {α : Type} {read : Reader α} {value? : Tree → Option α}
    (h : Spells t core) (hread : Yields read core (value? t)) (default : α) :
    Yields (readOrNull default read) core (t.orNull default value?) := by
  intro before rest hb hrest
  obtain ⟨b, more, hbegins, hcore, hdrop⟩ := h.dropBlank hb rest
  have hvalue (hnull : b ≠ ascii 'n') (hother : t.orNull default value? = value? t) :
      (readOrNull default read (before ++ (core ++ rest))).toOption =
        (t.orNull default value?).map (·, rest) := by
    rw [readOrNull, hdrop, hother]
    simp only [if_neg hnull]
    have hnone := hread [] rest blank_nil hrest
    rwa [hcore] at hnone
  cases t with
  | null =>
    cases h with
    | null =>
      obtain ⟨rfl, rfl⟩ := List.cons.inj hcore
      rw [readOrNull, hdrop]
      rfl
  | _ => exact hvalue (hbegins.ne (by simp only [Tree.Begins]; decide)) rfl

end Kinds

end AlertSilences.Json
