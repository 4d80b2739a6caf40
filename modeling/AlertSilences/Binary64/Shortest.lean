import AlertSilences.Binary64

/-! The shortest decimal text of a floating-point number: the fewest digits whose
value rounds to the number, the nearest such if there are two. Small and moderate
exponents are written with a point, the others with a power of ten. -/

namespace AlertSilences.Binary64

structure Scientific where
  digits : Nat
  exponent : Int
deriving DecidableEq

def tenths (a : Nat) (k : Int) : Nat × Nat :=
  if 0 ≤ k then (a * Nat.pow 10 k.toNat, 1) else (a, Nat.pow 10 (-k).toNat)

/-- Four times the value, with its neighbours' midpoints: the ends of the interval of reals
that round to `x`, over one denominator. -/
def interval (x : Binary64) : Nat × Nat × Nat :=
  let unit := if 0 ≤ x.exponent then Nat.pow 2 x.exponent.toNat else 1
  let den := 4 * if 0 ≤ x.exponent then 1 else Nat.pow 2 (-x.exponent).toNat
  let below := if x.mantissa = Nat.pow 2 52 ∧ -1074 < x.exponent then 1 else 2
  ((4 * x.mantissa - below) * unit, (4 * x.mantissa + 2) * unit, den)

/-- Whether a decimal rounds to `x`; an end of the interval counts for an even mantissa. -/
def roundsTo (x : Binary64) (s : Scientific) : Bool :=
  let (low, high, den) := x.interval
  let (p, q) := tenths s.digits s.exponent
  if x.mantissa % 2 = 0 then low * q ≤ p * den && p * den ≤ high * q
  else low * q < p * den && p * den < high * q

def leadingExponent (num den : Nat) : Int :=
  if den ≤ num then ((Nat.toDigits 10 (num / den)).length : Int) - 1
  else -((Nat.toDigits 10 ((den - 1) / num)).length : Int)

/-- The better of the two neighbours of `x` on the grid of `10 ^ k` that round to `x`. -/
def nearest? (x : Binary64) (k : Int) : Option Scientific :=
  let (num, den) := x.fraction
  let (p, q) := tenths 1 (-k)
  let down := num * p / (den * q)
  let rest := 2 * (num * p % (den * q))
  let low : Scientific := ⟨down, k⟩
  let high : Scientific := ⟨down + 1, k⟩
  match x.roundsTo low, x.roundsTo high with
  | false, false => none
  | true, false => some low
  | false, true => some high
  | true, true =>
    some (if rest < den * q then low
      else if den * q < rest then high
      else if down % 2 = 0 then low else high)

/-- Tries one digit, then one more, up to the seventeen that always suffice. -/
def select (x : Binary64) (lead : Int) : Nat → Nat → Scientific
  | 0, _ => ⟨0, 0⟩
  | count + 1, n => (x.nearest? (lead - n + 1)).getD (x.select lead count (n + 1))

def shortest (x : Binary64) : Scientific :=
  x.select (leadingExponent x.fraction.1 x.fraction.2) 17 1

def zeros (n : Nat) : List Char := List.replicate n '0'

/-- Digits without the zeros at their end, and how many there were. -/
def trimZeros (digits : List Char) : List Char × Nat :=
  let kept := (digits.reverse.dropWhile (· == '0')).reverse
  (kept, digits.length - kept.length)

/-- The power of ten below which digits are written out, and the one above which they are. -/
def writtenOut (lead : Int) : Bool := -5 ≤ lead && lead < 16

def layout (digits : List Char) (lead : Int) : List Char :=
  if writtenOut lead then
    if lead < 0 then "0.".toList ++ zeros (-lead - 1).toNat ++ digits
    else
      let whole := lead.toNat + 1
      if digits.length ≤ whole then digits ++ zeros (whole - digits.length) ++ ".0".toList
      else digits.take whole ++ '.' :: digits.drop whole
  else
    let fraction := digits.drop 1
    digits.take 1 ++ (if fraction.isEmpty then [] else '.' :: fraction) ++
      'e' :: (if lead < 0 then '-' else '+') :: Nat.toDigits 10 lead.natAbs

def text (negative : Bool) (x : Binary64) : String :=
  let sign := if negative then ['-'] else []
  if x.isZero then String.ofList (sign ++ "0.0".toList)
  else
    let s := x.shortest
    let (digits, dropped) := trimZeros (Nat.toDigits 10 s.digits)
    String.ofList (sign ++ layout digits (s.exponent + dropped + digits.length - 1))

end AlertSilences.Binary64
