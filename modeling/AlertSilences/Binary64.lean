/-! Magnitudes of finite floating-point numbers of 64 bits, computed in exact
arithmetic: a value is a mantissa below `2 ^ 53` times a power of two that is at
least `2 ^ -1074`. -/

namespace AlertSilences

structure Binary64 where
  mantissa : Nat
  exponent : Int
deriving DecidableEq, Inhabited

namespace Binary64

def zero : Binary64 := ⟨0, -1074⟩

/-- `num / den` rounded to an integer, halfway cases to the even one. -/
def roundQuotient (num den : Nat) : Nat :=
  let q := num / den
  let twice := 2 * (num % den)
  if twice < den then q
  else if den < twice then q + 1
  else if q % 2 = 0 then q else q + 1

/-- `num / (den · 2 ^ e)` as a fraction of naturals. -/
def scaled (num den : Nat) (e : Int) : Nat × Nat :=
  if 0 ≤ e then (num, den * Nat.pow 2 e.toNat) else (num * Nat.pow 2 (-e).toNat, den)

/-- The exponent that leaves 53 bits of `num / den` before the point, if the format has it. -/
def unitExponent (num den : Nat) : Int :=
  let e := (Nat.log2 num : Int) - Nat.log2 den - 52
  let f := scaled num den e
  max (-1074) (if f.1 / f.2 < Nat.pow 2 52 then e - 1 else e)

/-- The nearest value to `num / den`; none if that is infinite. -/
def ofQuotient? (num den : Nat) : Option Binary64 :=
  if num = 0 then some zero
  else
    let e := unitExponent num den
    let f := scaled num den e
    let m := roundQuotient f.1 f.2
    let value : Binary64 := if m < Nat.pow 2 53 then ⟨m, e⟩ else ⟨Nat.pow 2 52, e + 1⟩
    if value.exponent ≤ 971 then some value else none

def isZero (x : Binary64) : Bool := x.mantissa == 0

def fraction (x : Binary64) : Nat × Nat :=
  if 0 ≤ x.exponent then (x.mantissa * Nat.pow 2 x.exponent.toNat, 1)
  else (x.mantissa, Nat.pow 2 (-x.exponent).toNat)

def mul? (x y : Binary64) : Option Binary64 :=
  ofQuotient? (x.fraction.1 * y.fraction.1) (x.fraction.2 * y.fraction.2)

def div? (x y : Binary64) : Option Binary64 :=
  ofQuotient? (x.fraction.1 * y.fraction.2) (x.fraction.2 * y.fraction.1)

def maxTen : Nat := 308

def ten (k : Nat) : Binary64 := (ofQuotient? (Nat.pow 10 k) 1).getD zero

/-- `n · 10 ^ exponent` by one rounding of `n` and one of the product or quotient with a power
of ten, after whole divisions by the largest power; none beyond the largest value. The count
bounds those divisions: any `n` below `2 ^ 64` is gone after three. -/
def scaleTen? : Nat → Binary64 → Int → Option Binary64
  | 0, _, _ => some zero
  | count + 1, x, exponent =>
    if exponent.natAbs ≤ maxTen then
      if 0 ≤ exponent then mul? x (ten exponent.natAbs) else div? x (ten exponent.natAbs)
    else if x.isZero then some x
    else if 0 ≤ exponent then none
    else do scaleTen? count (← div? x (ten maxTen)) (exponent + maxTen)

def ofDecimal? (n : Nat) (exponent : Int) : Option Binary64 := do
  scaleTen? 8 (← ofQuotient? n 1) exponent

end Binary64

end AlertSilences
