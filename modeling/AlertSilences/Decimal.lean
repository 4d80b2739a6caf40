/-! Integers in decimal. Reading takes an optional sign and at least one digit,
any number of leading zeros, and nothing else. -/

namespace AlertSilences.Decimal

def digit? (c : Char) : Option Nat :=
  if c.isDigit then some (c.toNat - '0'.toNat) else none

/-- The value of a run of digits that continues the number `n`. -/
def digits? : Nat → List Char → Option Nat
  | n, [] => some n
  | n, c :: rest => do digits? (10 * n + (← digit? c)) rest

def unsigned? : List Char → Option Nat
  | [] => none
  | c :: rest => digits? 0 (c :: rest)

def natural? (text : String) : Option Nat :=
  match text.toList with
  | '+' :: rest => unsigned? rest
  | rest => unsigned? rest

def integer? (text : String) : Option Int :=
  match text.toList with
  | '-' :: rest => (unsigned? rest).map fun n => -(n : Int)
  | '+' :: rest => (unsigned? rest).map fun n => (n : Int)
  | rest => (unsigned? rest).map fun n => (n : Int)

end AlertSilences.Decimal
