import AlertSilences.Json.Scan

/-! Numbers in a document. Digits are gathered while they fit into a word of 64
bits; a number that has more of them, a fraction or an exponent is a real one. -/

namespace AlertSilences.Json

inductive Numeral
  | natural (n : Nat)
  | negative (n : Nat)
  | real (minus : Bool) (size : Binary64)
deriving DecidableEq

def Numeral.found : Numeral → Found
  | .natural n => .integer n
  | .negative n => .integer (-n)
  | .real minus size => .real minus size

def isExponentMark (b : UInt8) : Bool := b = ascii 'e' || b = ascii 'E'

/-- The digits that continue `n` within a word: what they make, how many, and the rest. -/
def gather (n count : Nat) : Bytes → Nat × Nat × Bytes
  | [] => (n, count, [])
  | b :: rest =>
    if isDigit b && 10 * n + digitValue b < Nat.pow 2 64 then
      gather (10 * n + digitValue b) (count + 1) rest
    else (n, count, b :: rest)

def real (minus : Bool) (n : Nat) (exponent : Int) (rest : Bytes) :
    Except Error (Numeral × Bytes) :=
  match Binary64.ofDecimal? n exponent with
  | some size => .ok (.real minus size, rest)
  | none => .error .numberOutOfRange

/-- The digits of an exponent up to the largest one that is told apart; none beyond it. -/
def gatherExponent (n : Nat) : Bytes → Option Nat × Bytes
  | [] => (some n, [])
  | b :: rest =>
    if isDigit b then
      if 10 * n + digitValue b < Nat.pow 2 31 then gatherExponent (10 * n + digitValue b) rest
      else (none, rest)
    else (some n, b :: rest)

/-- After the mark of the exponent; `shift` is the exponent that the digits so far stand for. -/
def readExponent (minus : Bool) (n : Nat) (shift : Int) (s : Bytes) :
    Except Error (Numeral × Bytes) :=
  let down := startsWith (· = ascii '-') s
  let s := if startsWith (fun b => b = ascii '+' || b = ascii '-') s then s.drop 1 else s
  match s with
  | [] => .error .endInValue
  | b :: rest =>
    if isDigit b then
      match gatherExponent (digitValue b) rest with
      | (some e, rest) => real minus n (if down then shift - e else shift + e) rest
      | (none, rest) =>
        if n ≠ 0 && !down then .error .numberOutOfRange
        else .ok (.real minus .zero, rest.dropWhile isDigit)
    else .error .badNumber

/-- The end of a real number, where an exponent may stand. -/
def readTail (minus : Bool) (n : Nat) (shift : Int) (s : Bytes) :
    Except Error (Numeral × Bytes) :=
  if startsWith isExponentMark s then readExponent minus n shift (s.drop 1)
  else real minus n shift s

/-- After the point. Digits that no longer fit into the word are passed over. -/
def readFraction (minus : Bool) (n : Nat) (shift : Int) (s : Bytes) :
    Except Error (Numeral × Bytes) :=
  let (m, count, rest) := gather n 0 s
  if startsWith isDigit rest then readTail minus m (shift - count) (rest.dropWhile isDigit)
  else if count = 0 then .error (if rest.isEmpty then .endInValue else .badNumber)
  else readTail minus m (shift - count) rest

/-- An integer that ends here; none is below the smallest, and zero has no sign. -/
def integer (minus : Bool) (n : Nat) (rest : Bytes) : Except Error (Numeral × Bytes) :=
  if !minus then .ok (.natural n, rest)
  else if 0 < n && n ≤ Nat.pow 2 63 then .ok (.negative n, rest)
  else real true n 0 rest

def isPoint (b : UInt8) : Bool := b = ascii '.'

/-- A number after its sign. -/
def readNumeral (minus : Bool) (s : Bytes) : Except Error (Numeral × Bytes) :=
  match s with
  | [] => .error .endInValue
  | b :: rest =>
    if !isDigit b then .error .badNumber
    else if b = ascii '0' && startsWith isDigit rest then .error .badNumber
    else
      let (n, _, rest) := gather 0 0 (b :: rest)
      let more := rest.takeWhile isDigit
      let rest := rest.dropWhile isDigit
      if startsWith isPoint rest then readFraction minus n more.length (rest.drop 1)
      else if startsWith isExponentMark rest then
        readExponent minus n more.length (rest.drop 1)
      else if more.isEmpty then integer minus n rest
      else real minus n more.length rest

end AlertSilences.Json
