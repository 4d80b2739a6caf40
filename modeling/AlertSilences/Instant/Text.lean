import AlertSilences.Decimal
import AlertSilences.Instant

/-! Texts of points in time. A time near the present is written by its distance
from now in whole minutes, so that the text does not depend on when it is read. -/

namespace AlertSilences

/-- Times no further than this from now, in seconds, are written relative to it. -/
def nearSeconds : Nat := 3456000

/-- The multiple of 60 that is nearest; halfway goes up. -/
def toMinute (seconds : Int) : Int := (seconds + 30).fdiv 60 * 60

def signedText (n : Int) : String := if n < 0 then toString n else "+" ++ toString n

def secondText (now : Instant) (second : Int) : String :=
  let distance := second - now.second
  if distance.natAbs ≤ nearSeconds then "now" ++ signedText (toMinute distance)
  else toString second

namespace Instant

def nanoText (nano : Nat) : String :=
  let digits := toString nano
  String.ofList (List.replicate (9 - digits.length) '0') ++ digits

def text (t now : Instant) : String :=
  if (t.second - now.second).natAbs ≤ nearSeconds then secondText now t.second
  else if t.nano = 0 then toString t.second
  else toString t.second ++ "." ++ nanoText t.nano

def ofText? (text : String) : Option Instant := do
  match text.splitOn "." with
  | [whole] => ofSecond? (← Decimal.integer? whole)
  | [whole, fraction] =>
    if fraction.length = 9 then
      of? (← Decimal.integer? whole) (← Decimal.unsigned? fraction.toList)
    else none
  | _ => none

end Instant

/-- The text of a delay: none, whole minutes in seconds, or a distance that is not told. -/
def delayText (nanos : Nat) : String :=
  if nanos = 0 then "0"
  else
    let seconds := nanos / nanosPerSecond
    if seconds > nearSeconds then "far" else toString (toMinute seconds)

end AlertSilences
