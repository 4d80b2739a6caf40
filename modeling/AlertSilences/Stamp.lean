import AlertSilences.Instant

/-! Times as they can be given. Within a leap second the nanoseconds of the second before it run on.
The clock never shows such a time, but a silence can be made with one. -/

namespace AlertSilences

/-- What silences ask of their times: which of two is no later, which second a time is in, and how
long it is from one to another. -/
class TimeScale (Time : Type) extends LE Time where
  decidableLE : DecidableLE Time
  second : Time → Int
  since : Time → Time → Span

namespace TimeScale

variable {Time : Type} [TimeScale Time]

instance : DecidableLE Time := decidableLE

/-- How long it is from `now` until `t`, in nanoseconds; nothing for a time already past. -/
def delayFrom (now t : Time) : Nat := (since t now).delay?.getD 0

end TimeScale

instance : TimeScale Instant := ⟨inferInstance, Instant.second, Instant.since⟩

@[simp] theorem Instant.timeScale_second (t : Instant) : TimeScale.second t = t.second := rfl

@[simp] theorem Instant.timeScale_delayFrom (now t : Instant) :
    TimeScale.delayFrom now t = now.delayFrom t := rfl

structure Stamp where
  second : Int
  nano : Nat
  second_ge : minSecond ≤ second
  second_le : second ≤ maxSecond
  nano_lt : nano < 2 * nanosPerSecond

namespace Stamp

def ofInstant (t : Instant) : Stamp :=
  ⟨t.second, t.nano, t.second_ge, t.second_le, by have := t.nano_lt; omega⟩

def isLeap (t : Stamp) : Bool := nanosPerSecond ≤ t.nano

def secondsPerDay : Int := 86400

def secondOfDay (t : Stamp) : Int := t.second % secondsPerDay

instance : LE Stamp :=
  ⟨fun a b => a.second < b.second ∨ a.second = b.second ∧ a.nano ≤ b.nano⟩

instance (a b : Stamp) : Decidable (a ≤ b) :=
  inferInstanceAs (Decidable (a.second < b.second ∨ a.second = b.second ∧ a.nano ≤ b.nano))

/-- The leap second that is counted between two times. Their days are told apart by the seconds, so
it is only looked for between the two times of day. -/
def leapBetween (later earlier : Stamp) : Int :=
  if earlier.secondOfDay < later.secondOfDay then if earlier.isLeap then 1 else 0
  else if later.secondOfDay < earlier.secondOfDay then if later.isLeap then -1 else 0
  else 0

def since (later earlier : Stamp) : Span :=
  let nanos : Int := later.nano - earlier.nano
  ⟨later.second - earlier.second + later.leapBetween earlier + nanos / nanosPerSecond,
    (nanos % nanosPerSecond).toNat, by simp only [nanosPerSecond]; omega⟩

end Stamp

instance : TimeScale Stamp := ⟨inferInstance, Stamp.second, Stamp.since⟩

end AlertSilences
