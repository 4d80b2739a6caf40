/-! Points in time as the clock shows them: whole seconds since the epoch and nanoseconds
counted forward from there, within the years that the calendar covers. -/

namespace AlertSilences

def minSecond : Int := -8334601228800

def maxSecond : Int := 8210266876799

def nanosPerSecond : Nat := 1000000000

structure Instant where
  second : Int
  nano : Nat
  second_ge : minSecond ≤ second
  second_le : second ≤ maxSecond
  nano_lt : nano < nanosPerSecond
deriving DecidableEq

/-- A signed length of time, its nanoseconds counted forward as well. -/
structure Span where
  seconds : Int
  nano : Nat
  nano_lt : nano < nanosPerSecond
deriving DecidableEq

namespace Span

def toNanos (s : Span) : Int := s.seconds * nanosPerSecond + s.nano

/-- The length in nanoseconds, for a span that does not run backwards. -/
def delay? (s : Span) : Option Nat :=
  if s.seconds < 0 then none else some (s.seconds.toNat * nanosPerSecond + s.nano)

end Span

namespace Instant

instance : Inhabited Instant := ⟨⟨0, 0, by decide, by decide, by decide⟩⟩

def toNanos (t : Instant) : Int := t.second * nanosPerSecond + t.nano

instance : LE Instant :=
  ⟨fun a b => a.second < b.second ∨ a.second = b.second ∧ a.nano ≤ b.nano⟩

instance (a b : Instant) : Decidable (a ≤ b) :=
  inferInstanceAs (Decidable (a.second < b.second ∨ a.second = b.second ∧ a.nano ≤ b.nano))

def of? (second : Int) (nano : Nat) : Option Instant :=
  if h : (minSecond ≤ second ∧ second ≤ maxSecond) ∧ nano < nanosPerSecond then
    some ⟨second, nano, h.1.1, h.1.2, h.2⟩
  else none

/-- The start of a second, if the calendar reaches it. -/
def ofSecond? (second : Int) : Option Instant := of? second 0

def ofNanos? (n : Int) : Option Instant :=
  of? (n.fdiv nanosPerSecond) (n.fmod nanosPerSecond).toNat

def addNanos? (t : Instant) (n : Int) : Option Instant := ofNanos? (t.toNanos + n)

/-- The time from `earlier` to `later`, borrowing a second where the nanoseconds need it. -/
def since (later earlier : Instant) : Span :=
  if h : earlier.nano ≤ later.nano then
    ⟨later.second - earlier.second, later.nano - earlier.nano, by have := later.nano_lt; omega⟩
  else
    ⟨later.second - earlier.second - 1, later.nano + nanosPerSecond - earlier.nano, by
      have := later.nano_lt
      have := earlier.nano_lt
      omega⟩

/-- How long it is from `now` until `t`, in nanoseconds; nothing for a time already past. -/
def delayFrom (now t : Instant) : Nat := (t.since now).delay?.getD 0

end Instant

end AlertSilences
