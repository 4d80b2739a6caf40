import AlertSilences.Filter
import AlertSilences.SilenceId
import AlertSilences.Stamp

/-! Silences: rules made by an operator that hold until their end. -/

namespace AlertSilences

structure SilenceOf (Time : Type) where
  id : SilenceId
  createdBy : String
  createdAt : Time
  endsAt : Time
  comment : String
  filters : Filters
deriving DecidableEq

/-- A silence whose times the clock can show. -/
abbrev Silence := SilenceOf Instant

namespace Silence

/-- A silence made at `now`, with no id, comment or filters yet. -/
def new (now : Instant) (createdBy : String) (endsAt : Instant) : Silence :=
  ⟨.unset, createdBy, now, endsAt, "", .none⟩

def withId (s : Silence) (id : SilenceId) : Silence := { s with id }

def withComment (s : Silence) (comment : String) : Silence := { s with comment }

def withCreatedAt (s : Silence) (createdAt : Instant) : Silence := { s with createdAt }

def withFilter (s : Silence) (name value : String) : Silence :=
  { s with filters := s.filters.push ⟨name, value⟩ }

end Silence

namespace SilenceOf

variable {Time : Type} [TimeScale Time]

def isExpired (now : Time) (s : SilenceOf Time) : Bool := s.endsAt ≤ now

/-- Nanoseconds left until the end. -/
def remaining (now : Time) (s : SilenceOf Time) : Nat := TimeScale.delayFrom now s.endsAt

end SilenceOf

end AlertSilences
