import AlertSilences.Silence

/-! Flat records of silences: times are whole seconds, filters are a map by name. A
second of zero stands for a time that was not given. -/

namespace AlertSilences

structure Record where
  id : UInt64
  createdBy : String
  createdAtSeconds : Int64
  endsAtSeconds : Int64
  comment : String
  filters : Labels
deriving DecidableEq

/-- How long a silence lasts that was given no end, in seconds. -/
def defaultSeconds : Int := 3600

namespace Record

def empty : Record := ⟨0, "", 0, 0, "", ∅⟩

def ofSilence {Time : Type} [TimeScale Time] (s : SilenceOf Time) : Record :=
  ⟨s.id.value, s.createdBy, Int64.ofInt (TimeScale.second s.createdAt),
    Int64.ofInt (TimeScale.second s.endsAt), s.comment, s.filters.toLabels⟩

def orElse (second : Int64) (default : Int) : Int := if second = 0 then default else second.toInt

/-- The silence of a record read at `now`; fails with the first second, of creation before end,
that the calendar does not reach. -/
def toSilence (now : Instant) (r : Record) : Except Int Silence :=
  let created := orElse r.createdAtSeconds now.second
  let ends := orElse r.endsAtSeconds (now.second + defaultSeconds)
  match Instant.ofSecond? created with
  | none => .error created
  | some createdAt =>
    match Instant.ofSecond? ends with
    | none => .error ends
    | some endsAt =>
      .ok ⟨⟨r.id⟩, r.createdBy, createdAt, endsAt, r.comment, .ofLabels r.filters⟩

end Record

end AlertSilences
