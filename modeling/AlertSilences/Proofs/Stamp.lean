import AlertSilences.Proofs.Clock
import AlertSilences.Stamp
import Mathlib.Order.Bounds.Defs

/-! Times with leap seconds beside those that the clock shows. Without leap seconds both are the
same; with them the seconds still are, and a time is no earlier than the start of its second. -/

namespace AlertSilences

theorem nanosPerSecond_pos : 0 < nanosPerSecond := by decide

namespace Span

theorem eq_of_toNanos_eq {a b : Span} (h : a.toNanos = b.toNanos) : a = b := by
  have := a.nano_lt
  have := b.nano_lt
  obtain ⟨seconds, nano, _⟩ := a
  obtain ⟨seconds', nano', _⟩ := b
  simp only [toNanos, nanosPerSecond] at *
  obtain rfl : seconds = seconds' := by omega
  obtain rfl : nano = nano' := by omega
  rfl

def nanosPerMilli : Nat := 1000000

/-- A signed word of 64 bits counts the milliseconds of a length of time, as far back as it counts
forward. -/
def Fits (s : Span) : Prop :=
  -(Int64.maxValue.toInt * nanosPerMilli) ≤ s.toNanos ∧
    s.toNanos ≤ Int64.maxValue.toInt * nanosPerMilli

end Span

namespace Stamp

def toNanos (t : Stamp) : Int := t.second * nanosPerSecond + t.nano

def start (t : Stamp) : Instant := ⟨t.second, 0, t.second_ge, t.second_le, nanosPerSecond_pos⟩

/-- The last start of a second that a time is not before. -/
def IsFloor (t : Stamp) (u : Instant) : Prop :=
  IsGreatest {u : Instant | u.nano = 0 ∧ ofInstant u ≤ t} u

theorem isFloor_start (t : Stamp) : t.IsFloor t.start := by
  refine ⟨⟨rfl, .inr ⟨rfl, Nat.zero_le _⟩⟩, ?_⟩
  rintro u ⟨hu, hlt | ⟨heq, -⟩⟩
  · exact .inl hlt
  · exact .inr ⟨heq, Nat.le_of_eq hu⟩

@[simp] theorem isLeap_ofInstant (t : Instant) : (ofInstant t).isLeap = false :=
  decide_eq_false (Nat.not_le_of_lt t.nano_lt)

/-- Outside leap seconds the clock shows every time. -/
theorem exists_ofInstant_eq {t : Stamp} (h : t.isLeap = false) : ∃ u, ofInstant u = t :=
  ⟨⟨t.second, t.nano, t.second_ge, t.second_le, Nat.lt_of_not_le (of_decide_eq_false h)⟩, rfl⟩

@[simp] theorem leapBetween_ofInstant (later earlier : Instant) :
    (ofInstant later).leapBetween (ofInstant earlier) = 0 := by
  simp [leapBetween]

theorem abs_leapBetween_le (later earlier : Stamp) :
    -1 ≤ later.leapBetween earlier ∧ later.leapBetween earlier ≤ 1 := by
  unfold leapBetween
  split_ifs <;> decide

theorem toNanos_since (later earlier : Stamp) :
    (later.since earlier).toNanos =
      later.toNanos - earlier.toNanos + later.leapBetween earlier * nanosPerSecond := by
  simp only [since, Span.toNanos, toNanos, nanosPerSecond]
  omega

/-- Between times that the clock shows it is as long as the clock says. -/
theorem since_ofInstant (later earlier : Instant) :
    (ofInstant later).since (ofInstant earlier) = later.since earlier := by
  apply Span.eq_of_toNanos_eq
  rw [toNanos_since, leapBetween_ofInstant, Instant.toNanos_since, Int.zero_mul, Int.add_zero]
  rfl

@[simp] theorem delayFrom_ofInstant (now t : Instant) :
    TimeScale.delayFrom (ofInstant now) (ofInstant t) = now.delayFrom t := by
  change ((ofInstant t).since (ofInstant now)).delay?.getD 0 = _
  rw [since_ofInstant, Instant.delayFrom]

theorem fits_since (later earlier : Stamp) : (later.since earlier).Fits := by
  have := later.second_ge
  have := later.second_le
  have := later.nano_lt
  have := earlier.second_ge
  have := earlier.second_le
  have := earlier.nano_lt
  have := later.abs_leapBetween_le earlier
  rw [Span.Fits, toNanos_since, Int64.toInt_maxValue]
  simp only [toNanos, nanosPerSecond, minSecond, maxSecond, Span.nanosPerMilli] at *
  omega

theorem delayFrom_eq_max (now t : Stamp) :
    (TimeScale.delayFrom now t : Int) = max 0 (t.since now).toNanos := by
  rw [TimeScale.delayFrom, Span.getD_delay?]
  change ((t.since now).toNanos.toNat : Int) = _
  omega

end Stamp

end AlertSilences
