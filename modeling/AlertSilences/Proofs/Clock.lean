import AlertSilences.Expiry.Scheduler
import Mathlib.Order.Basic

/-! Instants as counts of nanoseconds: their order is the order of the counts, and a delay
reaches from the present to the later of the present and the time asked for. -/

namespace AlertSilences

theorem Span.getD_delay? (s : Span) : s.delay?.getD 0 = s.toNanos.toNat := by
  have := s.nano_lt
  unfold delay? toNanos nanosPerSecond at *
  split_ifs with h
  · simp only [Option.getD_none]
    omega
  · simp only [Option.getD_some]
    omega

namespace Instant

theorem le_iff_toNanos_le {a b : Instant} : a ≤ b ↔ a.toNanos ≤ b.toNanos := by
  have ha := a.nano_lt
  have hb := b.nano_lt
  change (a.second < b.second ∨ a.second = b.second ∧ a.nano ≤ b.nano) ↔ _
  unfold toNanos nanosPerSecond at *
  omega

theorem le_refl (a : Instant) : a ≤ a := le_iff_toNanos_le.2 (Int.le_refl _)

theorem eq_of_toNanos_eq {a b : Instant} (h : a.toNanos = b.toNanos) : a = b := by
  have ha := a.nano_lt
  have hb := b.nano_lt
  obtain ⟨second, nano, _, _, _⟩ := a
  obtain ⟨second', nano', _, _, _⟩ := b
  simp only [toNanos, nanosPerSecond] at h ha hb
  obtain rfl : second = second' := by omega
  obtain rfl : nano = nano' := by omega
  rfl

theorem toNanos_since (later earlier : Instant) :
    (later.since earlier).toNanos = later.toNanos - earlier.toNanos := by
  have := later.nano_lt
  have := earlier.nano_lt
  unfold since
  split_ifs with h <;> simp only [Span.toNanos, toNanos, nanosPerSecond] at * <;> omega

theorem delayFrom_eq_toNat (now t : Instant) :
    now.delayFrom t = (t.toNanos - now.toNanos).toNat := by
  rw [delayFrom, Span.getD_delay?, toNanos_since]

/-- Whatever is asked for is due at its time, or at once if that is past. -/
theorem toNanos_add_delayFrom (now t : Instant) :
    now.toNanos + now.delayFrom t = max now.toNanos t.toNanos := by
  rw [delayFrom_eq_toNat]
  omega

/-- The clock reaches beyond the calendar. -/
theorem toNanos_le_lastTick (t : Instant) : t.toNanos ≤ Scheduler.lastTick := by
  have := t.nano_lt
  have := t.second_le
  unfold toNanos Scheduler.lastTick nanosPerSecond maxSecond at *
  omega

end Instant

/-- No end is too late to be scheduled. A worker that listens is told of every action. -/
theorem Scheduler.arm_eq (now : Instant) (id : SilenceId) (endsAt : Instant) (s : Scheduler) :
    s.arm now id endsAt = (⟨s.actions.issued, endsAt⟩,
      { s with actions := ⟨s.actions.issued + 1, s.actions.stopped⟩ }.send
        (.arm (now.toNanos + now.delayFrom endsAt) ⟨id, ⟨s.actions.issued, endsAt⟩⟩),
      [if s.phase.listens then .armed id else .neverExpires id]) := by
  have hfits : now.toNanos + now.delayFrom endsAt ≤ lastTick := by
    rw [Instant.toNanos_add_delayFrom]
    exact Int.max_le.2 ⟨now.toNanos_le_lastTick, endsAt.toNanos_le_lastTick⟩
  exact if_pos hfits

end AlertSilences
