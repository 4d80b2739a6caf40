import AlertSilences.Proofs.NormalForm

/-! How long it is until a time, and which second a time is in. Whoever asks at one reading of the
clock finds one delay: the silence that tells how long it has left, the check whether it is over,
and the worker that is told when its end is due. The second written of a time is the last that had
begun by then, and is read as its start. Nothing of this is too large for the words it is kept in,
not even from one end of the calendar to the other. But an end within a leap second can be past and
still some time ahead. -/

namespace AlertSilences

namespace Instant

theorem fits_since (later earlier : Instant) : (later.since earlier).Fits := by
  rw [← Stamp.since_ofInstant]
  exact Stamp.fits_since _ _

theorem delayFrom_eq_max (now t : Instant) :
    (now.delayFrom t : Int) = max 0 (t.toNanos - now.toNanos) := by
  rw [delayFrom_eq_toNat]
  omega

theorem delayFrom_eq_zero_iff {now t : Instant} : now.delayFrom t = 0 ↔ t ≤ now := by
  rw [delayFrom_eq_toNat, le_iff_toNanos_le]
  omega

theorem delayFrom_le_delayFrom (now : Instant) {a b : Instant} (h : a ≤ b) :
    now.delayFrom a ≤ now.delayFrom b := by
  have hnanos := le_iff_toNanos_le.1 h
  rw [delayFrom_eq_toNat, delayFrom_eq_toNat]
  omega

/-- The last second that had begun by a time. It can be read, as its start. -/
structure IsIn (t : Instant) (second : Int64) : Prop where
  greatest : IsGreatest {k : Int | k * nanosPerSecond ≤ t.toNanos} second.toInt
  read : ∃ u, ofSecond? second.toInt = some u ∧ u ≤ t ∧ t.toNanos - u.toNanos < nanosPerSecond

theorem isIn_second (t : Instant) : t.IsIn (Int64.ofInt t.second) := by
  have hnano := t.nano_lt
  obtain ⟨u, hu, hnanos⟩ := ofSecond?_of_le t.second_ge t.second_le
  have hstart : t.toNanos = u.toNanos + t.nano := by rw [hnanos, toNanos]
  refine ⟨⟨?_, fun k hk => ?_⟩, u, ?_, ?_, ?_⟩
  · rw [toInt_ofInt_second, Set.mem_ofPred_eq, ← hnanos]
    omega
  · rw [Set.mem_ofPred_eq] at hk
    rw [toInt_ofInt_second]
    simp only [toNanos, nanosPerSecond] at hk hnano
    omega
  · rwa [toInt_ofInt_second]
  · rw [le_iff_toNanos_le]
    omega
  · omega

/-- The second of an end that was not given, in words. -/
theorem toInt_second_add_defaultSeconds (t : Instant) :
    (Int64.ofInt t.second + Int64.ofInt defaultSeconds).toInt = t.second + defaultSeconds := by
  have hge := t.second_ge
  have hle := t.second_le
  rw [← Int64.ofInt_add]
  simp only [minSecond, maxSecond, defaultSeconds] at *
  exact Int64.toInt_ofInt_of_le (by omega) (by omega)

end Instant

/-- The second written of a time is read as its start. -/
theorem Stamp.ofSecond?_second (t : Stamp) :
    Instant.ofSecond? (Int64.ofInt (TimeScale.second t)).toInt = some t.start := by
  have hword : (Int64.ofInt (TimeScale.second t)).toInt = t.second := t.start.toInt_ofInt_second
  rw [hword]
  exact dif_pos ⟨⟨t.second_ge, t.second_le⟩, by decide⟩

namespace Scheduler

/-- As an action is armed, the worker is told that it is due at `due`. -/
def Arms (s : Scheduler) (now : Instant) (id : SilenceId) (endsAt : Instant) (due : Int) : Prop :=
  (s.arm now id endsAt).2.1.channel = s.channel.send (.arm due ⟨id, (s.arm now id endsAt).1⟩)

theorem arms_iff {s : Scheduler} {now : Instant} {id : SilenceId} {endsAt : Instant} {due : Int} :
    s.Arms now id endsAt due ↔
      s.phase.listens = true ∧ due = now.toNanos + now.delayFrom endsAt := by
  rw [Arms, arm_eq]
  by_cases hl : s.phase.listens = true
  · simp [send, hl, Channel.send, eq_comm]
  · -- nothing is sent, and no channel is what it is with one more command
    simpa [send, hl] using (s.channel.send_ne _).symm

end Scheduler

namespace Silence

/-- How far off the end of a silence is when the clock shows `now`, for all who ask. -/
structure Reckoned (now : Instant) (x : Silence) : Prop where
  fits : (x.endsAt.since now).Fits
  difference : (x.endsAt.since now).toNanos = x.endsAt.toNanos - now.toNanos
  remaining : (x.remaining now : Int) = max 0 (x.endsAt.toNanos - now.toNanos)
  armed : ∀ (s : Scheduler) (id : SilenceId) (due : Int),
    s.Arms now id x.endsAt due ↔ s.phase.listens = true ∧ due = now.toNanos + x.remaining now
  expired : x.isExpired now = true ↔ x.remaining now = 0

theorem reckoned (now : Instant) (x : Silence) : x.Reckoned now where
  fits := x.endsAt.fits_since now
  difference := x.endsAt.toNanos_since now
  remaining := now.delayFrom_eq_max x.endsAt
  armed _ _ _ := Scheduler.arms_iff
  expired := by
    rw [SilenceOf.isExpired, decide_eq_true_eq, SilenceOf.remaining, Instant.timeScale_delayFrom,
      Instant.delayFrom_eq_zero_iff]

/-- What ends no later is due no later, also if another worker is told of it. -/
theorem due_le_due {now : Instant} {x y : Silence} (h : x.endsAt ≤ y.endsAt) {s s' : Scheduler}
    {id id' : SilenceId} {due due' : Int} (hx : s.Arms now id x.endsAt due)
    (hy : s'.Arms now id' y.endsAt due') : due ≤ due' := by
  have hdelay := now.delayFrom_le_delayFrom h
  obtain ⟨-, rfl⟩ := Scheduler.arms_iff.1 hx
  obtain ⟨-, rfl⟩ := Scheduler.arms_iff.1 hy
  omega

/-- What holds of a silence also if its times, or the one it is asked at, are in leap seconds; but
for what is past only if they are not. -/
structure Measured (now : Stamp) (x : SilenceOf Stamp) : Prop where
  fits : (x.endsAt.since now).Fits
  remaining : (x.remaining now : Int) = max 0 (x.endsAt.since now).toNanos
  expired : x.endsAt.isLeap = false → now.isLeap = false →
    (x.isExpired now = true ↔ x.remaining now = 0)
  created : ∃ u, Instant.ofSecond? (Record.ofSilence x).createdAtSeconds.toInt = some u ∧
    x.createdAt.IsFloor u
  ends : ∃ u, Instant.ofSecond? (Record.ofSilence x).endsAtSeconds.toInt = some u ∧
    x.endsAt.IsFloor u

theorem measured (now : Stamp) (x : SilenceOf Stamp) : Measured now x where
  fits := x.endsAt.fits_since now
  remaining := Stamp.delayFrom_eq_max now x.endsAt
  expired hends hnow := by
    obtain ⟨u, hu⟩ := Stamp.exists_ofInstant_eq hends
    obtain ⟨v, rfl⟩ := Stamp.exists_ofInstant_eq hnow
    rw [SilenceOf.isExpired, decide_eq_true_eq, SilenceOf.remaining, ← hu,
      Stamp.delayFrom_ofInstant, Instant.delayFrom_eq_zero_iff]
    rfl
  created := ⟨_, x.createdAt.ofSecond?_second, x.createdAt.isFloor_start⟩
  ends := ⟨_, x.endsAt.ofSecond?_second, x.endsAt.isFloor_start⟩

/-- When the clock shows `now`, the end of any silence is equally far off for all who ask, and of
two silences the one that ends no later is due no later. The seconds written of a silence are those
that its times are in, and the second of an end that was not given fits its word as well. With leap
seconds what is left is still the time that lies between, if it lies ahead, and fits its word; and
what is written is read as the start of a second, the last that the time is not before. -/
theorem times_reckoned_alike (now : Instant) (x y : Silence) :
    x.Reckoned now ∧
      (x.endsAt ≤ y.endsAt → x.remaining now ≤ y.remaining now ∧
        ∀ (s s' : Scheduler) (id id' : SilenceId) (due due' : Int),
          s.Arms now id x.endsAt due → s'.Arms now id' y.endsAt due' → due ≤ due') ∧
      x.createdAt.IsIn (Record.ofSilence x).createdAtSeconds ∧
      x.endsAt.IsIn (Record.ofSilence x).endsAtSeconds ∧
      (Int64.ofInt now.second + Int64.ofInt defaultSeconds).toInt = now.second + defaultSeconds ∧
      ∀ (now' : Stamp) (z : SilenceOf Stamp), Measured now' z := by
  refine ⟨x.reckoned now, fun h => ⟨now.delayFrom_le_delayFrom h, ?_⟩, x.createdAt.isIn_second,
    x.endsAt.isIn_second, now.toInt_second_add_defaultSeconds, fun now' z => measured now' z⟩
  intro s s' id id' due due' hx hy
  exact due_le_due h hx hy

/-- From the first second of the calendar, with a second to borrow, half a second before the epoch is
due before the last nanosecond of all. -/
theorem times_reckoned_alike_across_the_calendar :
    let now : Instant := ⟨minSecond, 999999999, by decide, by decide, by decide⟩
    let x : Silence := .new now "ops" ⟨-1, 500000000, by decide, by decide, by decide⟩
    let y : Silence := .new now "ops" ⟨maxSecond, 999999999, by decide, by decide, by decide⟩
    let s := (Scheduler.new.arm now ⟨1⟩ y.endsAt).2.1
    x.endsAt ≤ y.endsAt ∧ x.remaining now ≤ y.remaining now ∧
      x.remaining now = 8334601228798500000001 ∧
      Scheduler.new.Arms now ⟨1⟩ y.endsAt 8210266876799999999999 ∧
      s.Arms now ⟨2⟩ x.endsAt (-500000000) ∧ (-500000000 : Int) ≤ 8210266876799999999999 ∧
      (Record.ofSilence x).endsAtSeconds = -1 ∧ x.endsAt.IsIn (-1) := by
  intro now x y s
  obtain ⟨hx, hmono, -, hsecond, -, -⟩ := times_reckoned_alike now x y
  obtain ⟨hy, -⟩ := times_reckoned_alike now y x
  have hle : x.endsAt ≤ y.endsAt := by decide
  have hremaining : x.remaining now = 8334601228798500000001 := by decide
  have hdueY : Scheduler.new.Arms now ⟨1⟩ y.endsAt 8210266876799999999999 :=
    (hy.armed _ _ _).2 ⟨rfl, by decide⟩
  have hdueX : s.Arms now ⟨2⟩ x.endsAt (-500000000) :=
    (hx.armed _ _ _).2 ⟨by decide, by decide⟩
  obtain ⟨hdelay, hdue⟩ := hmono hle
  exact ⟨hle, hdelay, hremaining, hdueY, hdueX, hdue _ _ _ _ _ _ hdueX hdueY, by decide, hsecond⟩

/-- An end half a second into a leap second is past a fifth of a second into the next second, and yet
three tenths of a second ahead; what ends later has nothing left then. The second written is
one and a half seconds before the end. -/
theorem expired_with_time_left :
    let now : Stamp := ⟨1483228800, 200000000, by decide, by decide, by decide⟩
    let leap : Stamp := ⟨1483228799, 1500000000, by decide, by decide, by decide⟩
    let next : Stamp := ⟨1483228800, 0, by decide, by decide, by decide⟩
    let x : SilenceOf Stamp := ⟨.unset, "ops", now, leap, "", .none⟩
    let y : SilenceOf Stamp := ⟨.unset, "ops", now, next, "", .none⟩
    x.isExpired now = true ∧ x.remaining now = 300000000 ∧
      x.endsAt ≤ y.endsAt ∧ y.remaining now = 0 ∧
      (Record.ofSilence x).endsAtSeconds = 1483228799 ∧
      (leap.since (.ofInstant leap.start)).toNanos = 1500000000 := by
  decide

end Silence

end AlertSilences
