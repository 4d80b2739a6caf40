import AlertSilences.Proofs.Coupling

/-! The worker catches up. With the clock standing still every step brings it nearer to the
point where it waits with nothing before it that is due, and the steps that it is given
are enough to get there. -/

namespace AlertSilences

/-- Steps that are left before the worker waits again, apart from those for what is queued or on
its way. A sweep that goes by an earlier time may have to be followed by another. -/
def Phase.ahead (now : Int) (due : Bool) : Phase → Nat
  | .waiting => if due then 3 else 0
  | .received _ => 5
  | .checking => 2
  | .sweeping asOf => if asOf = now then 1 else 4
  | .delivering asOf .. => if asOf = now then 2 else 5
  | _ => 0

theorem Phase.ahead_le (now : Int) (due : Bool) (p : Phase) : p.ahead now due ≤ 5 := by
  cases p with
  | waiting | sweeping | delivering =>
    simp only [ahead]
    split_ifs <;> omega
  | _ => simp [ahead]

namespace Queue

@[simp] theorem length_entries (q : Queue) : q.entries.length = q.size :=
  Std.ExtTreeMap.length_toList

theorem size_push_le {q : Queue} (h : q.Ordered) (actions : Actions) (due : Int) (task : Task) :
    (q.push actions due task).size ≤ q.size + 1 := by
  have henter : (q.enter due task).entries.length = q.entries.length + 1 :=
    (entries_enter h due task).length_eq
  rw [← length_entries, ← length_entries, ← henter, push]
  exact (sublist_prune actions (q.enter due task)).length_le

theorem size_of_popDue? {q q' : Queue} {now : Int} {e : Entry}
    (h : q.popDue? now = some (e, q')) : q.size = q'.size + 1 := by
  rw [← length_entries, (entries_of_popDue? h).1, List.length_cons, length_entries]

end Queue

theorem Channel.size_of_receive? {c d : Channel Command} {a : Command}
    (h : c.receive? = some (a, d)) : c.size = d.size + 1 := by
  rw [size_eq_length_toList, toList_of_receive? h, List.length_cons, size_eq_length_toList]

namespace Scheduler

def ahead (now : Int) (s : Scheduler) : Nat :=
  6 * s.channel.size + 2 * s.queue.size + s.phase.ahead now (s.queue.popDue? now).isSome

theorem ahead_le_work (now : Int) (s : Scheduler) : s.ahead now ≤ s.work := by
  have := s.phase.ahead_le now (s.queue.popDue? now).isSome
  unfold ahead work
  omega

theorem Advance.ahead_lt {now : Int} {s s' : Scheduler} {log : Log} (h : s.Advance now s' log)
    (hs : s.Sound) : s'.ahead now < s.ahead now := by
  unfold ahead
  cases h with
  | receive hp hc =>
    have := Channel.size_of_receive? hc
    simp only [hp, Phase.ahead]
    split_ifs <;> omega
  | wake hp hc hq => simp [hp, hq, Phase.ahead]
  | @push due task hp =>
    have := Queue.size_push_le hs.ordered s.actions due task
    simp only [hp, Phase.ahead]
    omega
  | halt hp => exact absurd hs.working (by simp [hp, Phase.working])
  | look hp => simp [hp, Phase.ahead]
  | rest hp hq =>
    simp only [hp, Phase.ahead]
    split_ifs with hdue hnow
    -- a sweep by the present time has left nothing that is due
    · rw [← hnow, hq] at hdue
      cases hdue
    · omega
    · omega
    · omega
  | hand hp hq =>
    have := Queue.size_of_popDue? hq
    simp only [hp, Phase.ahead]
    split_ifs <;> omega
  | skip hp hq =>
    have := Queue.size_of_popDue? hq
    simp only [hp, Phase.ahead]
    split_ifs <;> omega

end Scheduler

/-- Steps that bring something down, and are given in that number, lead to where there are none. -/
theorem step?_settle_eq_none {σ : Type} {step? : σ → Option (σ × Log)} (Inv : σ → Prop)
    (measure : σ → Nat)
    (hstep : ∀ s s' log, Inv s → step? s = some (s', log) → Inv s' ∧ measure s' < measure s)
    {count : Nat} {s : σ} (hs : Inv s) (hle : measure s ≤ count) :
    step? (settle step? count s).1 = none := by
  induction count generalizing s with
  | zero =>
    cases h : step? s with
    | none => exact h
    | some next =>
      have hlt := (hstep s next.1 next.2 hs h).2
      omega
  | succ count ih =>
    rw [settle_succ]
    cases h : step? s with
    | none => exact h
    | some next =>
      obtain ⟨hnext, hlt⟩ := hstep s next.1 next.2 hs h
      exact ih hnext (by omega)

namespace Registry

/-- The worker waits, nothing is on its way to it, and nothing that it has queued is due. -/
structure CaughtUp (now : Instant) (r : Registry) : Prop where
  waiting : r.scheduler.phase = .waiting
  received : r.scheduler.channel.toList = []
  swept : r.scheduler.queue.popDue? now.toNanos = none

theorem Work.ahead_lt {now : Instant} {r r' : Registry} {log : Log} (h : r.Work now r' log)
    (hs : r.scheduler.Sound) :
    r'.scheduler.ahead now.toNanos < r.scheduler.ahead now.toNanos := by
  have hresume {asOf : Int} {turn : Turn} {task : Task}
      (hp : r.scheduler.phase = .delivering asOf turn task) :
      (r.sweepOn asOf).scheduler.ahead now.toNanos < r.scheduler.ahead now.toNanos := by
    simp only [Registry.sweepOn, Scheduler.ahead, hp, Phase.ahead]
    split_ifs <;> omega
  cases h with
  | advance ha => exact ha.ahead_lt hs
  | @expire _ _ task hp =>
    obtain ⟨stopped, he⟩ := removeRecord_eq r task.id
    rw [he]
    exact hresume hp
  | pass hp => exact hresume hp

/-- A worker that can take no step has caught up. -/
theorem caughtUp_of_step?_eq_none {now : Instant} {r : Registry} (hs : r.scheduler.Sound)
    (h : r.step? now = none) : r.CaughtUp now := by
  have hw := hs.working
  cases hp : r.scheduler.phase with
  | waiting =>
    cases hc : r.scheduler.channel.receive? with
    | some next => simp [step?, Scheduler.step?, hp, hc] at h
    | none =>
      cases hq : r.scheduler.queue.popDue? now.toNanos with
      | some next => simp [step?, Scheduler.step?, hp, hc, hq] at h
      | none => exact ⟨hp, Channel.receive?_eq_none_iff.1 hc, hq⟩
  | received command =>
    cases command <;> simp [step?, Scheduler.step?, hp] at h
  | checking => simp [step?, Scheduler.step?, hp] at h
  | sweeping asOf =>
    cases hq : r.scheduler.queue.popDue? asOf <;> simp [step?, Scheduler.step?, hp, hq] at h
  | delivering => simp [step?, hp] at h
  | _ => simp [hp, Phase.working] at hw

end Registry

/-- With the clock standing still the worker catches up. -/
theorem Run.settled {history : History} {r : Registry} (run : Run history r) (now : Instant) :
    ∃ work : History, (∀ m ∈ work, m.now = now ∧ m.move = .work) ∧
      Run (work ++ history) (r.settled now).1 ∧ (r.settled now).1.CaughtUp now := by
  obtain ⟨work, hwork, hrun⟩ := run.settle now r.scheduler.work
  refine ⟨work, hwork, hrun, ?_⟩
  apply Registry.caughtUp_of_step?_eq_none hrun.coupled.sound
  refine step?_settle_eq_none Registry.Coupled (fun r => r.scheduler.ahead now.toNanos) ?_
    run.coupled (r.scheduler.ahead_le_work now.toNanos)
  intro s s' log hs hstep
  have hw := Registry.work_of_step? hstep
  exact ⟨hs.work hw, hw.ahead_lt hs.sound⟩

end AlertSilences
