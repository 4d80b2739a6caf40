import AlertSilences.Proofs.Coupling

/-! When actions are due. An action is due at its end, or later if it was past its end as it was
armed, but then the clock has shown that time already. The time a sweep goes by has been
shown as well, and what it hands over was due by then. -/

namespace AlertSilences

namespace Registry

/-- What is due, and when, as long as the clock has shown nothing later than `clock`. -/
structure Timed (clock : Int) (r : Registry) : Prop where
  due : ∀ p ∈ r.pending, p.due = p.task.handle.endsAt.toNanos ∨
    p.task.handle.endsAt.toNanos ≤ p.due ∧ p.due ≤ clock
  sweeping : ∀ asOf, r.scheduler.phase = .sweeping asOf → asOf ≤ clock
  delivering : ∀ asOf turn task, r.scheduler.phase = .delivering asOf turn task →
    turn.due ≤ asOf ∧ asOf ≤ clock

theorem timed_empty (clock : Int) : empty.Timed clock :=
  ⟨by simp [pending_empty], by rintro _ ⟨⟩, by rintro _ _ _ ⟨⟩⟩

theorem Timed.endsAt_le_due {clock : Int} {r : Registry} (h : r.Timed clock) {p : Pending}
    (hp : p ∈ r.pending) : p.task.handle.endsAt.toNanos ≤ p.due := by
  rcases h.due p hp with heq | ⟨hle, -⟩
  · exact Int.le_of_eq heq.symm
  · exact hle

/-- Nothing is handed over before its end. -/
theorem Timed.endsAt_le_of_delivering {clock : Int} {r : Registry} (h : r.Timed clock) {asOf : Int}
    {turn : Turn} {task : Task} (hp : r.scheduler.phase = .delivering asOf turn task) :
    task.handle.endsAt.toNanos ≤ clock := by
  have hdue := h.endsAt_le_due (mem_pending_of_delivering hp)
  obtain ⟨hturn, hasOf⟩ := h.delivering _ _ _ hp
  dsimp only at hdue
  omega

theorem Timed.of_eq {clock : Int} {r r' : Registry} (h : r.Timed clock)
    (hp : r'.pending = r.pending) (hf : r'.scheduler.phase = r.scheduler.phase) :
    r'.Timed clock :=
  ⟨hp ▸ h.due, hf ▸ h.sweeping, hf ▸ h.delivering⟩

theorem Timed.put {clock : Int} {r : Registry} (h : r.Timed clock)
    (hl : r.scheduler.phase.listens = true) {now : Instant} (hnow : now.toNanos ≤ clock)
    (s : Silence) : (r.put now s).Timed clock := by
  have hphase : (r.put now s).scheduler.phase = r.scheduler.phase := by
    rw [Registry.put, scheduler_store (by rwa [phase_removeRecord]), phase_removeRecord]
  refine ⟨fun p hp => ?_, hphase ▸ h.sweeping, hphase ▸ h.delivering⟩
  rw [pending_put hl] at hp
  rcases List.mem_append.1 hp with hp | hp
  · exact h.due p hp
  · rw [List.mem_singleton.1 hp]
    simp only [nextHandle]
    omega

theorem Timed.stopAll {clock : Int} {r : Registry} (h : r.Timed clock) (hs : List Handle) :
    (r.stopAll hs).Timed clock := by
  obtain ⟨stopped, he⟩ := stopAll_eq r hs
  exact h.of_eq (by rw [pending, he]; rfl) (by rw [he])

theorem Timed.effect {clock : Int} {now : Instant} {r r' : Registry} {call : Call}
    (h : r.Timed clock) (hl : r.scheduler.phase.listens = true) (hnow : now.toNanos ≤ clock)
    (he : r.Effect now call r') : r'.Timed clock := by
  cases he with
  | none => exact h
  | put _ lastId =>
    have hr : { r with lastId }.Timed clock := h.of_eq rfl rfl
    exact hr.put hl hnow _
  | remove _ _ id => exact h.of_eq (pending_removeRecord r id) (phase_removeRecord r id)
  | close => exact h.stopAll _
  | clear => exact (h.stopAll r.handles).of_eq rfl rfl

/-- The worker may move on, as long as nothing pending is added and its clock is kept. -/
theorem Timed.advance {clock : Int} {now : Int} {r : Registry} {s : Scheduler} {log : Log}
    (h : r.Timed clock) (hs : r.scheduler.Sound) (hnow : now ≤ clock)
    (ha : r.scheduler.Advance now s log) : { r with scheduler := s }.Timed clock := by
  obtain ⟨dropped, hperm, -⟩ := ha.pending_perm hs
  have hdue : ∀ p ∈ s.pending, p.due = p.task.handle.endsAt.toNanos ∨
      p.task.handle.endsAt.toNanos ≤ p.due ∧ p.due ≤ clock :=
    fun p hp => h.due p (hperm.mem_iff.2 (List.mem_append_right _ hp))
  cases ha with
  | look => exact ⟨hdue, by rintro _ ⟨⟩; exact hnow, by rintro _ _ _ ⟨⟩⟩
  | hand hp hq =>
    refine ⟨hdue, by rintro _ ⟨⟩, ?_⟩
    rintro _ _ _ ⟨⟩
    exact ⟨(Queue.entries_of_popDue? hq).2.1, h.sweeping _ hp⟩
  | skip hp => exact ⟨hdue, by rintro _ ⟨⟩; exact h.sweeping _ hp, by rintro _ _ _ ⟨⟩⟩
  | _ => exact ⟨hdue, by rintro _ ⟨⟩, by rintro _ _ _ ⟨⟩⟩

theorem Timed.sweepOn {clock : Int} {r : Registry} (h : r.Timed clock) {asOf : Int} {turn : Turn}
    {task : Task} (hp : r.scheduler.phase = .delivering asOf turn task) :
    (r.sweepOn asOf).Timed clock := by
  refine ⟨fun p hm => h.due p ?_, by rintro _ ⟨⟩; exact (h.delivering _ _ _ hp).2, by rintro _ _ _ ⟨⟩⟩
  rw [pending, Scheduler.pending, hp, List.append_assoc]
  exact List.mem_append_right _ hm

theorem Timed.work {clock : Int} {now : Instant} {r r' : Registry} {log : Log} (h : r.Timed clock)
    (hs : r.scheduler.Sound) (hnow : now.toNanos ≤ clock) (hw : r.Work now r' log) :
    r'.Timed clock := by
  cases hw with
  | advance ha => exact h.advance hs hnow ha
  | @expire _ turn task hp =>
    have hr := h.of_eq (pending_removeRecord r task.id) (phase_removeRecord r task.id)
    exact hr.sweepOn ((phase_removeRecord r task.id).trans hp)
  | pass hp => exact h.sweepOn hp

end Registry

theorem Run.timed {history : History} {r : Registry} (run : Run history r) {now : Instant}
    (hclock : history.UpTo now) : r.Timed now.toNanos := by
  induction run with
  | nil => exact Registry.timed_empty _
  | @snoc history r r' m run step ih =>
    obtain ⟨hlast, hpast⟩ := List.forall_mem_cons.1 hclock
    have hnow := Instant.le_iff_toNanos_le.1 hlast
    have hs := run.coupled.sound
    rcases Registry.answers_or_work_of_step step with ⟨client, call, -, ha⟩ | ⟨-, hw⟩
    · exact (ih hpast).effect (Phase.listens_of_working hs.working) hnow
        (Registry.effect_of_answers ha)
    · exact (ih hpast).work hs hnow hw

end AlertSilences
