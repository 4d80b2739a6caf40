import AlertSilences.Proofs.Progress
import AlertSilences.Proofs.Versions

/-! Expiry is complete once the worker has caught up. All that it has done by then is to remove
records whose action was armed and whose end has come; and no armed action that is due can be
left, since it would still be pending. -/

namespace AlertSilences

namespace Registry

/-- What the worker makes of a registry by `now`: it removes records, armed ones past their end,
and leaves the others alone. -/
structure Swept (now : Instant) (r q : Registry) : Prop where
  kept : ∀ (id : SilenceId) (stored : Stored), q.records[id]? = some stored →
    r.records[id]? = some stored ∧ q.isArmed stored.handle = r.isArmed stored.handle
  gone : ∀ (id : SilenceId) (stored : Stored), r.records[id]? = some stored →
    q.records[id]? = none → r.isArmed stored.handle = true ∧ stored.silence.endsAt ≤ now
  lastId : q.lastId = r.lastId

theorem Swept.refl (now : Instant) (r : Registry) : r.Swept now r :=
  ⟨fun _ _ hr => ⟨hr, rfl⟩, fun _ _ hr hn => absurd (hr.symm.trans hn) nofun, rfl⟩

theorem Swept.work {now clock : Instant} {r q q' : Registry} {log : Log} (h : r.Swept now q)
    (hc : q.Coupled) (ht : q.Timed now.toNanos) (hw : q.Work clock q' log) : r.Swept now q' := by
  cases hw with
  | advance ha =>
    refine ⟨fun id stored hq => ?_, h.gone, h.lastId⟩
    obtain ⟨hr, harm⟩ := h.kept id stored hq
    refine ⟨hr, ?_⟩
    rw [← harm]
    simp only [isArmed, Scheduler.isArmed, ha.actions_eq]
  | pass => exact ⟨h.kept, h.gone, h.lastId⟩
  | @expire _ _ task hp hcur =>
    obtain ⟨stored, hq, hh, harm⟩ := hc.stored_of_isCurrent hp hcur
    constructor
    · intro id other ho
      replace ho : (q.removeRecord task.id).records[id]? = some other := ho
      rw [records_removeRecord, OrderedMap.getElem?_erase] at ho
      split_ifs at ho with hid
      obtain ⟨hr, heq⟩ := h.kept id other ho
      exact ⟨hr, (hc.isArmed_removeRecord_of_ne ho hid).trans heq⟩
    · intro id other hr hn
      replace hn : (q.removeRecord task.id).records[id]? = none := hn
      rw [records_removeRecord, OrderedMap.getElem?_erase] at hn
      split_ifs at hn with hid
      -- the record that goes in this step, then those that went before
      · subst hid
        obtain ⟨hr', heq⟩ := h.kept task.id stored hq
        obtain rfl := Option.some.inj (hr.symm.trans hr')
        refine ⟨by rw [← heq, hh, harm], ?_⟩
        rw [Instant.le_iff_toNanos_le, ← hc.stored_endsAt task.id other hq, hh]
        exact ht.endsAt_le_of_delivering hp
      · exact h.gone id other hr hn
    · obtain ⟨stopped, he⟩ := removeRecord_eq q task.id
      rw [← h.lastId, he]
      rfl

/-- Nothing armed is past its end once the worker has caught up. -/
theorem CaughtUp.not_endsAt_le {now : Instant} {q : Registry} (h : q.CaughtUp now) (hc : q.Coupled)
    (ht : q.Timed now.toNanos) {id : SilenceId} {stored : Stored}
    (hq : q.records[id]? = some stored) (harm : q.isArmed stored.handle = true) :
    ¬stored.silence.endsAt ≤ now := by
  intro hle
  -- its action is pending, and with the worker waiting that means queued
  obtain ⟨p, hp, htask⟩ := hc.stored_pending id stored hq harm
  have hdue := ht.due p hp
  rw [htask] at hdue
  rw [← hc.stored_endsAt id stored hq, Instant.le_iff_toNanos_le] at hle
  rw [pending, Scheduler.pending, h.waiting, h.received] at hp
  have hlt := Queue.lt_due_of_popDue?_eq_none h.swept p (by simpa [Phase.pending] using hp)
  dsimp only at hdue
  omega

theorem Swept.records_eq {now : Instant} {r q : Registry} (h : r.Swept now q) (hc : q.Coupled)
    (ht : q.Timed now.toNanos) (hq : q.CaughtUp now) :
    q.records = r.records.filter fun _ stored =>
      !(r.isArmed stored.handle && decide (stored.silence.endsAt ≤ now)) := by
  apply Std.ExtTreeMap.ext_getElem?
  intro id
  rw [Std.ExtTreeMap.getElem?_filter']
  cases hid : q.records[id]? with
  | some stored =>
    obtain ⟨hr, harm⟩ := h.kept id stored hid
    have hkeep : (r.isArmed stored.handle && decide (stored.silence.endsAt ≤ now)) = false := by
      rw [Bool.and_eq_false_iff, ← harm, decide_eq_false_iff_not]
      by_cases hs : q.isArmed stored.handle = true
      · exact Or.inr (hq.not_endsAt_le hc ht hid hs)
      · exact Or.inl (Bool.eq_false_iff.2 hs)
    simp only [hr, Option.filter_some, hkeep, Bool.not_false, if_true]
  | none =>
    cases hr : r.records[id]? with
    | none => rfl
    | some stored =>
      obtain ⟨harm, hle⟩ := h.gone id stored hr hid
      simp [harm, hle, Option.filter_some]

end Registry

/-- Steps of the worker alone only sweep. -/
theorem Run.swept {history work : History} {r q : Registry} {now : Instant} (run : Run history r)
    (hwork : ∀ m ∈ work, m.move = .work) (clock : History.UpTo now (work ++ history))
    (run' : Run (work ++ history) q) : r.Swept now q := by
  -- the latest step comes first, so each step is taken from a registry that has been swept already
  induction work generalizing q with
  | nil =>
    obtain rfl := run.unique run'
    exact Registry.Swept.refl now r
  | cons m work ih =>
    obtain ⟨hm, hwork⟩ := List.forall_mem_cons.1 hwork
    obtain ⟨-, clock⟩ := List.forall_mem_cons.1 clock
    obtain _ | ⟨before, step⟩ := run'
    rcases Registry.answers_or_work_of_step step with ⟨client, call, hcall, -⟩ | ⟨-, hw⟩
    · rw [hm] at hcall
      cases hcall
    · exact (ih hwork clock before).work before.coupled (before.timed clock) hw

end AlertSilences
