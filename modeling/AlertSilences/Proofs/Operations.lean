import AlertSilences.Proofs.Clock
import AlertSilences.Proofs.Pending
import AlertSilences.Registry

/-! What the operations of the registry do to its records, to its actions and to what is
pending. Whatever stores a silence first removes the record in its place, so that storing
and removing are all that other proofs have to look at. -/

namespace AlertSilences

/-- Handles are of the same action if their numbers are equal, whatever times they name. -/
@[simp] theorem Handle.same_iff {g h : Handle} : g.same h = true ↔ g.index = h.index := by
  simp [same]

namespace Actions

@[simp] theorem isArmed_disarm (t : Actions) (g h : Handle) :
    (t.disarm g).isArmed h = true ↔ t.isArmed h = true ∧ g.index ≠ h.index := by
  simp [isArmed, disarm, Std.ExtTreeSet.contains_insert, and_comm]

theorem isArmed_of_same {g h : Handle} (hs : g.same h = true) (t : Actions) :
    t.isArmed g = t.isArmed h := by
  simp only [isArmed, Handle.same_iff.1 hs]

/-- Stopping an action twice is stopping it once. -/
theorem disarm_of_isArmed_eq_false {t : Actions} {h : Handle} (hs : t.isArmed h = false) :
    t.disarm h = t := by
  have : t.stopped.insert h.index = t.stopped := by
    ext i
    rw [Std.ExtTreeSet.mem_insert]
    simp [isArmed] at hs
    refine ⟨?_, Or.inr⟩
    rintro (hi | hi)
    · exact Std.LawfulEqCmp.eq_of_compare hi ▸ hs
    · exact hi
  rw [disarm, this]

end Actions

namespace Registry

def isArmed (r : Registry) (h : Handle) : Bool := r.scheduler.isArmed h

def pending (r : Registry) : List Pending := r.scheduler.pending

def nextHandle (r : Registry) (endsAt : Instant) : Handle := ⟨r.scheduler.actions.issued, endsAt⟩

@[simp] theorem isArmed_stopAction (r : Registry) (g h : Handle) :
    (r.stopAction g).isArmed h = true ↔ r.isArmed h = true ∧ g.index ≠ h.index :=
  Actions.isArmed_disarm _ g h

@[simp] theorem stopAll_cons (r : Registry) (h : Handle) (hs : List Handle) :
    r.stopAll (h :: hs) = (r.stopAction h).stopAll hs := rfl

theorem isArmed_stopAll (r : Registry) (hs : List Handle) (h : Handle) :
    (r.stopAll hs).isArmed h = true ↔ r.isArmed h = true ∧ ∀ g ∈ hs, g.index ≠ h.index := by
  induction hs generalizing r with
  | nil => simp [stopAll]
  | cons g hs ih =>
    rw [stopAll_cons, ih, isArmed_stopAction]
    simp [and_assoc]

/-- Stopping actions changes nothing but which of them are armed. -/
theorem stopAll_eq (r : Registry) (hs : List Handle) :
    ∃ stopped, r.stopAll hs = { r with scheduler := { r.scheduler with
      actions := { r.scheduler.actions with stopped } } } := by
  induction hs generalizing r with
  | nil => exact ⟨r.scheduler.actions.stopped, rfl⟩
  | cons g hs ih =>
    obtain ⟨stopped, h⟩ := ih (r.stopAction g)
    exact ⟨stopped, by rw [stopAll_cons, h]; rfl⟩

theorem mem_handles {r : Registry} {h : Handle} :
    h ∈ r.handles ↔
      ∃ (id : SilenceId) (stored : Stored), r.records[id]? = some stored ∧ stored.handle = h := by
  simp [handles, OrderedMap.values_eq_map_snd]

@[simp] theorem records_removeRecord (r : Registry) (id : SilenceId) :
    (r.removeRecord id).records = r.records.erase id := by
  unfold removeRecord
  split
  · rename_i h
    rw [OrderedMap.erase_of_getElem?_eq_none h]
  · rfl

/-- A removal stops the action of the record and leaves all else of the scheduler as it was. -/
theorem removeRecord_eq (r : Registry) (id : SilenceId) :
    ∃ stopped, r.removeRecord id = ⟨r.records.erase id, r.lastId, { r.scheduler with
      actions := { r.scheduler.actions with stopped } }⟩ := by
  refine ⟨(r.removeRecord id).scheduler.actions.stopped, ?_⟩
  rw [← records_removeRecord]
  unfold removeRecord
  split <;> rfl

theorem isArmed_removeRecord (r : Registry) (id : SilenceId) (h : Handle) :
    (r.removeRecord id).isArmed h = true ↔
      r.isArmed h = true ∧ ∀ stored, r.records[id]? = some stored → stored.handle.index ≠ h.index := by
  unfold removeRecord
  split
  · rename_i hn
    simp [hn]
  · rename_i stored hs
    rw [isArmed_stopAction]
    simp [hs, isArmed]

/-- Puts a silence under its id, in the place of the record that may be there. -/
def put (now : Instant) (s : Silence) (r : Registry) : Registry :=
  ((r.removeRecord s.id).store now s).1

@[simp] theorem records_store (now : Instant) (s : Silence) (r : Registry) :
    (r.store now s).1.records = r.records.insert s.id ⟨s, r.nextHandle s.endsAt⟩ := by
  rw [store, Scheduler.arm_eq]
  rfl

@[simp] theorem lastId_store (now : Instant) (s : Silence) (r : Registry) :
    (r.store now s).1.lastId = r.lastId := rfl

/-- A worker that listens gets a command for every silence that is stored. -/
theorem scheduler_store {r : Registry} (h : r.scheduler.phase.listens = true) (now : Instant)
    (s : Silence) :
    (r.store now s).1.scheduler = { r.scheduler with
      actions := ⟨r.scheduler.actions.issued + 1, r.scheduler.actions.stopped⟩
      channel := r.scheduler.channel.send
        (.arm (max now.toNanos s.endsAt.toNanos) ⟨s.id, r.nextHandle s.endsAt⟩) } := by
  unfold store
  simp only [Scheduler.arm_eq, Instant.toNanos_add_delayFrom, Scheduler.send, h, if_true]
  rfl

theorem pending_store {r : Registry} (h : r.scheduler.phase.listens = true) (now : Instant)
    (s : Silence) :
    (r.store now s).1.pending =
      r.pending ++ [⟨max now.toNanos s.endsAt.toNanos, ⟨s.id, r.nextHandle s.endsAt⟩⟩] := by
  rw [pending, scheduler_store h]
  simp only [Scheduler.pending, pending, Channel.toList_send, List.flatMap_append,
    List.append_assoc]
  rfl

theorem isArmed_store {r : Registry} (h : r.scheduler.phase.listens = true) (now : Instant)
    (s : Silence) (g : Handle) : (r.store now s).1.isArmed g = r.isArmed g := by
  rw [isArmed, scheduler_store h]
  rfl

/-- It makes no difference whether an action is stopped before the next one is issued or after. -/
theorem stopAction_store (now : Instant) (s : Silence) (h : Handle) (r : Registry) :
    (r.store now s).1.stopAction h = ((r.stopAction h).store now s).1 := by
  simp only [store, stopAction, Scheduler.arm_eq, Scheduler.send, Scheduler.stop]
  split_ifs <;> rfl

@[simp] theorem phase_removeRecord (r : Registry) (id : SilenceId) :
    (r.removeRecord id).scheduler.phase = r.scheduler.phase := by
  obtain ⟨stopped, he⟩ := removeRecord_eq r id
  rw [he]

@[simp] theorem issued_removeRecord (r : Registry) (id : SilenceId) :
    (r.removeRecord id).scheduler.actions.issued = r.scheduler.actions.issued := by
  obtain ⟨stopped, he⟩ := removeRecord_eq r id
  rw [he]

theorem pending_removeRecord (r : Registry) (id : SilenceId) :
    (r.removeRecord id).pending = r.pending := by
  obtain ⟨stopped, he⟩ := removeRecord_eq r id
  rw [pending, he]
  rfl

@[simp] theorem lastId_removeRecord (r : Registry) (id : SilenceId) :
    (r.removeRecord id).lastId = r.lastId := by
  obtain ⟨stopped, he⟩ := removeRecord_eq r id
  rw [he]

@[simp] theorem records_put (now : Instant) (s : Silence) (r : Registry) :
    (r.put now s).records = r.records.insert s.id ⟨s, r.nextHandle s.endsAt⟩ := by
  rw [put, records_store, records_removeRecord, OrderedMap.insert_erase, nextHandle,
    issued_removeRecord, nextHandle]

@[simp] theorem lastId_put (now : Instant) (s : Silence) (r : Registry) :
    (r.put now s).lastId = r.lastId := by
  rw [put, lastId_store, lastId_removeRecord]

theorem issued_put {r : Registry} (h : r.scheduler.phase.listens = true) (now : Instant)
    (s : Silence) :
    (r.put now s).scheduler.actions.issued = r.scheduler.actions.issued + 1 := by
  rw [put, scheduler_store (by rwa [phase_removeRecord])]
  exact congrArg (· + 1) (issued_removeRecord r s.id)

theorem pending_put {r : Registry} (h : r.scheduler.phase.listens = true) (now : Instant)
    (s : Silence) :
    (r.put now s).pending =
      r.pending ++ [⟨max now.toNanos s.endsAt.toNanos, ⟨s.id, r.nextHandle s.endsAt⟩⟩] := by
  rw [put, pending_store (by rwa [phase_removeRecord]), pending_removeRecord, nextHandle,
    issued_removeRecord, nextHandle]

theorem isArmed_put {r : Registry} (h : r.scheduler.phase.listens = true) (now : Instant)
    (s : Silence) (g : Handle) : (r.put now s).isArmed g = (r.removeRecord s.id).isArmed g := by
  rw [put, isArmed_store (by rwa [phase_removeRecord])]

theorem put_of_none {r : Registry} {s : Silence} (h : r.records[s.id]? = none) (now : Instant) :
    r.put now s = (r.store now s).1 := by
  rw [put, removeRecord, h]

theorem put_of_some {r : Registry} {s : Silence} {previous : Stored}
    (h : r.records[s.id]? = some previous) (now : Instant) :
    r.put now s = ((r.stopAction previous.handle).store now s).1 := by
  rw [put, removeRecord, h]
  unfold store Scheduler.arm stopAction Scheduler.send
  dsimp only
  rw [OrderedMap.insert_erase]

theorem registry_add (now : Instant) (s : Silence) (r : Registry) :
    (r.add now s).registry = match r.assignId s with
      | .error _ => r
      | .ok (id, lastId) => { r with lastId }.put now { s with id } := by
  rw [add]
  cases r.assignId s with
  | error e => rfl
  | ok assigned =>
    obtain ⟨id, lastId⟩ := assigned
    cases h : r.records[id]? with
    | none =>
      have := put_of_none (r := { r with lastId }) (s := { s with id }) h now
      simp only [h, this]
    | some previous =>
      have := put_of_some (r := { r with lastId }) (s := { s with id }) h now
      simp only [h, this, ← stopAction_store]

theorem registry_update (now : Instant) (s : Silence) (r : Registry) :
    (r.update now s).registry = if r.records[s.id]?.isSome then r.put now s else r := by
  unfold update
  split
  · rename_i h
    simp [h]
  · rename_i previous h
    simp only [h, Option.isSome_some, if_true, put_of_some h now]

@[simp] theorem registry_delete (id : SilenceId) (r : Registry) :
    (r.delete id).registry = r.removeRecord id := by
  unfold delete
  split
  · rename_i h
    rw [removeRecord, h]
  · rfl

theorem answer_add (now : Instant) (s : Silence) (r : Registry) :
    (r.add now s).answer = (r.assignId s).map Prod.fst := by
  rw [add]
  cases r.assignId s with
  | error e => rfl
  | ok assigned => dsimp only; split <;> rfl

theorem answer_update (now : Instant) (s : Silence) (r : Registry) :
    (r.update now s).answer =
      if r.records[s.id]?.isSome then .ok () else .error (.notFound s.id) := by
  rw [update]
  split
  · rename_i h
    rw [h]
    rfl
  · rename_i previous h
    rw [h]
    rfl

theorem answer_delete (id : SilenceId) (r : Registry) :
    (r.delete id).answer = if r.records[id]?.isSome then .ok () else .error (.notFound id) := by
  rw [delete]
  cases r.records[id]? <;> rfl

/-- Whether a task carries the action that its record has now, and nobody stopped it. -/
def IsCurrent (r : Registry) (task : Task) : Prop :=
  ∃ stored, r.records[task.id]? = some stored ∧ stored.handle.same task.handle = true ∧
    r.isArmed task.handle = true

theorem expire_of_isCurrent {r : Registry} {task : Task} (h : r.IsCurrent task) :
    r.expire task.id task.handle = (r.removeRecord task.id, [.expired task.id]) := by
  obtain ⟨stored, hr, hs, ha⟩ := h
  have hsame := Handle.same_iff.1 hs
  have hstop (t : Actions) : (t.disarm task.handle).disarm stored.handle = t.disarm stored.handle := by
    rw [Actions.disarm_of_isArmed_eq_false]
    · simp only [Actions.disarm, hsame]
    · simp [Actions.isArmed, Actions.disarm, hsame]
  have hfirst : (r.scheduler.stop task.handle).1 = true := ha
  unfold expire
  simp only [hr, hs, hfirst, if_true]
  simp only [removeRecord, hr, stopAction, Scheduler.stop, Actions.stop, hstop]

/-- A task that is not current changes nothing at all. -/
theorem expire_of_not_isCurrent {r : Registry} {task : Task} (h : ¬r.IsCurrent task) :
    r.expire task.id task.handle = (r, [.vanished task.id]) ∨
      r.expire task.id task.handle = (r, [.stale task.id]) := by
  unfold expire
  cases hr : r.records[task.id]? with
  | none => exact Or.inl rfl
  | some stored =>
    right
    cases hs : stored.handle.same task.handle with
    | false => simp [hs]
    | true =>
      have ha : r.scheduler.actions.isArmed task.handle = false := by
        rw [Bool.eq_false_iff]
        intro ha
        exact h ⟨stored, hr, hs, ha⟩
      have hfirst : (r.scheduler.stop task.handle).1 = false := ha
      simp only [hs, hfirst, if_true, Bool.false_eq_true, if_false]
      simp only [Scheduler.stop, Actions.stop, Actions.disarm_of_isArmed_eq_false ha]

def sweepOn (asOf : Int) (r : Registry) : Registry :=
  { r with scheduler := { r.scheduler with phase := .sweeping asOf } }

/-- The steps of the worker behind a registry: one of its own, or the removal of a record, or
nothing for a task that is not current any more. -/
inductive Work (now : Instant) (r : Registry) : Registry → Log → Prop
  | advance {s log} (h : r.scheduler.Advance now.toNanos s log) : Work now r { r with scheduler := s } log
  | expire {asOf turn task} (hp : r.scheduler.phase = .delivering asOf turn task)
      (hc : r.IsCurrent task) :
      Work now r ((r.removeRecord task.id).sweepOn asOf) [.expired task.id]
  | pass {asOf turn task log} (hp : r.scheduler.phase = .delivering asOf turn task)
      (hc : ¬r.IsCurrent task) (hl : log = [.vanished task.id] ∨ log = [.stale task.id]) :
      Work now r (r.sweepOn asOf) log

theorem work_of_step? {now : Instant} {r r' : Registry} {log : Log}
    (h : r.step? now = some (r', log)) : r.Work now r' log := by
  unfold step? at h
  split at h
  · rename_i asOf turn task hp
    by_cases hc : r.IsCurrent task
    · rw [expire_of_isCurrent hc] at h
      obtain ⟨stopped, he⟩ := removeRecord_eq r task.id
      have hresume : (r.removeRecord task.id).scheduler.resume =
          ((r.removeRecord task.id).sweepOn asOf).scheduler := by
        rw [he]
        simp only [Scheduler.resume, sweepOn, hp]
      simp only [hresume, Option.some.injEq, Prod.mk.injEq] at h
      obtain ⟨rfl, rfl⟩ := h
      exact .expire hp hc
    · have hresume : r.scheduler.resume = (r.sweepOn asOf).scheduler := by
        simp only [Scheduler.resume, sweepOn, hp]
      rcases expire_of_not_isCurrent hc with he | he
      · simp only [he, hresume, Option.some.injEq, Prod.mk.injEq] at h
        obtain ⟨rfl, rfl⟩ := h
        exact .pass hp hc (Or.inl rfl)
      · simp only [he, hresume, Option.some.injEq, Prod.mk.injEq] at h
        obtain ⟨rfl, rfl⟩ := h
        exact .pass hp hc (Or.inr rfl)
  · split at h
    · cases h
    · rename_i s log hs
      cases h
      exact .advance (Scheduler.advance_of_step? hs)

end Registry

end AlertSilences
