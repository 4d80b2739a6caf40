import AlertSilences.Proofs.Expiry.Handing
import AlertSilences.Proofs.Expiry.Pruning
import AlertSilences.Proofs.Progress

/-! How long a queue can get. Stopped actions stay in it until they are due, unless it is pruned
before. What bounds it is its peak: the largest number of armed entries that there were as one was
pushed. It does not matter how many actions were stopped, nor when. -/

namespace AlertSilences

namespace Queue

/-- A queue that is below its threshold, which is at most twice the peak. -/
structure Bounded (peak : Nat) (q : Queue) : Prop where
  size_lt : q.size < q.pruneAt
  le_pruneAt : minPruneLength ≤ q.pruneAt
  pruneAt_le : q.pruneAt ≤ max minPruneLength (2 * peak)

theorem Bounded.size_lt_max {peak : Nat} {q : Queue} (h : q.Bounded peak) :
    q.size < max minPruneLength (2 * peak) :=
  Nat.lt_of_lt_of_le h.size_lt h.pruneAt_le

theorem Bounded.mono {peak peak' : Nat} {q : Queue} (h : q.Bounded peak) (hle : peak ≤ peak') :
    q.Bounded peak' := by
  have := h.pruneAt_le
  exact ⟨h.size_lt, h.le_pruneAt, by omega⟩

theorem bounded_empty : empty.Bounded 0 := ⟨by decide, by decide, by decide⟩

/-- A queue is short enough to be left as it is, or it is left with its armed entries. -/
theorem prune_cases (actions : Actions) (q : Queue) :
    (q.size < q.pruneAt ∧ q.prune actions = q) ∨
      (q.prune actions).size = (q.armed actions).length ∧
        (q.prune actions).pruneAt = max minPruneLength (2 * (q.armed actions).length) := by
  let kept := q.tasks.filter fun _ task => actions.isArmed task.handle
  have hkept : kept.size = (q.armed actions).length := by
    rw [← Std.ExtTreeMap.length_toList, Std.ExtTreeMap.toList_filter]
    rfl
  by_cases h : q.size < q.pruneAt
  · exact Or.inl ⟨h, if_pos h⟩
  · right
    rw [prune, if_neg h]
    exact ⟨hkept, congrArg (fun n => max minPruneLength (2 * n)) hkept⟩

theorem Bounded.push {peak : Nat} {q : Queue} (h : q.Bounded peak) (actions : Actions) (due : Int)
    (task : Task) :
    (q.push actions due task).Bounded (max peak ((q.enter due task).armed actions).length) := by
  have hle := h.pruneAt_le
  rw [Queue.push]
  rcases prune_cases actions (q.enter due task) with ⟨hshort, heq⟩ | ⟨hsize, hprune⟩
  · rw [heq]
    exact ⟨hshort, h.le_pruneAt, by simp only [enter]; omega⟩
  · constructor <;> simp only [hsize, hprune, minPruneLength] <;> omega

theorem pruneAt_of_popDue? {q q' : Queue} {now : Int} {e : Entry}
    (h : q.popDue? now = some (e, q')) : q'.pruneAt = q.pruneAt := by
  unfold popDue? at h
  split at h
  · cases h
  · split_ifs at h
    cases h
    rfl

theorem Bounded.popDue? {peak : Nat} {q q' : Queue} {now : Int} {e : Entry} (h : q.Bounded peak)
    (hq : q.popDue? now = some (e, q')) : q'.Bounded peak := by
  have hsize := size_of_popDue? hq
  have hlt := h.size_lt
  have hsame := pruneAt_of_popDue? hq
  exact ⟨by omega, hsame ▸ h.le_pruneAt, hsame ▸ h.pruneAt_le⟩

end Queue

namespace Scheduler

theorem happens_step?_of_beat {s s' : Scheduler} {e : Option Event} (h : Beat Queue.push s e s') :
    Happens step? s e s' := by
  rw [← stepBy?_push]
  exact happens_of_beat h

/-- How many armed entries the queue has as an entry is pushed, with that one. -/
def load (s : Scheduler) : Option Event → Nat
  | some .queued =>
    match s.phase with
    | .received (.arm due task) => ((s.queue.enter due task).armed s.actions).length
    | _ => 0
  | _ => 0

/-- A shift together with its peak, the largest number of armed entries at any push so far. -/
inductive Watched : List Event → Scheduler → Nat → Prop
  | nil : Watched [] new.start 0
  | next {events s e s' peak} (watched : Watched events s peak) (h : Happens step? s e s') :
      Watched (e.toList ++ events) s' (max peak (s.load e))

variable {events : List Event} {s s' : Scheduler} {e : Option Event} {peak : Nat}

theorem load_of_ne (s : Scheduler) (h : e ≠ some .queued) : s.load e = 0 := by
  unfold load
  split
  · exact absurd rfl h
  · rfl

/-- A step without armed entries to push has no say in the peak. -/
theorem Watched.next_of_load (watched : Watched events s peak) (h : Happens step? s e s')
    (hl : s.load e = 0) : Watched (e.toList ++ events) s' peak := by
  have hnext := watched.next h
  rwa [hl, Nat.max_zero] at hnext

theorem bounded_of_beat (h : Beat Queue.push s e s') (hq : s.queue.Bounded peak) :
    s'.queue.Bounded (max peak (s.load e)) := by
  have hsame := hq.mono (Nat.le_max_left peak (s.load e))
  cases h with
  | send c =>
    simpa using hsame
  | @queue due task hp =>
    simp only [load, hp]
    exact hq.push s.actions due task
  | hand _ hpop | skip _ hpop => exact hsame.popDue? hpop
  | _ => exact hsame

theorem Watched.bounded (watched : Watched events s peak) : s.queue.Bounded peak := by
  induction watched with
  | nil => exact Queue.bounded_empty
  | next _ h ih => exact bounded_of_beat (beat_of_happens_step? h) ih

theorem Watched.shift (watched : Watched events s peak) : Shift step? events s := by
  induction watched with
  | nil => exact .nil
  | @next _ _ e _ _ _ h ih =>
    cases e with
    | none => exact ih.unseen h
    | some e => exact ih.seen h

theorem Shift.exists_watched (shift : Shift step? events s) : ∃ peak, Watched events s peak :=
  shift.keeps ⟨0, .nil⟩ fun h ⟨_, watched⟩ => ⟨_, watched.next h⟩

/-- Anything may happen in between but a push. -/
def Unpushed : Scheduler → Scheduler → Prop :=
  Relation.ReflTransGen fun s s' => ∃ e, e ≠ some .queued ∧ Happens step? s e s'

theorem Watched.unpushed (watched : Watched events s peak) (h : Unpushed s s') :
    ∃ events', Watched events' s' peak := by
  induction h with
  | refl => exact ⟨events, watched⟩
  | tail _ hstep ih =>
    obtain ⟨_, hbefore⟩ := ih
    obtain ⟨e, hne, h⟩ := hstep
    exact ⟨_, hbefore.next_of_load h (load_of_ne _ hne)⟩

theorem unpushed_stop (s : Scheduler) (h : Handle) : Unpushed s (s.stop h).2 :=
  .single ⟨_, by simp, .stop h⟩

theorem unpushed_arm (now : Instant) (id : SilenceId) (endsAt : Instant) (s : Scheduler) :
    Unpushed s (s.arm now id endsAt).2.1 := by
  have hissue : Unpushed s { s with actions := (s.actions.issue endsAt).2 } :=
    .single ⟨_, by simp, .issue endsAt⟩
  rw [arm_eq]
  exact hissue.tail ⟨_, by simp, .send _⟩

theorem exists_happens_of_advance {now : Int} {log : Log} (h : s.Advance now s' log) :
    ∃ e, Happens step? s e s' := by
  cases h with
  | receive hp hc => exact ⟨_, happens_step?_of_beat (.receive hp hc)⟩
  | wake hp => exact ⟨_, happens_step?_of_beat (.timeOut hp)⟩
  | push hp => exact ⟨_, happens_step?_of_beat (.queue hp)⟩
  | halt hp => exact ⟨_, happens_step?_of_beat (.halt hp)⟩
  | look hp => exact ⟨_, happens_step?_of_beat (.look now hp)⟩
  | rest hp hq => exact ⟨_, happens_step?_of_beat (.rest hp hq)⟩
  | hand hp hq ha => exact ⟨_, happens_step?_of_beat (.hand hp hq ha)⟩
  | skip hp hq ha => exact ⟨_, happens_step?_of_beat (.skip hp hq ha)⟩

/-- However many stopped actions are pushed, the peak stays at none. -/
theorem Watched.of_backlog (task : Task) (count : Nat) :
    Watched (backlog task count) (backlogged Queue.push task count) 0 := by
  have hstopped : (Actions.none.disarm task.handle).isArmed task.handle = false := by
    rw [Bool.eq_false_iff, ne_eq, Actions.isArmed_disarm]
    exact fun h => h.2 rfl
  induction count with
  | zero => exact Watched.nil.next_of_load (.stop task.handle) rfl
  | succ count ih =>
    obtain ⟨hordered, hentries⟩ :=
      careful_push.queuedUp (Actions.none.disarm task.handle) task count
    have hload : ((backlogged Queue.push task count).queue.enter 1 task).armed
        (Actions.none.disarm task.handle) = [] := by
      refine List.filter_eq_nil_iff.2 fun e he => ?_
      have htask : e.2 = task := by
        rcases List.mem_cons.1 ((Queue.entries_enter hordered 1 task).subset he) with rfl | he
        · rfl
        · exact (hentries e he).2
      rw [htask, hstopped]
      exact Bool.false_ne_true
    have hnone := careful_push.backlogged_popDue? task (count + 1)
    have sent := ih.next_of_load (.send (.arm 1 task)) rfl
    have received := sent.next_of_load (happens_step?_of_beat (.receive rfl rfl)) rfl
    have queued := received.next_of_load (happens_step?_of_beat (.queue rfl))
      (congrArg List.length hload)
    have looked := queued.next_of_load (happens_step?_of_beat (.look 0 rfl)) rfl
    exact looked.next_of_load (happens_step?_of_beat (.rest rfl hnone)) rfl

end Scheduler

namespace Registry

open Scheduler

def armedSize (r : Registry) : Nat := r.tasks.countP fun t => r.isArmed t.handle

theorem unpushed_removeRecord (r : Registry) (id : SilenceId) :
    Unpushed r.scheduler (r.removeRecord id).scheduler := by
  unfold removeRecord
  split
  · exact .refl
  · exact unpushed_stop r.scheduler _

theorem unpushed_stopAll (r : Registry) (hs : List Handle) :
    Unpushed r.scheduler (r.stopAll hs).scheduler := by
  induction hs generalizing r with
  | nil => exact .refl
  | cons h hs ih => exact (unpushed_stop r.scheduler h).trans (ih (r.stopAction h))

theorem unpushed_put (now : Instant) (s : Silence) (r : Registry) :
    Unpushed r.scheduler (r.put now s).scheduler :=
  (unpushed_removeRecord r s.id).trans (unpushed_arm now s.id s.endsAt _)

theorem Effect.unpushed {now : Instant} {r r' : Registry} {call : Call}
    (h : r.Effect now call r') : Unpushed r.scheduler r'.scheduler := by
  cases h with
  | none => exact .refl
  | @put s _ lastId => exact unpushed_put now s { r with lastId }
  | remove _ _ id => exact unpushed_removeRecord r id
  | close | clear => exact unpushed_stopAll r r.handles

theorem unpushed_sweepOn {r : Registry} {asOf : Int} {turn : Turn} {task : Task}
    (hp : r.scheduler.phase = .delivering asOf turn task) :
    Unpushed r.scheduler (r.sweepOn asOf).scheduler := by
  have hresume : r.scheduler.resume = (r.sweepOn asOf).scheduler := by
    simp only [resume, sweepOn, hp]
  rw [← hresume]
  exact .single ⟨_, by simp, .resume hp⟩

/-- What is armed in the queue as an entry is pushed belongs to records, each to one of its own. -/
theorem Coupled.load_le {r : Registry} (h : r.Coupled) (e : Option Scheduler.Event) :
    r.scheduler.load e ≤ r.armedSize := by
  have harmed : r.armedSize = r.pending.countP fun p => r.isArmed p.task.handle := by
    rw [armedSize, List.countP_eq_length_filter, ← h.armed_perm.length_eq,
      ← List.countP_eq_length_filter, List.countP_map]
    rfl
  rw [harmed]
  unfold Scheduler.load
  split
  · split
    · rename_i due task hp
      have hqueue : ((r.scheduler.queue.enter due task).armed r.scheduler.actions).length =
          (r.scheduler.queue.enter due task).pending.countP fun p => r.isArmed p.task.handle := by
        rw [Queue.armed, ← List.countP_eq_length_filter, Queue.pending, List.countP_map]
        rfl
      rw [hqueue, (Queue.pending_enter h.sound.ordered due task).countP_eq]
      apply List.Sublist.countP_le
      rw [pending, Scheduler.pending, hp]
      exact List.sublist_append_left (⟨due, task⟩ :: r.scheduler.queue.pending) _
    · exact Nat.zero_le _
  · exact Nat.zero_le _

end Registry

open Scheduler

/-- The worker of a registry has never had more armed entries at a push than there were records
with an armed action. -/
theorem Run.exists_watched {history : History} {r : Registry} (run : Run history r) {n : Nat}
    (hn : ∀ (later past : History) (q : Registry), history = later ++ past → Run past q →
      q.armedSize ≤ n) :
    ∃ events peak, Watched events r.scheduler peak ∧ peak ≤ n := by
  induction run with
  | nil => exact ⟨[], 0, .nil, Nat.zero_le n⟩
  | @snoc history r r' m run step ih =>
    obtain ⟨events, peak, watched, hle⟩ := ih fun later past q heq =>
      hn (m :: later) past q (congrArg (m :: ·) heq)
    have unpushed (h : Unpushed r.scheduler r'.scheduler) :
        ∃ events peak, Watched events r'.scheduler peak ∧ peak ≤ n := by
      obtain ⟨events', watched'⟩ := watched.unpushed h
      exact ⟨events', peak, watched', hle⟩
    rcases Registry.answers_or_work_of_step step with ⟨client, call, -, ha⟩ | ⟨-, hw⟩
    · exact unpushed (Registry.effect_of_answers ha).unpushed
    · generalize m.log = log at hw
      cases hw with
      | advance ha =>
        obtain ⟨e, h⟩ := exists_happens_of_advance ha
        refine ⟨_, _, watched.next h, Nat.max_le.2 ⟨hle, ?_⟩⟩
        exact (run.coupled.load_le e).trans (hn [m] history r rfl run)
      | @expire _ _ task hp =>
        have hp' := (Registry.phase_removeRecord r task.id).trans hp
        exact unpushed ((Registry.unpushed_removeRecord r task.id).trans
          (Registry.unpushed_sweepOn hp'))
      | pass hp => exact unpushed (Registry.unpushed_sweepOn hp)

/-- Stopped actions cannot make a queue grow without bound. After every shift it is shorter than its
threshold, and that is at least 256 and at most twice the peak of the shift, if this is more. So
whatever clients do, behind a registry it holds fewer entries than 256, or than twice as many as
there ever were records with an armed action and one more: a silence that is stored in the place of
another has its action armed before the other's is stopped. -/
theorem queue_bounded_by_peak :
    (∀ events s, Shift step? events s → ∃ peak, Watched events s peak) ∧
    (∀ events s peak, Watched events s peak →
      Shift step? events s ∧ s.queue.Bounded peak ∧ s.queue.size < max 256 (2 * peak)) ∧
    ∀ (history : History) (r : Registry) (n : Nat), Run history r →
      (∀ (later past : History) (q : Registry), history = later ++ past → Run past q →
        q.armedSize ≤ n) →
      r.scheduler.queue.size < max 256 (2 * (n + 1)) := by
  refine ⟨fun events s shift => shift.exists_watched, ?_, ?_⟩
  · intro events s peak watched
    exact ⟨watched.shift, watched.bounded, watched.bounded.size_lt_max⟩
  · intro history r n run hn
    obtain ⟨events, peak, watched, hle⟩ := run.exists_watched hn
    exact (watched.bounded.mono (Nat.le_succ_of_le hle)).size_lt_max

/-- Six hundred actions are stopped before they are pushed; two silences are stored, and one of them
is updated. -/
theorem queue_bounded_by_peak_of_backlog :
    (∃ events s, (arms events).length = 600 ∧ Watched events s 0 ∧ s.queue.Bounded 0) ∧
      ∃ (history : History) (r : Registry), Run history r ∧ r.scheduler.actions.issued = 3 ∧
        r.size = 2 ∧ r.scheduler.queue.size < 256 := by
  obtain ⟨-, hshift, hrun⟩ := queue_bounded_by_peak
  constructor
  · let task : Task := ⟨⟨1⟩, ⟨0, default⟩⟩
    have harms (count : Nat) : (arms (backlog task count)).length = count := by
      induction count with
      | zero => rfl
      | succ count ih => simp [backlog, arms, Event.arms, Command.pending, ih]
    have watched := Watched.of_backlog task 600
    exact ⟨_, _, harms 600, watched, (hshift _ _ _ watched).2.1⟩
  · let x : Silence := .new default "ops" default
    have first := Run.nil.add 0 default x
    have second := first.add 0 default x
    have third := second.update 1 default (x.withId ⟨1⟩)
    refine ⟨_, _, third, by cbv, by cbv, hrun _ _ 2 third fun later past q heq run => ?_⟩
    have hmem : past ∈ List.tails _ := (List.mem_tails _ _).2 ⟨later, heq.symm⟩
    simp only [List.tails, List.mem_cons, List.not_mem_nil, or_false] at hmem
    rcases hmem with rfl | rfl | rfl | rfl
    · rw [run.unique third]
      decide +kernel
    · rw [run.unique second]
      decide +kernel
    · rw [run.unique first]
      decide +kernel
    · rw [run.unique .nil]
      decide +kernel

end AlertSilences
