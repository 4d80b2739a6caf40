import AlertSilences.Proofs.Pending
import Mathlib.Logic.Relation

/-! A worker by itself. Around it commands are sent, in any order and with any times, actions are
stopped at any moment, and its waiting may come to an end whenever it likes; in between it takes
its steps. What happens is told as a list of events, the latest first. That a stopped action is
let go of is no event: nobody gets to know of it. -/

namespace AlertSilences

/-- What is popped goes before all that stays. -/
theorem Queue.before_of_popDue? {q q' : Queue} {now : Int} {e : Entry}
    (h : q.popDue? now = some (e, q')) : ∀ e' ∈ q'.entries, e.1.Before e'.1 := by
  intro e' he'
  have ho := q.tasks.ordered_keys_toList
  rw [show q.tasks.toList = e :: q'.entries from (entries_of_popDue? h).1,
    List.pairwise_cons] at ho
  exact Turn.before_of_lt (ho.1 e' he')

namespace Scheduler

inductive Event
  | issued
  | sent (command : Command)
  | stopped (handle : Handle)
  | received (command : Command)
  | timedOut
  | queued
  | looked (clock : Int)
  | handed (turn : Turn) (task : Task)
  | returned
  | rested
  | halted
deriving DecidableEq

/-- What a worker shows as it goes from one phase to the next. -/
def told? : Phase → Phase → Option Event
  | .waiting, .received command => some (.received command)
  | .waiting, .checking => some .timedOut
  | .received _, .checking => some .queued
  | .received _, .stopped => some .halted
  | .checking, .sweeping clock => some (.looked clock)
  | .sweeping _, .delivering _ turn task => some (.handed turn task)
  | .delivering .., .sweeping _ => some .returned
  | .sweeping _, .waiting => some .rested
  | _, _ => none

/-- What can happen around a worker that goes by `step?`, and to it. -/
inductive Happens (step? : Int → Scheduler → Option (Scheduler × Log)) (s : Scheduler) :
    Option Event → Scheduler → Prop
  | issue (endsAt : Instant) :
      Happens step? s (some .issued) { s with actions := (s.actions.issue endsAt).2 }
  | send (command : Command) : Happens step? s (some (.sent command)) (s.send command)
  | stop (handle : Handle) : Happens step? s (some (.stopped handle)) (s.stop handle).2
  | timeOut (hp : s.phase = .waiting) :
      Happens step? s (some .timedOut) { s with phase := .checking }
  | resume {asOf turn task} (hp : s.phase = .delivering asOf turn task) :
      Happens step? s (some .returned) s.resume
  | work {now s' log} (h : step? now s = some (s', log)) :
      Happens step? s (told? s.phase s'.phase) s'

/-- All that a worker can have been through, from its beginning. -/
inductive Shift (step? : Int → Scheduler → Option (Scheduler × Log)) :
    List Event → Scheduler → Prop
  | nil : Shift step? [] Scheduler.new.start
  | seen {events s e s'} (shift : Shift step? events s) (h : Happens step? s (some e) s') :
      Shift step? (e :: events) s'
  | unseen {events s s'} (shift : Shift step? events s) (h : Happens step? s none s') :
      Shift step? events s'

/-- What can happen unseen, any number of times. -/
def Quietly (step? : Int → Scheduler → Option (Scheduler × Log)) : Scheduler → Scheduler → Prop :=
  Relation.ReflTransGen fun s s' => Happens step? s none s'

variable {step? : Int → Scheduler → Option (Scheduler × Log)}
  {push : Actions → Queue → Int → Task → Queue} {events : List Event} {s s' : Scheduler}

/-- What the beginning has, and what is kept by all that can happen, every shift has. -/
@[elab_as_elim]
theorem Shift.keeps {motive : List Event → Scheduler → Prop} (shift : Shift step? events s)
    (start : motive [] Scheduler.new.start)
    (next : ∀ {events s e s'}, Happens step? s e s' → motive events s →
      motive (e.toList ++ events) s') : motive events s := by
  induction shift with
  | nil => exact start
  | seen _ h ih => exact next h ih
  | unseen _ h ih => exact next h ih

/-- What has happened up to some time is a shift as well. -/
theorem Shift.of_append {later : List Event} (shift : Shift step? (later ++ events) s) :
    ∃ s', Shift step? events s' := by
  generalize hall : later ++ events = all at shift
  induction shift generalizing later with
  | nil =>
    obtain ⟨-, rfl⟩ := List.append_eq_nil_iff.1 hall
    exact ⟨_, .nil⟩
  | unseen _ _ ih => exact ih hall
  | seen shift h ih =>
    rcases List.append_eq_cons_iff.1 hall with ⟨-, rfl⟩ | ⟨_, rfl, rfl⟩
    · exact ⟨_, shift.seen h⟩
    · exact ih rfl

/-- The last event has happened in some state, and nothing that came after it was seen. -/
theorem Shift.exists_last {e : Event} (shift : Shift step? (e :: events) s) :
    ∃ before after, Shift step? events before ∧ Happens step? before (some e) after ∧
      Quietly step? after s := by
  generalize hall : e :: events = all at shift
  induction shift with
  | nil => cases hall
  | unseen _ h ih =>
    obtain ⟨before, after, shift, hlast, hrest⟩ := ih hall
    exact ⟨before, after, shift, hlast, hrest.tail h⟩
  | seen shift h ih =>
    obtain ⟨rfl, rfl⟩ := List.cons.inj hall
    exact ⟨_, _, shift, h, .refl⟩

/-- As long as nothing has been seen nothing else can have happened. -/
theorem Shift.of_nil (shift : Shift step? [] s) : Quietly step? Scheduler.new.start s := by
  generalize hall : [] = all at shift
  induction shift with
  | nil => exact .refl
  | unseen _ h ih => exact (ih hall).tail h
  | seen => cases hall

theorem Shift.quietly (shift : Shift step? events s) (h : Quietly step? s s') :
    Shift step? events s' := by
  induction h with
  | refl => exact shift
  | tail _ h ih => exact ih.unseen h

/-- What is told by a worker that takes `count` steps while the clock shows `now`, and where it
gets. Whoever it hands an action to returns at once. -/
def workOnto (step? : Int → Scheduler → Option (Scheduler × Log)) (now : Int) :
    Nat → List Event → Scheduler → List Event × Scheduler
  | 0, events, s => (events, s)
  | count + 1, events, s =>
    match s.phase, step? now s with
    | .delivering .., _ => workOnto step? now count (.returned :: events) s.resume
    | _, none => (events, s)
    | _, some (s', _) => workOnto step? now count ((told? s.phase s'.phase).toList ++ events) s'

theorem Shift.worked (shift : Shift step? events s) (now : Int) (count : Nat) :
    Shift step? (workOnto step? now count events s).1 (workOnto step? now count events s).2 := by
  induction count generalizing events s with
  | zero => exact shift
  | succ count ih =>
    unfold workOnto
    split
    · rename_i hp
      exact ih (shift.seen (.resume hp))
    · exact shift
    · rename_i s' log hs hnot
      refine ih ?_
      have h : Happens step? s (told? s.phase s'.phase) s' := .work hs
      cases ht : told? s.phase s'.phase with
      | none => exact shift.unseen (ht ▸ h)
      | some e => exact shift.seen (ht ▸ h)

/-- The step of a worker that queues its actions by `push`. -/
def stepBy? (push : Actions → Queue → Int → Task → Queue) (now : Int) (s : Scheduler) :
    Option (Scheduler × Log) :=
  match s.phase with
  | .received (.arm due task) =>
    some ({ s with queue := push s.actions s.queue due task, phase := .checking }, [])
  | _ => s.step? now

theorem stepBy?_push : stepBy? Queue.push = Scheduler.step? := by
  funext now s
  unfold stepBy?
  split
  · rename_i due task hp
    simp only [Scheduler.step?, hp]
  · rfl

/-- The same as `Happens`, case by case, for a worker that queues by `push`. -/
inductive Beat (push : Actions → Queue → Int → Task → Queue) (s : Scheduler) :
    Option Event → Scheduler → Prop
  | issue (endsAt : Instant) :
      Beat push s (some .issued) { s with actions := (s.actions.issue endsAt).2 }
  | send (command : Command) : Beat push s (some (.sent command)) (s.send command)
  | stop (handle : Handle) : Beat push s (some (.stopped handle)) (s.stop handle).2
  | timeOut (hp : s.phase = .waiting) : Beat push s (some .timedOut) { s with phase := .checking }
  | resume {asOf turn task} (hp : s.phase = .delivering asOf turn task) :
      Beat push s (some .returned) { s with phase := .sweeping asOf }
  | receive {command channel} (hp : s.phase = .waiting)
      (hc : s.channel.receive? = some (command, channel)) :
      Beat push s (some (.received command)) { s with channel, phase := .received command }
  | queue {due task} (hp : s.phase = .received (.arm due task)) :
      Beat push s (some .queued)
        { s with queue := push s.actions s.queue due task, phase := .checking }
  | halt (hp : s.phase = .received .shutdown) : Beat push s (some .halted) { s with phase := .stopped }
  | look (clock : Int) (hp : s.phase = .checking) :
      Beat push s (some (.looked clock)) { s with phase := .sweeping clock }
  | hand {asOf turn task queue} (hp : s.phase = .sweeping asOf)
      (hq : s.queue.popDue? asOf = some ((turn, task), queue))
      (ha : s.isArmed task.handle = true) :
      Beat push s (some (.handed turn task)) { s with queue, phase := .delivering asOf turn task }
  | rest {asOf} (hp : s.phase = .sweeping asOf) (hq : s.queue.popDue? asOf = none) :
      Beat push s (some .rested) { s with phase := .waiting }
  | skip {asOf turn task queue} (hp : s.phase = .sweeping asOf)
      (hq : s.queue.popDue? asOf = some ((turn, task), queue))
      (ha : s.isArmed task.handle = false) :
      Beat push s none { s with queue, phase := .sweeping asOf }

theorem beat_of_happens {e : Option Event} (h : Happens (stepBy? push) s e s') : Beat push s e s' := by
  cases h with
  | issue endsAt => exact .issue endsAt
  | send command => exact .send command
  | stop handle => exact .stop handle
  | timeOut hp => exact .timeOut hp
  | @resume asOf turn task hp =>
    have : s.resume = { s with phase := .sweeping asOf } := by simp only [Scheduler.resume, hp]
    rw [this]
    exact .resume hp
  | @work now _ log h =>
    unfold stepBy? at h
    split at h
    · rename_i due task hp
      cases h
      rw [hp]
      exact .queue hp
    · rename_i hnot
      cases advance_of_step? h with
      | receive hp hc =>
        rw [hp]
        exact .receive hp hc
      | wake hp =>
        rw [hp]
        exact .timeOut hp
      | push hp => exact absurd hp (hnot _ _)
      | halt hp =>
        rw [hp]
        exact .halt hp
      | look hp =>
        rw [hp]
        exact .look now hp
      | rest hp hq =>
        rw [hp]
        exact .rest hp hq
      | hand hp hq ha =>
        rw [hp]
        exact .hand hp hq ha
      | skip hp hq ha =>
        rw [hp]
        exact .skip hp hq ha

theorem happens_of_beat {e : Option Event} (h : Beat push s e s') : Happens (stepBy? push) s e s' := by
  have work {now log} (hstep : stepBy? push now s = some (s', log)) :
      Happens (stepBy? push) s (told? s.phase s'.phase) s' := .work hstep
  cases h with
  | issue endsAt => exact .issue endsAt
  | send command => exact .send command
  | stop handle => exact .stop handle
  | timeOut hp => exact .timeOut hp
  | @resume asOf turn task hp =>
    have : { s with phase := .sweeping asOf } = s.resume := by simp only [Scheduler.resume, hp]
    rw [this]
    exact .resume hp
  | receive hp hc =>
    rw [hp] at work
    exact @work 0 [] (by simp only [stepBy?, Scheduler.step?, hp, hc])
  | queue hp =>
    rw [hp] at work
    exact @work 0 [] (by simp only [stepBy?, hp])
  | halt hp =>
    rw [hp] at work
    exact @work 0 [.workerStopped] (by simp only [stepBy?, Scheduler.step?, hp])
  | look clock hp =>
    rw [hp] at work
    exact @work clock [] (by simp only [stepBy?, Scheduler.step?, hp])
  | hand hp hq ha =>
    rw [hp] at work
    exact @work 0 [] (by simp only [stepBy?, Scheduler.step?, hp, hq]; rw [isArmed] at ha; simp [ha])
  | rest hp hq =>
    rw [hp] at work
    exact @work 0 [] (by simp only [stepBy?, Scheduler.step?, hp, hq])
  | skip hp hq ha =>
    rw [hp] at work
    exact @work 0 [] (by simp only [stepBy?, Scheduler.step?, hp, hq]; rw [isArmed] at ha; simp [ha])

theorem beat_of_happens_step? {e : Option Event} (h : Happens Scheduler.step? s e s') :
    Beat Queue.push s e s' := by
  rw [← stepBy?_push] at h
  exact beat_of_happens h

end Scheduler

end AlertSilences
