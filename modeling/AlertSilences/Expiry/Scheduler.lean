import AlertSilences.Expiry.Channel
import AlertSilences.Expiry.Queue
import AlertSilences.LogLine

/-! A scheduler of actions and the worker behind it. Commands reach the worker through a
channel, first in, first out. The worker takes one command at a time and then sweeps
everything due off its queue, handing what is still armed to its owner. -/

namespace AlertSilences

inductive Command
  | arm (due : Int) (task : Task)
  | shutdown
deriving DecidableEq

/-- What the worker is doing. Between a command and a sweep it looks at the clock, and the sweep
goes by what it saw there. -/
inductive Phase
  | unstarted
  | waiting
  | received (command : Command)
  | checking
  | sweeping (asOf : Int)
  | delivering (asOf : Int) (turn : Turn) (task : Task)
  | stopped
  | panicked
  | discarded
deriving DecidableEq

def Phase.listens : Phase → Bool
  | .stopped | .panicked | .discarded => false
  | _ => true

structure Scheduler where
  actions : Actions
  channel : Channel Command
  queue : Queue
  phase : Phase

namespace Scheduler

def new : Scheduler := ⟨.none, .empty, .empty, .unstarted⟩

def start (s : Scheduler) : Scheduler := { s with phase := .waiting }

def isArmed (s : Scheduler) (h : Handle) : Bool := s.actions.isArmed h

def stop (s : Scheduler) (h : Handle) : Bool × Scheduler :=
  ((s.actions.stop h).1, { s with actions := (s.actions.stop h).2 })

def send (s : Scheduler) (c : Command) : Scheduler :=
  if s.phase.listens then { s with channel := s.channel.send c } else s

/-- The last time that the clock can show: it counts seconds in a signed word of 64 bits. -/
def lastTick : Int := 9223372036854775807 * nanosPerSecond + 999999999

/-- Issues an action for `id` at `endsAt`; a time already past is due at once. What is due beyond
the clock is never scheduled. -/
def arm (now : Instant) (id : SilenceId) (endsAt : Instant) (s : Scheduler) :
    Handle × Scheduler × Log :=
  let (handle, actions) := s.actions.issue endsAt
  let s := { s with actions }
  let due := now.toNanos + now.delayFrom endsAt
  if due ≤ lastTick then
    (handle, s.send (.arm due ⟨id, handle⟩),
      [if s.phase.listens then .armed id else .neverExpires id])
  else (handle, s, [.beyondClock id])

/-- One step of the worker, if there is one that it can take by itself. Handing an action over is
left to the owner. -/
def step? (now : Int) (s : Scheduler) : Option (Scheduler × Log) :=
  match s.phase with
  | .waiting =>
    match s.channel.receive? with
    | some (c, channel) => some ({ s with channel, phase := .received c }, [])
    | none =>
      if (s.queue.popDue? now).isSome then some ({ s with phase := .checking }, []) else none
  | .received (.arm due task) =>
    some ({ s with queue := s.queue.push s.actions due task, phase := .checking }, [])
  | .checking => some ({ s with phase := .sweeping now }, [])
  | .received .shutdown => some ({ s with phase := .stopped }, [.workerStopped])
  | .sweeping asOf =>
    match s.queue.popDue? asOf with
    | none => some ({ s with phase := .waiting }, [])
    | some ((turn, task), queue) =>
      some ({ s with
        queue := queue
        phase := if s.actions.isArmed task.handle then .delivering asOf turn task
          else .sweeping asOf }, [])
  | _ => none

def resume (s : Scheduler) : Scheduler :=
  match s.phase with
  | .delivering asOf _ _ => { s with phase := .sweeping asOf }
  | _ => s

/-- How many steps are left to take at most, with room for a command for each action handed
over. -/
def work (s : Scheduler) : Nat := 8 * (s.channel.size + s.queue.size + 2)

end Scheduler

/-- Takes steps as long as there are any, `count` at most; `log` is what was told before, in
reverse. -/
def settleOnto {σ : Type} (step? : σ → Option (σ × Log)) : Nat → Log → σ → σ × Log
  | 0, log, s => (s, log.reverse)
  | count + 1, log, s =>
    match step? s with
    | none => (s, log.reverse)
    | some (s, more) => settleOnto step? count (more.reverseAux log) s

def settle {σ : Type} (step? : σ → Option (σ × Log)) (count : Nat) (s : σ) : σ × Log :=
  settleOnto step? count [] s

theorem settleOnto_eq {σ : Type} (step? : σ → Option (σ × Log)) (count : Nat) (log : Log) (s : σ) :
    settleOnto step? count log s =
      ((settle step? count s).1, log.reverse ++ (settle step? count s).2) := by
  induction count generalizing log s with
  | zero => simp [settle, settleOnto]
  | succ count ih =>
    simp only [settle, settleOnto]
    split
    · simp
    · rw [ih, ih]
      simp

/-- The first step, then the others. -/
theorem settle_succ {σ : Type} (step? : σ → Option (σ × Log)) (count : Nat) (s : σ) :
    settle step? (count + 1) s = match step? s with
      | none => (s, [])
      | some (s, log) => ((settle step? count s).1, log ++ (settle step? count s).2) := by
  rw [settle, settleOnto]
  split
  · rfl
  · rw [settleOnto_eq]
    simp

/-- One step of a worker that has lost its owner: what it would hand over is dropped. -/
def Scheduler.orphanStep? (now : Int) (s : Scheduler) : Option (Scheduler × Log) :=
  match s.phase with
  | .delivering .. => some (s.resume, [])
  | _ => s.step? now

end AlertSilences
