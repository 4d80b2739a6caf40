import AlertSilences.Expiry.Scheduler

/-! A scheduler on trial: an owner that notes down every action handed to it, and may stop
it, panic or shut the scheduler down while it has it. The worker runs while somebody waits
for it. -/

namespace AlertSilences

structure TrialRules where
  stops : Bool
  panicOn : Option SilenceId
  shutdownOn : Option SilenceId

structure Report where
  id : SilenceId
  disarmed : Bool
deriving DecidableEq

structure Trial where
  rules : TrialRules
  clock : Instant
  scheduler : Scheduler
  attached : Bool
  kept : Bool
  handles : Std.ExtTreeMap String Handle
  reports : Channel Report

namespace Trial

def begin (rules : TrialRules) (clock : Instant) : Trial :=
  ⟨rules, clock, .new, false, true, ∅, .empty⟩

def deliver (task : Task) (t : Trial) : Trial :=
  let (disarmed, scheduler) :=
    if t.rules.stops then t.scheduler.stop task.handle else (false, t.scheduler)
  let t := { t with scheduler, reports := t.reports.send ⟨task.id, disarmed⟩ }
  if t.rules.panicOn = some task.id then
    { t with scheduler := { t.scheduler with phase := .panicked } }
  else if t.rules.shutdownOn = some task.id then
    { t with scheduler := (t.scheduler.send .shutdown).resume, attached := false }
  else { t with scheduler := t.scheduler.resume }

def step? (now : Int) (t : Trial) : Option (Trial × Log) :=
  match t.scheduler.phase with
  | .delivering _ _ task => some (t.deliver task, [])
  | _ =>
    match t.scheduler.step? now with
    | none => none
    | some (scheduler, log) => some ({ t with scheduler }, log)

def settled (t : Trial) : Trial × Log :=
  settle (step? t.clock.toNanos) t.scheduler.work t

/-- Whether the worker may hand something over without a further command. -/
def isRunning (t : Trial) : Bool := t.scheduler.phase.listens

def setClock (t : Trial) (nanos : Int) : Trial :=
  { t with clock := (Instant.ofNanos? nanos).getD t.clock }

/-- Lets time pass until `target`, or until there is a report if one is `wanted`; the clock stops
at every action that is due on the way. The number of actions bounds the count. -/
def passUntil (wanted : Bool) (target : Int) : Nat → Trial → Trial × Log
  | 0, t => (t, [])
  | count + 1, t =>
    if wanted && t.reports.receive?.isSome then (t, [])
    else
      let next := if t.scheduler.phase = .waiting then t.scheduler.queue.nextDue? else none
      match next with
      | some due =>
        if due ≤ target then
          let (t, log) := (t.setClock (max due t.clock.toNanos)).settled
          let (t, more) := passUntil wanted target count t
          (t, log ++ more)
        else (t.setClock target).settled
      | none => (t.setClock target).settled

def wait (wanted : Bool) (millis : Nat) (t : Trial) : Trial × Log :=
  let (t, log) := t.settled
  let target := t.clock.toNanos + millis * 1000000
  let (t, more) := passUntil wanted target (t.scheduler.queue.size + 1) t
  (t, log ++ more)

/-- How long a report is waited for, in milliseconds. -/
def longestWait : Nat := 700

def nextReport (t : Trial) : Option Report × Trial × Log :=
  let (t, log) := t.settled
  let (t, more) := if t.isRunning then t.wait true longestWait else (t, [])
  match t.reports.receive? with
  | none => (none, t, log ++ more)
  | some (report, reports) => (some report, { t with reports }, log ++ more)

/-- `n` more reports, after those taken before and what was told then, both in reverse. -/
def nextReportsOnto (taken : List (Option Report)) (log : Log) :
    Nat → Trial → List (Option Report) × Trial × Log
  | 0, t => (taken.reverse, t, log.reverse)
  | n + 1, t =>
    let (report, t, more) := t.nextReport
    nextReportsOnto (report :: taken) (more.reverseAux log) n t

def nextReports (n : Nat) (t : Trial) : List (Option Report) × Trial × Log :=
  t.nextReportsOnto [] [] n

def drain (millis : Nat) (t : Trial) : List Report × Trial × Log :=
  let (t, log) := t.wait false millis
  (t.reports.toList, { t with reports := .empty }, log)

def sleep (millis : Nat) (t : Trial) : Trial × Log := t.wait false millis

/-- The worker begins, if it has not been begun or thrown away. -/
def spawn? (t : Trial) : Option Trial :=
  if t.scheduler.phase = .unstarted then
    some { t with scheduler := t.scheduler.start, attached := t.kept }
  else none

def name (t : Trial) (name : String) (h : Handle) : Trial :=
  { t with handles := t.handles.insert name h }

def arm (name : String) (id : SilenceId) (at_ : Instant) (t : Trial) : Trial × Log :=
  let (handle, scheduler, log) := t.scheduler.arm t.clock id at_
  ({ t with scheduler }.name name handle, log)

/-- Arms actions without names for `n` ids in turn, each stopped at once if so asked; tells how
many were stopped. `count` and `log` are what there was before, the log in reverse. -/
def armManyOnto (at_ : Instant) (stopped : Bool) (count : Nat) (log : Log) :
    Nat → SilenceId → Trial → Nat × Trial × Log
  | 0, _, t => (count, t, log.reverse)
  | n + 1, id, t =>
    let (handle, scheduler, more) := t.scheduler.arm t.clock id at_
    let (disarmed, scheduler) := if stopped then scheduler.stop handle else (false, scheduler)
    armManyOnto at_ stopped (if disarmed then count + 1 else count) (more.reverseAux log) n
      ⟨id.value + 1⟩ { t with scheduler }

def armMany (at_ : Instant) (stopped : Bool) (n : Nat) (id : SilenceId) (t : Trial) :
    Nat × Trial × Log :=
  t.armManyOnto at_ stopped 0 [] n id

def lone (name : String) (at_ : Instant) (t : Trial) : Trial :=
  let (handle, actions) := t.scheduler.actions.issue at_
  { t with scheduler := { t.scheduler with actions } }.name name handle

def stop (h : Handle) (t : Trial) : Bool × Trial :=
  let (disarmed, scheduler) := t.scheduler.stop h
  (disarmed, { t with scheduler })

/-- Sends the last command and, if the worker has begun, waits for its end. -/
def shutdown (t : Trial) : Trial × Log :=
  let t := { t with scheduler := t.scheduler.send .shutdown }
  if t.attached then
    let (t, log) := t.settled
    ({ t with attached := false },
      log ++ if t.scheduler.phase = .panicked then [.workerPanicked] else [])
  else (t, [])

/-- Drops the scheduler, which shuts it down; tells whether it was there. -/
def dropScheduler (t : Trial) : Bool × Trial × Log :=
  if t.kept then
    let (t, log) := t.shutdown
    (true, { t with kept := false }, log)
  else (false, t, [])

/-- Throws a worker away that has not begun; tells whether there was one. -/
def dropWorker (t : Trial) : Bool × Trial :=
  if t.scheduler.phase = .unstarted then
    (true, { t with scheduler := { t.scheduler with phase := .discarded, channel := .empty } })
  else (false, t)

end Trial

end AlertSilences
