import AlertSilences.Expiry.Scheduler
import AlertSilences.Silence

/-! The registry: silences by id, each with the action that removes it at its end, and
the highest id so far. Every operation sees and leaves a whole state; the worker takes
its steps in between. -/

namespace AlertSilences

structure Stored where
  silence : Silence
  handle : Handle
deriving DecidableEq

structure Registry where
  records : Std.ExtTreeMap SilenceId Stored
  lastId : SilenceId
  scheduler : Scheduler

/-- What an operation answers, the registry after it, and what it told. -/
structure Outcome (α : Type) where
  answer : Except Failure α
  registry : Registry
  log : Log

namespace Registry

def empty : Registry := ⟨∅, .unset, Scheduler.new.start⟩

def silences (r : Registry) : List Silence := r.records.values.map (·.silence)

def size (r : Registry) : Nat := r.records.size

def stopAction (r : Registry) (h : Handle) : Registry :=
  { r with scheduler := (r.scheduler.stop h).2 }

def stopAll (r : Registry) (handles : List Handle) : Registry := handles.foldl stopAction r

/-- Stores a silence under its id, with a new action for its end. -/
def store (now : Instant) (s : Silence) (r : Registry) : Registry × Log :=
  let (handle, scheduler, log) := r.scheduler.arm now s.id s.endsAt
  ({ r with records := r.records.insert s.id ⟨s, handle⟩, scheduler }, log)

/-- The id a silence is added under, and the highest id after that. -/
def assignId (r : Registry) (s : Silence) : Except Failure (SilenceId × SilenceId) :=
  if s.id.isUnset then
    match r.lastId.next? with
    | some id => .ok (id, id)
    | none => .error (.idsExhausted r.lastId)
  else .ok (s.id, if r.lastId < s.id then s.id else r.lastId)

def add (now : Instant) (s : Silence) (r : Registry) : Outcome SilenceId :=
  match r.assignId s with
  | .error e => ⟨.error e, r, []⟩
  | .ok (id, lastId) =>
    let before := r.records[id]?
    let (r, armed) := { r with lastId }.store now { s with id }
    match before with
    | none => ⟨.ok id, r, armed ++ [.added id]⟩
    | some previous =>
      ⟨.ok id, r.stopAction previous.handle, armed ++ [.replaced id, .added id]⟩

/-- Puts a silence in the place of the one with its id. -/
def update (now : Instant) (s : Silence) (r : Registry) : Outcome Unit :=
  match r.records[s.id]? with
  | none => ⟨.error (.notFound s.id), r, []⟩
  | some previous =>
    let (r, armed) := (r.stopAction previous.handle).store now s
    ⟨.ok (), r, armed ++ [.updated s.id]⟩

def get (id : SilenceId) (r : Registry) : Except Failure Silence :=
  match r.records[id]? with
  | some stored => .ok stored.silence
  | none => .error (.notFound id)

def removeRecord (id : SilenceId) (r : Registry) : Registry :=
  match r.records[id]? with
  | none => r
  | some stored => { r with records := r.records.erase id }.stopAction stored.handle

def delete (id : SilenceId) (r : Registry) : Outcome Unit :=
  match r.records[id]? with
  | none => ⟨.error (.notFound id), r, []⟩
  | some _ => ⟨.ok (), r.removeRecord id, [.deleted id]⟩

/-- The first silence of a scan that covers an event. -/
def inhibiting? {α : Type} [LabelSet α] (scan : List Silence) (event : α) : Option Silence :=
  scan.find? fun s => s.filters.handles event

def handles (r : Registry) : List Handle := r.records.values.map (·.handle)

/-- Stops every action and keeps the records. -/
def close (r : Registry) : Outcome Unit :=
  let disarmed := r.handles.countP r.scheduler.isArmed
  ⟨.ok (), r.stopAll r.handles, [.closed disarmed r.size]⟩

/-- Removes every record; the highest id stays. -/
def clear (r : Registry) : Outcome Nat :=
  ⟨.ok r.size, { r.stopAll r.handles with records := ∅ }, [.cleared r.size]⟩

/-- Removes a record at its end, provided that the action is the one it has now and nobody stopped
it. -/
def expire (id : SilenceId) (handle : Handle) (r : Registry) : Registry × Log :=
  match r.records[id]? with
  | none => (r, [.vanished id])
  | some stored =>
    if stored.handle.same handle then
      let (disarmed, scheduler) := r.scheduler.stop handle
      if disarmed then ({ r with scheduler }.removeRecord id, [.expired id])
      else ({ r with scheduler }, [.stale id])
    else (r, [.stale id])

/-- One step of the worker: one of its own, or the removal of a record at its end. -/
def step? (now : Instant) (r : Registry) : Option (Registry × Log) :=
  match r.scheduler.phase with
  | .delivering _ _ task =>
    let (r, log) := r.expire task.id task.handle
    some ({ r with scheduler := r.scheduler.resume }, log)
  | _ =>
    match r.scheduler.step? now.toNanos with
    | none => none
    | some (scheduler, log) => some ({ r with scheduler }, log)

def settled (now : Instant) (r : Registry) : Registry × Log :=
  settle (step? now) r.scheduler.work r

/-- The worker of a registry that nobody holds any more stops. -/
def released (now : Instant) (r : Registry) : Log :=
  let s := r.scheduler.send .shutdown
  (settle (Scheduler.orphanStep? now.toNanos) s.work s).2

end Registry

end AlertSilences
