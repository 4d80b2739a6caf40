import AlertSilences.Storage.Open

/-! A machine on which registries live: its disk, its clock, and the registries by the
names of their handles. A registry lives as long as it has a handle; with the last one
its worker stops and its lock is given back. -/

namespace AlertSilences

/-- A registry with its configuration, the number of its handles, and the actions of silences that
were found to stay past their end. -/
structure Live where
  config : Config
  registry : Registry
  handles : Nat
  staying : Std.ExtTreeSet Nat

def Live.overdue (now : Instant) (live : Live) : List Stored :=
  live.registry.records.values.filter (·.silence.isExpired now)

structure Host where
  disk : Disk
  clock : Instant
  stores : Std.ExtTreeMap Disk.Owner Live
  names : Std.ExtTreeMap String Disk.Owner
  nextOwner : Disk.Owner

namespace Host

def begin (clock : Instant) : Host := ⟨.blank, clock, ∅, ∅, 0⟩

def owner? (h : Host) (name : String) : Option Disk.Owner := h.names[name]?

def live? (h : Host) (name : String) : Option Live := (h.owner? name).bind (h.stores[·]?)

/-- The clock as seen by whoever reads it while no time passes. -/
def readings (h : Host) : Nat → Instant := fun _ => h.clock

/-- One handle fewer; the last one ends the registry. -/
def release (h : Host) (owner : Disk.Owner) : Host × Log :=
  match h.stores[owner]? with
  | none => (h, [])
  | some live =>
    if 1 < live.handles then
      ({ h with stores := h.stores.insert owner { live with handles := live.handles - 1 } }, [])
    else
      ({ h with stores := h.stores.erase owner, disk := h.disk.unlock owner },
        live.registry.released h.clock)

def retain (h : Host) (owner : Disk.Owner) : Host :=
  match h.stores[owner]? with
  | none => h
  | some live =>
    { h with stores := h.stores.insert owner { live with handles := live.handles + 1 } }

/-- Gives a name to a registry that already counts the handle, and takes it from the one that had
it. -/
def give (h : Host) (name : String) (owner : Disk.Owner) : Host × Log :=
  let before := h.owner? name
  let h := { h with names := h.names.insert name owner }
  match before with
  | none => (h, [])
  | some old => h.release old

def house (h : Host) (name : String) (config : Config) (registry : Registry) : Host × Log :=
  let owner := h.nextOwner
  { h with
    stores := h.stores.insert owner ⟨config, registry, 1, ∅⟩
    nextOwner := owner + 1 }.give name owner

/-- An empty registry; its file is not looked at. -/
def make (h : Host) (name : String) (config : Config) : Host × Log :=
  h.house name config .empty

/-- A registry opened on its file, while nothing else happens. -/
def openAt (h : Host) (name : String) (config : Config) : Host × Except Failure Unit × Log :=
  let (call, disk) := (OpenCall.begin config h.nextOwner).run h.clock h.readings h.disk
  let h := { h with disk }
  match call.stage with
  | .done (.ok registry) =>
    let (h, log) := h.house name config registry
    (h, .ok (), call.log ++ log)
  | .done (.error e) => (h, .error e, call.log)
  -- all steps bring a call to its end
  | _ => (h, .ok (), call.log)

def clone (h : Host) (owner : Disk.Owner) (name : String) : Host × Log :=
  (h.retain owner).give name owner

def drop (h : Host) (name : String) : Host × Bool × Log :=
  match h.owner? name with
  | none => (h, false, [])
  | some owner =>
    let (h, log) := { h with names := h.names.erase name }.release owner
    (h, true, log)

def setRegistry (h : Host) (owner : Disk.Owner) (registry : Registry) : Host :=
  match h.stores[owner]? with
  | none => h
  | some live => { h with stores := h.stores.insert owner { live with registry } }

def settleStore (h : Host) (owner : Disk.Owner) : Host × Log :=
  match h.stores[owner]? with
  | none => (h, [])
  | some live =>
    let (registry, log) := live.registry.settled h.clock
    (h.setRegistry owner registry, log)

def settled (h : Host) : Host × Log :=
  h.stores.keys.foldl (fun (h, log) owner =>
    let (h, more) := h.settleStore owner
    (h, log ++ more)) (h, [])

def nextDue? (h : Host) : Option Int :=
  (h.stores.values.filterMap fun live => live.registry.scheduler.queue.nextDue?).min?

/-- The clock at a time, or where it stands if the calendar does not reach that. -/
def setClock (h : Host) (nanos : Int) : Host :=
  { h with clock := (Instant.ofNanos? nanos).getD h.clock }

/-- Lets time pass until `target`, or until there is `enough`; the clock stops at every action
that is due on the way. The number of actions bounds the count. -/
def passUntil (enough : Host → Bool) (target : Int) : Nat → Host → Host × Log
  | 0, h => (h, [])
  | count + 1, h =>
    if enough h then (h, [])
    else
      match h.nextDue? with
      | some due =>
        if due ≤ target then
          let (h, log) := (h.setClock (max due h.clock.toNanos)).settled
          let (h, more) := passUntil enough target count h
          (h, log ++ more)
        else (h.setClock target).settled
      | none => (h.setClock target).settled

def queued (h : Host) : Nat :=
  h.stores.values.foldl (fun count live => count + live.registry.scheduler.queue.size) 0

def nanosPerMilli : Nat := 1000000

def waitFor (enough : Host → Bool) (millis : Nat) (h : Host) : Host × Log :=
  let target := h.clock.toNanos + millis * nanosPerMilli
  passUntil enough target (h.queued + 1) h

def sleep (millis : Nat) (h : Host) : Host × Log := h.waitFor (fun _ => false) millis

/-- Whether a registry holds a silence past its end that is not known to stay. -/
def awaits (h : Host) : Bool :=
  h.stores.values.any fun live =>
    (live.overdue h.clock).any fun stored => !live.staying.contains stored.handle.index

/-- Silences past their end by now are known to stay. -/
def resign (h : Host) : Host :=
  { h with stores := h.stores.map fun _ live =>
      { live with staying :=
          live.staying.insertMany ((live.overdue h.clock).map (·.handle.index)) } }

/-- How long it takes, in milliseconds, to see that a silence past its end is going to stay. -/
def patience : Nat := 150

/-- What happens between two requests: the workers catch up, and silences past their end are
waited for unless they are known to stay. -/
def rest (h : Host) : Host × Log :=
  let (h, log) := h.settled
  if h.awaits then
    let (h, more) := h.sleep patience
    (h.resign, log ++ more)
  else (h, log)

end Host

end AlertSilences
