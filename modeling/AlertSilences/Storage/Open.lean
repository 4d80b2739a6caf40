import AlertSilences.Registry.Load
import AlertSilences.Storage.Save

/-! Opening a registry on its file as a list of steps on the disk: look whether the file
is there, make the folders on the way to it, take the lock beside it, then load the file
that was there or save an empty one. -/

namespace AlertSilences

structure Config where
  path : String
  createIfMissing : Bool
  lock : Bool
deriving DecidableEq

namespace Config

def standard : Config := ⟨"./silences.json", true, true⟩

end Config

inductive OpenStage
  | checking
  | making
  | locking (existed : Bool)
  | filling (existed : Bool)
  | saving (call : SaveCall)
  | done (answer : Except Failure Registry)

structure OpenCall where
  config : Config
  owner : Disk.Owner
  registry : Registry
  log : Log
  stage : OpenStage

namespace OpenCall

def begin (config : Config) (owner : Disk.Owner) : OpenCall :=
  ⟨config, owner, .empty, [], .checking⟩

def fails (c : OpenCall) (e : Failure) : OpenCall := { c with stage := .done (.error e) }

/-- Creates or empties the lock file and takes the lock on it. -/
def takeLock (c : OpenCall) (d : Disk) : Except Failure Disk × Disk :=
  match (Disk.Path.ofText? (lockPath c.config.path)).bind d.create with
  | .error fault => (.error (.fault fault), d)
  | .ok (file, d) =>
    match d.lock? file c.owner with
    | none => (.error (.locked (lockPath c.config.path)), d)
    | some locked => (.ok locked, locked)

/-- A call that cannot go on gives back its lock, and its registry is gone; or a callback of the
worker has a handle of that, and then both stay for it. -/
def abandon (now : Instant) (calling : Bool) (c : OpenCall) (e : Failure) (d : Disk) :
    OpenCall × Disk :=
  if calling then (c.fails e, d)
  else
    ({ c with log := c.log ++ c.registry.released now, stage := .done (.error e) },
      d.unlock c.owner)

def step (now : Instant) (clock : Nat → Instant) (c : OpenCall) (d : Disk) : OpenCall × Disk :=
  match c.stage with
  | .checking =>
    if d.exists? c.config.path then ({ c with stage := .locking true }, d)
    else if c.config.createIfMissing then ({ c with stage := .making }, d)
    else (c.fails (.notInitialized c.config.path), d)
  | .making =>
    match d.makeParents c.config.path with
    | (d, .error fault) => (c.fails (.fault fault), d)
    | (d, .ok ()) => ({ c with stage := .locking false }, d)
  | .locking existed =>
    if c.config.lock then
      match c.takeLock d with
      | (.error e, d) => (c.fails e, d)
      | (.ok _, d) => ({ c with stage := .filling existed }, d)
    else ({ c with stage := .filling existed }, d)
  | .filling true =>
    match c.registry.load now clock c.config.path (d.readText c.config.path) with
    | ⟨.error e, registry, log⟩ => { c with registry, log }.abandon now false e d
    | ⟨.ok _, registry, log⟩ => ({ c with registry, log, stage := .done (.ok registry) }, d)
  | .filling false =>
    ({ c with stage := .saving (.begin c.config.path c.registry.silences) }, d)
  | .saving call =>
    let (call, d) := call.step call.bytes.length d
    match call.stage with
    | .done (.ok ()) =>
      ({ c with
        log := c.log ++ [.saved call.path call.count]
        stage := .done (.ok c.registry) }, d)
    | .done (.error fault) => c.abandon now false (.fault fault) d
    | _ => ({ c with stage := .saving call }, d)
  | .done _ => (c, d)

def steps (now : Instant) (clock : Nat → Instant) (c : OpenCall) (d : Disk) : Nat → OpenCall × Disk
  | 0 => (c, d)
  | n + 1 =>
    let (c, d) := c.step now clock d
    c.steps now clock d n

/-- How many steps a call takes at most. -/
def allSteps : Nat := 4 + SaveCall.allSteps

/-- All steps with nothing in between, so that the worker of the new registry calls nobody back. -/
def run (now : Instant) (clock : Nat → Instant) (c : OpenCall) (d : Disk) : OpenCall × Disk :=
  c.steps now clock d allSteps

end OpenCall

end AlertSilences
