import AlertSilences.Disk
import AlertSilences.Record.Document
import AlertSilences.Registry

/-! Saving as a list of steps on the disk. The text is written to a file beside the
target and takes the target's name only when it is complete. Between two steps anything
else may happen to the disk. -/

namespace AlertSilences

/-- The path beside `path` whose name has `suffix` at its end. -/
def siblingPath (path suffix : String) : String := path ++ suffix

def temporaryPath (path : String) : String := siblingPath path ".tmp"

def lockPath (path : String) : String := siblingPath path ".lock"

inductive SaveStage
  | opening
  | writing (file : Disk.Inode) (offset : Nat)
  | syncing
  | renaming
  | done (answer : Except Disk.Fault Unit)

structure SaveCall where
  path : String
  bytes : Bytes
  count : Nat
  stage : SaveStage

namespace SaveCall

def begin (path : String) (scan : List Silence) : SaveCall :=
  ⟨path, Silence.encodeAll scan, scan.length, .opening⟩

def fails (c : SaveCall) (fault : Disk.Fault) : SaveCall := { c with stage := .done (.error fault) }

/-- The next step; a writing step writes at most `chunk` bytes. -/
def step (chunk : Nat) (c : SaveCall) (d : Disk) : SaveCall × Disk :=
  match c.stage with
  | .opening =>
    match (Disk.Path.ofText? (temporaryPath c.path)).bind d.create with
    | .error fault => (c.fails fault, d)
    | .ok (file, d) => ({ c with stage := .writing file 0 }, d)
  | .writing file offset =>
    let part := (c.bytes.drop offset).take chunk
    let written := offset + part.length
    ({ c with stage := if written < c.bytes.length then .writing file written else .syncing },
      d.writeAt file offset part)
  | .syncing => ({ c with stage := .renaming }, d)
  | .renaming =>
    let renamed := do
      d.rename (← Disk.Path.ofText? (temporaryPath c.path)) (← Disk.Path.ofText? c.path)
    match renamed with
    | .error fault => (c.fails fault, d)
    | .ok d => ({ c with stage := .done (.ok ()) }, d)
  | .done _ => (c, d)

def steps (c : SaveCall) (d : Disk) : Nat → SaveCall × Disk
  | 0 => (c, d)
  | n + 1 =>
    let (c, d) := c.step c.bytes.length d
    c.steps d n

/-- How many steps a call takes that writes everything at once. -/
def allSteps : Nat := 4

def run (c : SaveCall) (d : Disk) : Except Failure Unit × Disk × Log :=
  let (c, d) := c.steps d allSteps
  match c.stage with
  | .done (.ok ()) => (.ok (), d, [.saved c.path c.count])
  | .done (.error fault) => (.error (.fault fault), d, [])
  -- all steps bring a call to its end
  | _ => (.ok (), d, [])

end SaveCall

end AlertSilences
