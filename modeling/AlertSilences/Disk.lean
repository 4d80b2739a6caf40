import AlertSilences.Disk.Path
import AlertSilences.Text.Utf8
import Std.Data.ExtTreeMap

/-! A disk: numbered nodes that are files or folders of names, and who holds a file
locked. A name can be given to another node while the old one is still written to. -/

namespace AlertSilences

namespace Disk

abbrev Inode := Nat

abbrev Owner := Nat

inductive Node
  | file (content : Bytes)
  | folder (parent : Inode) (names : Std.ExtTreeMap String Inode)
deriving DecidableEq

end Disk

open Disk in
structure Disk where
  nodes : Std.ExtTreeMap Inode Node
  next : Inode
  home : Inode
  locks : Std.ExtTreeMap Inode Owner
deriving DecidableEq

namespace Disk

def root : Inode := 0

/-- A root and, in no folder of it, an empty working folder. -/
def blank : Disk :=
  ⟨.ofList [(0, Node.folder 0 ∅), (1, Node.folder 0 ∅)], 2, 1, ∅⟩

def node? (d : Disk) (i : Inode) : Option Node := d.nodes[i]?

def isFolder (d : Disk) (i : Inode) : Bool :=
  match d.node? i with
  | some (.folder ..) => true
  | _ => false

def setNode (d : Disk) (i : Inode) (node : Node) : Disk :=
  { d with nodes := d.nodes.insert i node }

def names? (d : Disk) (i : Inode) : Except Fault (Inode × Std.ExtTreeMap String Inode) :=
  match d.node? i with
  | none => .error .missing
  | some (.file _) => .error .notFolder
  | some (.folder parent names) => .ok (parent, names)

def checkName (name : String) : Except Fault Unit :=
  if name.utf8ByteSize > maxNameBytes then .error .nameTooLong else .ok ()

def enter (d : Disk) (i : Inode) (name : String) : Except Fault Inode := do
  let (parent, names) ← d.names? i
  if name = "." then return i
  if name = ".." then return parent
  checkName name
  match names[name]? with
  | some j => return j
  | none => throw .missing

def walk (d : Disk) (p : Path) (names : List String) : Except Fault Inode :=
  names.foldlM d.enter (if p.rooted then root else d.home)

def find (d : Disk) (p : Path) : Except Fault Inode := do
  let i ← d.walk p p.names
  if p.slash && !d.isFolder i then throw .notFolder
  return i

def exists? (d : Disk) (text : String) : Bool :=
  match Path.ofText? text with
  | .error _ => false
  | .ok p => (d.find p).isOk

/-- Where the last name of a path belongs: the folder, its parent and names, and that name if it
is one that could be given. -/
def place (d : Disk) (p : Path) :
    Except Fault (Inode × Inode × Std.ExtTreeMap String Inode × Option String) := do
  let i ← d.walk p p.names.dropLast
  let (parent, names) ← d.names? i
  match p.names.getLast? with
  | none => return (i, parent, names, none)
  | some name => return (i, parent, names, if name = "." || name = ".." then none else some name)

def link (d : Disk) (i parent : Inode) (names : Std.ExtTreeMap String Inode) (name : String)
    (node : Node) : Disk :=
  let d := d.setNode i (.folder parent (names.insert name d.next))
  { d.setNode d.next node with next := d.next + 1 }

/-- Opens a file for writing, emptied if it was there. -/
def create (d : Disk) (p : Path) : Except Fault (Inode × Disk) := do
  match ← d.place p with
  | (_, _, _, none) => throw .isFolder
  | (i, parent, names, some name) =>
    if p.slash then throw .isFolder
    checkName name
    match names[name]? with
    | none => return (d.next, d.link i parent names name (.file []))
    | some j =>
      if d.isFolder j then throw .isFolder
      return (j, d.setNode j (.file []))

def content? (d : Disk) (i : Inode) : Option Bytes :=
  match d.node? i with
  | some (.file content) => some content
  | _ => none

/-- Writes into an open file from an offset on; a gap is filled with zeros. -/
def writeAt (d : Disk) (i : Inode) (offset : Nat) (bytes : Bytes) : Disk :=
  match d.content? i with
  | none => d
  | some old =>
    d.setNode i (.file (old.take offset ++ List.replicate (offset - old.length) 0 ++ bytes ++
      old.drop (offset + bytes.length)))

def read (d : Disk) (p : Path) : Except Fault Bytes := do
  match d.content? (← d.find p) with
  | some content => return content
  | none => throw .isFolder

def readText (d : Disk) (text : String) : Except Fault Bytes := do
  d.read (← Path.ofText? text)

def write (d : Disk) (text : String) (bytes : Bytes) : Except Fault Disk := do
  let (i, d) ← d.create (← Path.ofText? text)
  return d.writeAt i 0 bytes

/-- Makes the folder at a path; the folders on the way must be there. -/
def makeFolder (d : Disk) (text : String) : Except Fault Disk := do
  let p ← Path.ofText? text
  match ← d.place p with
  | (_, _, _, none) => throw .taken
  | (i, parent, names, some name) =>
    checkName name
    if names[name]?.isSome then throw .taken
    return d.link i parent names name (.folder i ∅)

def isFolderAt (d : Disk) (text : String) : Bool :=
  match (Path.ofText? text).bind d.find with
  | .error _ => false
  | .ok i => d.isFolder i

def ensureFolder (d : Disk) (text : String) : Disk × Except Fault Unit :=
  match d.makeFolder text with
  | .ok d => (d, .ok ())
  | .error fault => (d, if d.isFolderAt text then .ok () else .error fault)

/-- Makes a folder unless it is there, after those around it, given innermost first, if they are
missing. What was made stays even if a later folder cannot be made. -/
def makeWithin (d : Disk) (text : String) : List String → Disk × Except Fault Unit
  | [] => d.ensureFolder text
  | outer :: more =>
    match d.makeFolder text with
    | .error .missing =>
      match d.makeWithin outer more with
      | (d, .error fault) => (d, .error fault)
      | (d, .ok ()) => d.ensureFolder text
    | _ => d.ensureFolder text

def makeFolders (d : Disk) (text : String) : Disk × Except Fault Unit :=
  if text.isEmpty then (d, .ok ())
  else
    match Path.ofText? text with
    | .error fault => (d, .error fault)
    | .ok _ => d.makeWithin text ((Path.ancestors text).drop 1)

def makeParents (d : Disk) (text : String) : Disk × Except Fault Unit :=
  match Path.outer? text with
  | none => (d, .ok ())
  | some outer => d.makeFolders outer

def need {α : Type} (fault : Fault) : Option α → Except Fault α
  | some a => .ok a
  | none => .error fault

def check (fault : Fault) (holds : Bool) : Except Fault Unit :=
  if holds then .ok () else .error fault

/-- Takes a file from under its name in one folder and puts it under a name in another, or in the
same. -/
def move (d : Disk) (i parent : Inode) (names : Std.ExtTreeMap String Inode) (name : String)
    (j : Inode) (newName : String) (file : Inode) : Except Fault Disk := do
  let d := d.setNode i (.folder parent (names.erase name))
  let (above, targets) ← d.names? j
  return d.setNode j (.folder above (targets.insert newName file))

/-- Gives the file at one path the name of another, whatever file that was. Where both are names of
one file nothing happens, and both stay. -/
def rename (d : Disk) (old new : Path) : Except Fault Disk := do
  let (i, parent, names, oldName) ← d.place old
  let (j, _, _, newName) ← d.place new
  let oldName ← need .busy oldName
  let newName ← need .busy newName
  checkName oldName
  let file ← need .missing names[oldName]?
  let (_, targets) ← d.names? j
  checkName newName
  check .isFolder (!d.isFolder file)
  check .notFolder (!(old.slash || new.slash))
  if targets[newName]? = some file then return d
  check .isFolder (!targets[newName]?.any d.isFolder)
  d.move i parent names oldName j newName file

def remove (d : Disk) (text : String) : Except Fault Disk := do
  let p ← Path.ofText? text
  match ← d.place p with
  | (_, _, _, none) => throw .isFolder
  | (i, parent, names, some name) =>
    checkName name
    match names[name]? with
    | none => throw .missing
    | some j =>
      if d.isFolder j then throw .isFolder
      if p.slash then throw .notFolder
      return d.setNode i (.folder parent (names.erase name))

/-- All paths below a folder; those of folders end in a slash. The number of nodes bounds how deep
folders are nested. -/
def listing (d : Disk) (i : Inode) (before : String) : Nat → List String
  | 0 => []
  | depth + 1 =>
    match d.node? i with
    | some (.folder _ names) => names.toList.flatMap fun e =>
      if d.isFolder e.2 then
        (before ++ e.1 ++ "/") :: d.listing e.2 (before ++ e.1 ++ "/") depth
      else [before ++ e.1]
    | _ => []

/-- All paths below the working folder, sorted. -/
def list (d : Disk) : List String :=
  (d.listing d.home "" d.nodes.size).mergeSort fun a b => a ≤ b

/-- Takes the lock on a file unless someone has it. -/
def lock? (d : Disk) (i : Inode) (owner : Owner) : Option Disk :=
  match d.locks[i]? with
  | some _ => none
  | none => some { d with locks := d.locks.insert i owner }

/-- Gives back all locks of an owner. -/
def unlock (d : Disk) (owner : Owner) : Disk :=
  { d with locks := d.locks.filter fun _ holder => holder ≠ owner }

end Disk

end AlertSilences
