import AlertSilences.Host.Reply
import AlertSilences.Host.Request
import AlertSilences.Registry.Batch

/-! Serving requests. A request comes with the name of a handle; one that needs a registry
is refused if the handle names none. -/

namespace AlertSilences

structure Served where
  host : Host
  reply : Reply
  log : Log

namespace Host

def nothing (reply : Reply) (h : Host) : Served := ⟨h, reply, []⟩

def replyOf {α : Type} (value : α → Reply) : Except Failure α → Reply
  | .ok a => value a
  | .error e => .failed e

def call {α : Type} (h : Host) (owner : Disk.Owner) (live : Live) (value : α → Reply)
    (op : Registry → Outcome α) : Served :=
  let out := op live.registry
  ⟨h.setRegistry owner out.registry, replyOf value out.answer, out.log⟩

def saveTo (h : Host) (live : Live) (path : String) : Served :=
  let (answer, disk, log) := (SaveCall.begin path live.registry.silences).run h.disk
  ⟨{ h with disk }, replyOf (fun _ => .done) answer, log⟩

def onDisk (h : Host) : Except Disk.Fault Disk → Served
  | .ok disk => ⟨{ h with disk }, .done, []⟩
  | .error fault => ⟨h, .failed (.fault fault), []⟩

def describeText (live : Live) : String :=
  "SilenceStore \x7b path: " ++ Text.quoted live.config.path ++ ", silences: " ++
    toString live.registry.size ++ " \x7d"

/-- How long a silence is waited for, in milliseconds. -/
def longestWait : Nat := 600

def isGone (owner : Disk.Owner) (id : SilenceId) (h : Host) : Bool :=
  match h.stores[owner]? with
  | none => true
  | some live => !live.registry.records.contains id

def serveStore (h : Host) (owner : Disk.Owner) (live : Live) : Request → Served
  | .clone name =>
    let (h, log) := h.clone owner name
    ⟨h, .done, log⟩
  | .add s => h.call owner live .id (·.add h.clock s)
  | .update s => h.call owner live (fun _ => .done) (·.update h.clock s)
  | .modify id change =>
    match live.registry.get id with
    | .error e => ⟨h, .failed e, []⟩
    | .ok s => h.call owner live (fun _ => .done) (·.update h.clock (change.apply s))
  | .get id => nothing (replyOf .silence (live.registry.get id)) h
  | .delete id => h.call owner live (fun _ => .done) (·.delete id)
  | .list => nothing (.silences live.registry.silences) h
  | .size => nothing (.count live.registry.size) h
  | .isEmpty => nothing (.flag (live.registry.size == 0)) h
  | .clear => h.call owner live .count Registry.clear
  | .close => h.call owner live (fun _ => .done) Registry.close
  | .inhibited labels =>
    let scan := live.registry.silences
    nothing (.matching (Registry.inhibiting? scan labels)
      (scan.filter fun s => s.filters.handles labels)) h
  | .load path =>
    h.call owner live .count (·.load h.clock h.readings path (h.disk.readText path))
  | .save path => h.saveTo live path
  | .persist => h.saveTo live live.config.path
  | .config => nothing (.config live.config) h
  | .describe => nothing (.text (describeText live)) h
  | .addMany s count =>
    h.call owner live (fun ids => .range ids.head? ids.getLast?)
      (Registry.inTurn (fun n => Registry.add h.clock (Registry.numbered s n)) (List.range count))
  | .deleteMany first last =>
    h.call owner live (fun (done : List Unit) => .count done.length)
      (Registry.eachInTurn Registry.delete (live.registry.idsBetween first last))
  | .updateMany first last s =>
    h.call owner live (fun (done : List Unit) => .count done.length)
      (Registry.eachInTurn (fun id => Registry.update h.clock (s.withId id))
        (live.registry.idsBetween first last))
  | .addInThreads s threads each =>
    h.call owner live (fun ids => .threads (.ofThreads ids))
      (Registry.eachInTurn (fun _ =>
          Registry.eachInTurn (fun _ => Registry.add h.clock s) (List.range each))
        (List.range threads))
  | .awaitGone id =>
    let (h, log) := h.waitFor (isGone owner id) longestWait
    ⟨h, .flag (isGone owner id h), log⟩
  -- all others need no registry
  | _ => nothing .noStore h

def serve (h : Host) (name : String) : Request → Served
  | .new =>
    let (h, log) := h.make name .standard
    ⟨h, .done, log⟩
  | .withConfig config =>
    let (h, log) := h.make name config
    ⟨h, .done, log⟩
  | .openAt config =>
    let (h, answer, log) := h.openAt name config
    ⟨h, replyOf (fun _ => .done) answer, log⟩
  | .drop =>
    let (h, there, log) := h.drop name
    ⟨h, .flag there, log⟩
  | .sleep millis =>
    let (h, log) := h.sleep millis
    ⟨h, .done, log⟩
  | .write path bytes => h.onDisk (h.disk.write path bytes)
  | .makeFolder path =>
    match h.disk.makeFolders path with
    | (disk, .ok ()) => ⟨{ h with disk }, .done, []⟩
    | (disk, .error fault) => ⟨{ h with disk }, .failed (.fault fault), []⟩
  | .remove path => h.onDisk (h.disk.remove path)
  | .read path =>
    match h.disk.readText path with
    | .ok bytes => ⟨h, .file (.ofBytes bytes), []⟩
    | .error fault => ⟨h, .failed (.fault fault), []⟩
  | .listFiles => nothing (.paths h.disk.list) h
  | request =>
    match h.owner? name with
    | none => nothing .noStore h
    | some owner =>
      match h.stores[owner]? with
      | none => nothing .noStore h
      | some live => h.serveStore owner live request

def serveAndRest (h : Host) (name : String) (request : Request) : Served :=
  let served := h.serve name request
  let (h, log) := served.host.rest
  ⟨h, served.reply, served.log ++ log⟩

end Host

end AlertSilences
