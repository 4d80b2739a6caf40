import AlertSilences.Proofs.Disk.Paving
import AlertSilences.Proofs.Host.Handles
import AlertSilences.Proofs.Storage.Attempt
import AlertSilences.Proofs.Storage.Reload

/-! What an open leaves on the disk, if nobody else is at it. A file that is there is loaded and not
touched; where none is there and none is wanted nothing happens; a new one is empty, and can be
opened again, and with it come only folders on the way to it and the lock file. -/

namespace AlertSilences

open Disk

namespace Disk

theorem keeps_locks (d : Disk) (held : Std.ExtTreeMap Inode Owner) :
    d.Keeps { d with locks := held } := ⟨rfl, fun h => ⟨_, h⟩, fun h _ => h⟩

theorem confined_locks (places : Inode → String → Prop) (files : Inode → Prop) (d : Disk)
    (held : Std.ExtTreeMap Inode Owner) : Confined places files d { d with locks := held } :=
  ⟨keeps_locks d held, keeps_locks { d with locks := held } d.locks, fun _ => rfl, fun _ => rfl⟩

theorem Formed.locks {d : Disk} (formed : d.Formed) (held : Std.ExtTreeMap Inode Owner) :
    Formed { d with locks := held } := (Change.locks held).formed formed

/-- The file under a name can be opened for writing. -/
theorem create_eq_ok {d : Disk} {text : String} {i j : Inode} {name : String}
    (names : d.Names text i name) (child : d.child? i name = some j) (file : d.isFolder j = false) :
    (Path.ofText? text).bind d.create = .ok (j, d.setNode j (.file [])) := by
  obtain ⟨p, hp, ⟨front, hnames, hslash, hdot, hdots, hwalk, hfolder⟩, hname⟩ := names
  obtain ⟨parent, inside, hi⟩ := isFolder_iff.1 hfolder
  rw [child?_of_node? hi] at child
  refine bind_eq_ok.2 ⟨p, hp, ?_⟩
  rw [create]
  refine bind_eq_ok.2 ⟨_, place_eq_ok.2 ⟨hi, front, hnames, hdot, hdots, hwalk⟩, ?_⟩
  simp only [hslash, hname, child, file]
  rfl

/-- The lock file of a path is in the hands of an owner. -/
def Secures (d : Disk) (path : String) (owner : Owner) : Prop :=
  ∃ file, d.LockFile path file ∧ d.isFolder file = false ∧ d.locks[file]? = some owner

theorem Created.secures {d d' : Disk} (formed : d.Formed) {path : String} {i file : Inode}
    {name : String} (h : Created d d' i name file) (names : d.Names (lockPath path) i name)
    (owner : Owner) : Secures { d' with locks := d'.locks.insert file owner } path owner := by
  have names' := (names.keeps (h.change.keeps formed)).keeps
    (keeps_locks d' (d'.locks.insert file owner))
  refine ⟨file, ⟨i, name, names', h.child⟩, isFolder_of_content? h.content, ?_⟩
  simp

theorem Secures.advance {d d' : Disk} (formed : d.Formed) {path : String} {owner : Owner}
    (secures : d.Secures path owner) {chunk : Nat} {c c' : SaveCall} (hpath : c.path = path)
    (underway : c.Underway d) (h : SaveCall.Advance chunk c d c' d') : d'.Secures path owner := by
  obtain ⟨file, ⟨i, name, names, child⟩, nofolder, held⟩ := secures
  subst hpath
  have names' := names.keeps (h.keeps formed)
  refine ⟨file, ⟨i, name, names', (h.child?_lock names).trans child⟩, ?_, h.locks_eq ▸ held⟩
  rw [(h.confined formed underway).isFolder_eq, nofolder]

end Disk

namespace Config

/-- The name of the lock file, if the lock is wanted. -/
def LockPlace (config : Config) (d : Disk) (i : Inode) (name : String) : Prop :=
  config.lock = true ∧ d.Names (lockPath config.path) i name

/-- The file that is emptied for the lock: the one at its name, or a new one. -/
def LockFill (config : Config) (d : Disk) (k : Inode) : Prop :=
  config.lock = true ∧ d.At (lockPath config.path) k ∨ d.next ≤ k

/-- The names of files in which an open may write: the one beside the path, and the lock file. -/
def WritesAt (config : Config) (d : Disk) (i : Inode) (name : String) : Prop :=
  d.Names (temporaryPath config.path) i name ∨ config.LockPlace d i name

/-- The names that an open may give to files: these, and once it has saved the path. -/
def Places (config : Config) (saved : Prop) (d : Disk) (i : Inode) (name : String) : Prop :=
  config.WritesAt d i name ∨ saved ∧ d.Names config.path i name

/-- The files in which an open may write. -/
def Fills (config : Config) (d : Disk) (k : Inode) : Prop :=
  d.MayFill config.path k ∨ config.LockFill d k

variable {config : Config} {saved saved' : Prop} {d d' before : Disk}

theorem WritesAt.keeps {i : Inode} {name : String} (h : config.WritesAt d i name)
    (keeps : d.Keeps d') : config.WritesAt d' i name :=
  h.imp (·.keeps keeps) fun ⟨wanted, hlock⟩ => ⟨wanted, hlock.keeps keeps⟩

theorem Places.keeps {i : Inode} {name : String} (h : config.Places saved d i name)
    (keeps : d.Keeps d') : config.Places saved d' i name :=
  h.imp (·.keeps keeps) fun ⟨hsaved, hpath⟩ => ⟨hsaved, hpath.keeps keeps⟩

theorem WritesAt.not_names {i : Inode} {name : String} (h : config.WritesAt d i name) :
    ¬d.Names config.path i name := by
  intro hpath
  rcases h with htemporary | ⟨-, hlock⟩
  · exact hpath.ne_beside not_mem_tmp (by decide) htemporary rfl
  · exact hpath.ne_beside not_mem_lock (by decide) hlock rfl

/-- Where an open may write there is a name of one of these files, or the file is new. -/
theorem Fills.exists_writesAt {k : Inode} (h : config.Fills d k) (made : k < d.next) :
    ∃ i name, config.WritesAt d i name ∧ d.child? i name = some k := by
  rcases h with (⟨i, name, names, hk⟩ | hnew) | ⟨wanted, i, name, names, hk⟩ | hnew
  · exact ⟨i, name, .inl names, hk⟩
  · exact absurd made (Nat.not_lt_of_le hnew)
  · exact ⟨i, name, .inr ⟨wanted, names⟩, hk⟩
  · exact absurd made (Nat.not_lt_of_le hnew)

/-- The file at the path is not emptied for the lock, if it is not the lock file. -/
theorem LockApart.not_lockFill (formed : d.Formed) (apart : config.LockApart d) {k : Inode}
    (hk : d.At config.path k) : ¬config.LockFill d k := by
  rintro (⟨wanted, hlock⟩ | hnew)
  · exact apart wanted k hk hlock
  · exact Nat.not_le_of_lt (hk.lt_next formed) hnew

theorem LockApart.locks (apart : config.LockApart d) (held : Std.ExtTreeMap Inode Owner) :
    config.LockApart { d with locks := held } := by
  intro wanted k hpath hlock
  have hiff {text : String} : ({ d with locks := held } : Disk).At text k ↔ d.At text k :=
    (confined_locks (fun _ _ => False) (fun _ => False) d held).at_iff (fun _ _ _ => not_false) k
  exact apart wanted k (hiff.1 hpath) (hiff.1 hlock)

theorem confined_of_lock {i file : Inode} {name : String} (formed : d.Formed)
    (created : Created d d' i name file) (names : d.Names (lockPath config.path) i name)
    (wanted : config.lock = true) :
    Confined (config.LockPlace d) (config.LockFill d) d d' := by
  refine (created.confined formed).mono ?_ ?_
  · rintro g m ⟨rfl, rfl⟩
    exact ⟨wanted, names⟩
  · rintro k rfl
    exact (created.at_or_new names).imp_left (⟨wanted, ·⟩)

/-- After the folders on the way to the path have been made, only names and files with which an open
may deal have become others. -/
structure Prepares (config : Config) (saved : Prop) (paved d : Disk) : Prop where
  confined : Confined (config.Places saved paved) (config.Fills paved) paved d
  beside : ∀ {k}, d.MayFill config.path k → paved.MayFill config.path k
  lockFill : ∀ {k}, config.LockFill d k → config.LockFill paved k

namespace Prepares

variable {paved : Disk}

theorem refl (config : Config) (saved : Prop) (d : Disk) : config.Prepares saved d d :=
  ⟨.refl _ _ d, id, id⟩

variable (h : config.Prepares saved paved d)

include h

theorem fills {k : Inode} (hk : config.Fills d k) : config.Fills paved k := hk.imp h.beside h.lockFill

theorem change (mono : saved → saved')
    (change : Confined (config.Places saved' d) (config.Fills d) d d')
    (beside : ∀ {k}, d'.MayFill config.path k → d.MayFill config.path k)
    (lockFill : ∀ {k}, config.LockFill d' k → config.LockFill d k) :
    config.Prepares saved' paved d' := by
  refine ⟨?_, fun hk => h.beside (beside hk), fun hk => h.lockFill (lockFill hk)⟩
  refine (h.confined.mono (fun _ _ hplace => ?_) fun _ => id).trans
    (change.mono (fun _ _ hplace => hplace.keeps h.confined.back) fun _ => h.fills)
  exact hplace.imp_right (And.imp_left mono)

theorem mono (mono : saved → saved') : config.Prepares saved' paved d :=
  h.change mono (.refl _ _ d) id id

/-- Making the lock file is about that alone. -/
theorem lock (formed : d.Formed) {i file : Inode} {name : String}
    (created : Created d d' i name file) (names : d.Names (lockPath config.path) i name)
    (wanted : config.lock = true) (held : Std.ExtTreeMap Inode Owner) :
    config.Prepares saved paved { d' with locks := held } := by
  have confined := (confined_of_lock formed created names wanted).trans (confined_locks _ _ d' held)
  refine h.change id (confined.mono (fun _ _ hplace => .inl (.inr hplace)) fun _ => .inr) ?_ ?_
  · have htemporary (g : Inode) (m : String) (hm : d.Names (temporaryPath config.path) g m) :
        ¬config.LockPlace d g m := fun hlock =>
      (names_beside_ne not_mem_tmp (by decide) not_mem_lock (by decide) (by decide) hm hlock.2).2 rfl
    exact fun {_} hk => hk.imp (confined.at_iff htemporary _).1 (Nat.le_trans created.change.next_le)
  · rintro k (⟨-, hk⟩ | hnew)
    · -- what the lock file is now has been made for it, or was it before
      have names' := (names.keeps (created.change.keeps formed)).keeps (keeps_locks d' held)
      obtain rfl := Option.some.inj ((names'.at_iff.1 hk).symm.trans created.child)
      exact (created.at_or_new names).imp_left (⟨wanted, ·⟩)
    · exact .inr (Nat.le_trans created.change.next_le hnew)

/-- A step of the save that an open ends with is about the path and the file beside it. -/
theorem save (formed : d.Formed) {chunk : Nat} {call call' : SaveCall}
    (path : call.path = config.path) (underway : call.Underway d) (unsaved : ¬saved)
    (advance : SaveCall.Advance chunk call d call' d') :
    config.Prepares call'.IsSaved paved d' := by
  have confined := advance.confined formed underway
  rw [path] at confined
  have nextLe := advance.next_le formed
  refine h.change (fun hsaved => absurd hsaved unsaved) (confined.mono ?_ fun _ => .inl) ?_ ?_
  · exact fun i name hplace => hplace.imp_left .inl
  · rintro k (hk | hnew)
    · rw [← path] at hk
      exact path ▸ advance.mayFill_of_at formed hk
    · exact .inr (Nat.le_trans nextLe hnew)
  · rintro k (⟨wanted, i, name, names, hk⟩ | hnew)
    · have names' := names.keeps confined.back
      rw [← path] at names'
      rw [advance.child?_lock names'] at hk
      exact .inl ⟨wanted, i, name, path ▸ names', hk⟩
    · exact .inr (Nat.le_trans nextLe hnew)

/-- If the path and the one beside it have one file before the path is given it, they had that
already when the folders had been made. -/
theorem at_both (formed : paved.Formed) (unsaved : ¬saved) {k : Inode} (hpath : d.At config.path k)
    (htemporary : d.At (temporaryPath config.path) k) :
    paved.At config.path k ∧ paved.At (temporaryPath config.path) k := by
  have hbefore : paved.At config.path k := by
    refine (h.confined.at_iff (fun i name names hplace => ?_) k).1 hpath
    rcases hplace with hwrites | ⟨hsaved, -⟩
    · exact hwrites.not_names names
    · exact unsaved hsaved
  refine ⟨hbefore, (h.beside (.inl htemporary)).resolve_right fun hnew => ?_⟩
  exact Nat.not_le_of_lt (hbefore.lt_next formed) hnew

end Prepares

/-- What an open that found nothing has done when it succeeds: the file is there, and complete. What
is new besides is the lock file or a folder on the way that was missing; what has another name keeps
it, and is as it was unless it is a file in which the open writes under its other name. No file is
left beside the path unless, with the folders made, the path led to that one as well. With the
locks of the owner given back the file can be opened again, as long as the lock is wanted only if it
was, or can be had, and the lock file is not the file at the path. -/
structure Created (config : Config) (owner : Owner) (before d : Disk) (registry : Registry) :
    Prop where
  registry_eq : registry = .empty
  file : d.file? config.path = some (Silence.encodeAll [])
  temporary : (before.makeParents config.path).1.Apart config.path (temporaryPath config.path) →
    d.exists? (temporaryPath config.path) = false
  new : ∀ g m k, d.child? g m = some k → before.child? g m = some k ∨
    d.Names config.path g m ∨ config.LockPlace d g m ∨
    ∃ text, Path.OnTheWay text config.path ∧ before.isFolderAt text = false ∧ d.FolderAt text k
  old : ∀ g m k, before.child? g m = some k → ¬d.Names config.path g m → ¬config.WritesAt d g m →
    d.child? g m = some k ∧
      ((∀ g' m', config.WritesAt d g' m' → before.child? g' m' ≠ some k) →
        d.content? k = before.content? k)
  reopens : ∀ (config' : Config) (owner' : Owner) (now : Instant) (clock : Nat → Instant),
    config'.path = config.path → config'.LockApart d →
    config'.lock = config.lock ∨ OpenCall.CanLock config' (d.unlock owner) →
    ((OpenCall.begin config' owner').run now clock (d.unlock owner)).1.stage = .done (.ok .empty)

end Config

theorem Registry.load_nothing (now : Instant) (clock : Nat → Instant) (path : String) :
    empty.load now clock path (.ok (Silence.encodeAll [])) = ⟨.ok 0, empty, [.loaded path 0]⟩ := by
  have inTime (i : Nat) (x : Silence) (hx : ([] : List Silence)[i]? = some x) :
      x.EndsInTime (clock i) := by
    cases hx
  obtain ⟨silences, hread, hlength, -⟩ := Silence.decodeAll_written clock inTime
  obtain rfl := List.eq_nil_of_length_eq_zero hlength
  simp only [load, hread]
  rfl

namespace OpenCall

variable {now : Instant} {clock : Nat → Instant} {c c' : OpenCall} {config : Config}
  {owner : Owner} {before d d' : Disk}

def isOpened (c : OpenCall) : Bool :=
  match c.stage with
  | .done (.ok _) => true
  | _ => false

/-- With the lock given back, it can be had again. -/
theorem canLock_of_secures {d : Disk} {owner : Owner} {config : Config}
    (h : config.lock = true → d.Secures config.path owner) : CanLock config (d.unlock owner) := by
  intro wanted
  obtain ⟨file, ⟨i, name, names, child⟩, nofolder, held⟩ := h wanted
  have names' : (d.unlock owner).Names (lockPath config.path) i name :=
    names.keeps (keeps_locks d _)
  refine ⟨file, _, create_eq_ok names' child nofolder, ?_⟩
  rw [getElem?_unlock, if_pos held]

theorem disk_step_of_making (now : Instant) (clock : Nat → Instant) (d : Disk)
    (stage : c.stage = .making) : (c.step now clock d).2 = (d.makeParents c.config.path).1 := by
  simp only [step, stage]
  split
  · next h => rw [h]
  · next h => rw [h]

/-- What every step of an open leaves true is true when it is done. -/
theorem steps_induction {P : OpenCall → Disk → Prop}
    (step : ∀ {c d c' d'}, d.Formed → Advance now clock c d c' d' →
      (c.stage = .making → d' = (d.makeParents c.config.path).1) → P c d → P c' d')
    (formed : d.Formed) (h : P c d) (n : Nat) :
    (c.steps now clock d n).2.Formed ∧ P (c.steps now clock d n).1 (c.steps now clock d n).2 := by
  induction n generalizing c d with
  | zero => exact ⟨formed, h⟩
  | succ n ih =>
    have advance := advance_step formed now clock c
    exact ih (advance.formed formed) (step formed advance (disk_step_of_making now clock d) h)

/-- What an open has done so far that found something at its path. -/
def Loading (now : Instant) (clock : Nat → Instant) (config : Config) (before : Disk)
    (c : OpenCall) (d : Disk) : Prop :=
  c.config = config ∧
    match c.stage with
    | .checking => c.registry = .empty ∧ d = before ∧ d.exists? config.path = true
    | .locking existed => existed = true ∧ c.registry = .empty ∧ d = before
    | .filling existed => existed = true ∧ c.registry = .empty ∧
        Confined (config.LockPlace before) (config.LockFill before) before d
    | .done answer =>
        Confined (config.LockPlace before) (config.LockFill before) before d ∧
        (config.LockApart before → ∀ registry, answer = .ok registry → ∃ bytes count log,
          before.file? config.path = some bytes ∧
          Registry.empty.load now clock config.path (.ok bytes) = ⟨.ok count, registry, log⟩)
    | _ => False

/-- The file at the path is as it was, if it is not the lock file as well. -/
theorem untouched_of_lock (formed : d.Formed) (before_formed : before.Formed)
    (confined : Confined (config.LockPlace before) (config.LockFill before) before d)
    (apart : config.LockApart before) : Untouched before d config.path :=
  confined.untouched before_formed formed
    (fun _ _ names hlock => names.ne_beside not_mem_lock (by decide) hlock.2 rfl)
    fun _ => apart.not_lockFill before_formed

/-- An open that found something changes no file but the lock file. -/
theorem Advance.loading (formed : d.Formed) (before_formed : before.Formed)
    (h : Advance now clock c d c' d') (hc : c.Loading now clock config before d) :
    c'.Loading now clock config before d' := by
  obtain ⟨rfl, hc⟩ := hc
  refine ⟨h.config_eq, ?_⟩
  cases h with
  | found stage there =>
    rw [stage] at hc
    exact ⟨rfl, hc.1, hc.2.1⟩
  | missed stage gone =>
    rw [stage] at hc
    exact absurd (hc.2.2.symm.trans gone) nofun
  | refused stage gone =>
    rw [stage] at hc
    exact absurd (hc.2.2.symm.trans gone) nofun
  | made stage _ => rw [stage] at hc; exact hc.elim
  | unmade stage _ _ => rw [stage] at hc; exact hc.elim
  | @passed existed stage free =>
    rw [stage] at hc
    obtain ⟨rfl, hempty, rfl⟩ := hc
    exact ⟨rfl, hempty, .refl _ _ d⟩
  | @locked existed i name file d' stage names created free wanted =>
    rw [stage] at hc
    obtain ⟨rfl, hempty, rfl⟩ := hc
    exact ⟨rfl, hempty,
      (Config.confined_of_lock formed created names wanted).trans (confined_locks _ _ _ _)⟩
  | @blocked existed i name file d' stage names created held wanted =>
    rw [stage] at hc
    obtain ⟨-, -, rfl⟩ := hc
    exact ⟨Config.confined_of_lock formed created names wanted, fun _ _ hdone => nomatch hdone⟩
  | @barred existed stage fault =>
    rw [stage] at hc
    obtain ⟨-, -, rfl⟩ := hc
    exact ⟨.refl _ _ d, fun _ _ hdone => nomatch hdone⟩
  | @loaded count registry log stage load =>
    rw [stage] at hc
    obtain ⟨-, hempty, confined⟩ := hc
    refine ⟨confined, fun apart => ?_⟩
    rintro registry' ⟨⟩
    have hsame := (untouched_of_lock formed before_formed confined apart).file
    rw [hempty] at load
    cases hread : d.readText c.config.path with
    | error fault =>
      rw [hread] at load
      cases load
    | ok bytes =>
      rw [hread] at load
      exact ⟨bytes, count, log, hsame ▸ readText_eq_ok.1 hread, load⟩
  | unloaded stage load =>
    rw [stage] at hc
    exact ⟨hc.2.2.trans (confined_locks _ _ _ _), fun _ _ hdone => nomatch hdone⟩
  | filled stage => rw [stage] at hc; cases hc.1
  | saving stage _ _ => rw [stage] at hc; exact hc.elim
  | saved stage _ _ => rw [stage] at hc; exact hc.elim
  | unsaved stage _ _ => rw [stage] at hc; exact hc.elim
  | rest stage => exact hc

/-- What an open has done so far that found nothing. From when the folders have been made, the disk
is compared with that one. -/
def Creating (config : Config) (owner : Owner) (before : Disk) (c : OpenCall) (d : Disk) : Prop :=
  c.config = config ∧ c.owner = owner ∧
    match c.stage with
    | .checking => c.registry = .empty ∧ d = before ∧ d.exists? config.path = false
    | .making => c.registry = .empty ∧ d = before
    | .locking existed => existed = false ∧ c.registry = .empty ∧
        config.Prepares False (before.makeParents config.path).1 d
    | .filling existed => existed = false ∧ c.registry = .empty ∧
        config.Prepares False (before.makeParents config.path).1 d ∧
        (config.lock = true → d.Secures config.path owner)
    | .saving call => c.registry = .empty ∧
        config.Prepares False (before.makeParents config.path).1 d ∧
        (config.lock = true → d.Secures config.path owner) ∧ call.path = config.path ∧
        call.bytes = Silence.encodeAll [] ∧ call.Underway d ∧ ¬call.IsSaved
    | .done (.ok registry) => registry = .empty ∧
        config.Prepares True (before.makeParents config.path).1 d ∧
        (config.lock = true → d.Secures config.path owner) ∧
        d.file? config.path = some (Silence.encodeAll []) ∧
        (d.exists? (temporaryPath config.path) = false ∨ ∃ k,
          d.At (temporaryPath config.path) k ∧
          (before.makeParents config.path).1.At config.path k ∧
          (before.makeParents config.path).1.At (temporaryPath config.path) k)
    | .done (.error _) => True

theorem Advance.creating (formed : d.Formed) (before_formed : before.Formed)
    (h : Advance now clock c d c' d')
    (made : c.stage = .making → d' = (d.makeParents c.config.path).1)
    (hc : c.Creating config owner before d) : c'.Creating config owner before d' := by
  obtain ⟨rfl, rfl, hc⟩ := hc
  refine ⟨h.config_eq, h.owner_eq, ?_⟩
  cases h with
  | found stage there =>
    rw [stage] at hc
    exact absurd (hc.2.2.symm.trans there) nofun
  | missed stage gone =>
    rw [stage] at hc
    exact ⟨hc.1, hc.2.1⟩
  | refused stage gone => trivial
  | made stage widens =>
    rw [stage] at hc
    obtain ⟨hempty, rfl⟩ := hc
    obtain rfl := made stage
    exact ⟨rfl, hempty, .refl _ _ _⟩
  | unmade stage _ _ => trivial
  | @passed existed stage free =>
    rw [stage] at hc
    obtain ⟨rfl, hempty, prepares⟩ := hc
    exact ⟨rfl, hempty, prepares, fun wanted => absurd (wanted.symm.trans free) nofun⟩
  | @locked existed i name file d' stage names created free wanted =>
    rw [stage] at hc
    obtain ⟨rfl, hempty, prepares⟩ := hc
    exact ⟨rfl, hempty, prepares.lock formed created names wanted _,
      fun _ => created.secures formed names c.owner⟩
  | blocked stage _ _ _ => trivial
  | barred stage _ => trivial
  | loaded stage _ =>
    rw [stage] at hc
    cases hc.1
  | unloaded stage load => trivial
  | filled stage =>
    rw [stage] at hc
    obtain ⟨-, hempty, prepares, secures⟩ := hc
    refine ⟨hempty, prepares, secures, rfl, ?_, trivial, nofun⟩
    rw [hempty]
    rfl
  | saving stage advance more =>
    rw [stage] at hc
    obtain ⟨hempty, prepares, secures, path, bytes, underway, -⟩ := hc
    exact ⟨hempty, (prepares.save formed path underway not_false advance).mono (more _),
      fun wanted => (secures wanted).advance formed path underway advance,
      advance.path_eq.trans path, advance.bytes_eq.trans bytes, advance.underway formed underway,
      more _⟩
  | saved stage advance done =>
    rw [stage] at hc
    obtain ⟨hempty, prepares, secures, path, bytes, underway, unsaved⟩ := hc
    refine ⟨hempty, (prepares.save formed path underway not_false advance).mono fun _ => trivial,
      fun wanted => (secures wanted).advance formed path underway advance, ?_, ?_⟩
    · rw [← path, ← bytes]
      exact advance.file?_of_saved formed underway unsaved done
    · have htemporary := advance.exists?_temporary formed unsaved done
      rw [path] at htemporary
      refine htemporary.imp_right ?_
      rintro ⟨rfl, k, hk, hk'⟩
      exact ⟨k, hk,
        prepares.at_both (widens_makeParents before_formed _).formed not_false hk' hk⟩
  | unsaved stage _ _ => trivial
  | rest stage => exact hc

theorem created_of_prepares (formed : d.Formed) (before_formed : before.Formed)
    (prepares : config.Prepares True (before.makeParents config.path).1 d)
    (secures : config.lock = true → d.Secures config.path owner)
    (file : d.file? config.path = some (Silence.encodeAll []))
    (temporary : d.exists? (temporaryPath config.path) = false ∨ ∃ k,
      d.At (temporaryPath config.path) k ∧
      (before.makeParents config.path).1.At config.path k ∧
      (before.makeParents config.path).1.At (temporaryPath config.path) k) :
    config.Created owner before d .empty := by
  have widens := widens_makeParents before_formed config.path
  have paves := paves_makeParents before_formed config.path
  have confined := prepares.confined
  generalize hpaved : (before.makeParents config.path).1 = paved at widens paves confined temporary
  -- what had a name when the folders had been made had it before, or is one of them
  have hnew {g m k} (hk : paved.child? g m = some k) : before.child? g m = some k ∨
      ∃ text, Path.OnTheWay text config.path ∧ before.isFolderAt text = false ∧
        d.FolderAt text k := by
    refine (paves g m k hk).imp_right fun ⟨hnew, text, hway, hfolder⟩ =>
      ⟨text, hway, ?_, hfolder.keeps confined.keeps⟩
    by_contra hthere
    obtain ⟨k', hbefore⟩ := isFolderAt_eq_true.1 (Bool.not_eq_false _ ▸ hthere)
    obtain rfl := (hbefore.keeps widens.keeps).unique hfolder
    cases hnew.symm.trans hbefore.2
  refine ⟨rfl, file, fun apart => ?_, fun g m k hk => ?_, fun g m k hk hpath hwrites => ?_, ?_⟩
  · rw [hpaved] at apart
    exact temporary.resolve_right fun ⟨k, _, hk, hk'⟩ => apart k hk hk'
  · by_cases hplace : config.Places True paved g m
    · rcases hplace.keeps confined.keeps with (htemporary | hlock) | ⟨-, hpath⟩
      · rcases temporary with gone | ⟨k', hk', -, hpaved⟩
        · -- the file beside the path has gone with the rename
          rw [exists?_of_names htemporary, hk] at gone
          cases gone
        · obtain rfl := hk'.unique (htemporary.at_iff.2 hk)
          exact (hnew ((htemporary.keeps confined.back).at_iff.1 hpaved)).imp_right
            fun hmade => .inr (.inr hmade)
      · exact .inr (.inr (.inl hlock))
      · exact .inr (.inl hpath)
    · rw [confined.child hplace] at hk
      exact (hnew hk).imp_right fun hmade => .inr (.inr hmade)
  · have hchild := widens.child hk
    have hplace : ¬config.Places True paved g m := fun hplace =>
      (hplace.keeps confined.keeps).elim hwrites fun hsaved => hpath hsaved.2
    refine ⟨(confined.child hplace).trans hchild, fun hapart => ?_⟩
    by_cases hfills : config.Fills paved k
    · obtain ⟨i, name, hwrites', hk'⟩ := hfills.exists_writesAt (widens.formed.named hchild)
      rcases paves i name k hk' with hbefore | ⟨-, text, -, hfolder⟩
      · exact absurd hbefore (hapart i name (hwrites'.keeps confined.keeps))
      · rw [← widens.contents, content?_of_isFolder hfolder.2,
          content?_of_isFolder (confined.keeps.isFolder hfolder.2)]
    · exact (confined.content hfills).trans (widens.contents k)
  · intro config' owner' now clock path apart hlock
    have hlocks : Confined (fun _ _ => False) (fun _ => False) d (d.unlock owner) :=
      confined_locks _ _ d _
    have formed' : (d.unlock owner).Formed := formed.locks _
    have there : (d.unlock owner).file? config'.path = some (Silence.encodeAll []) := by
      rw [path, ← file]
      exact (hlocks.untouched formed formed' (fun _ _ _ => not_false) fun _ _ => not_false).file
    have free : CanLock config' (d.unlock owner) := by
      rcases hlock with hsame | free
      · exact canLock_of_secures fun wanted => path ▸ secures (hsame ▸ wanted)
      · exact free
    exact run_of_load formed' config' owner' there (apart.locks _) free
      (Registry.load_nothing now clock config'.path)

theorem loading_of_run (formed : d.Formed) (there : d.exists? config.path = true) :
    ((begin config owner).run now clock d).2.Formed ∧
      ((begin config owner).run now clock d).1.Loading now clock config d
        ((begin config owner).run now clock d).2 := by
  have hbegin : (begin config owner).Loading now clock config d d := ⟨rfl, rfl, rfl, there⟩
  exact steps_induction (P := Loading now clock config d)
    (fun formed' advance _ hc => advance.loading formed' formed hc) formed hbegin allSteps

theorem creating_of_run (formed : d.Formed) (gone : d.exists? config.path = false) :
    ((begin config owner).run now clock d).2.Formed ∧
      ((begin config owner).run now clock d).1.Creating config owner d
        ((begin config owner).run now clock d).2 := by
  have hbegin : (begin config owner).Creating config owner d d := ⟨rfl, rfl, rfl, rfl, gone⟩
  exact steps_induction (P := Creating config owner d)
    (fun formed' advance made hc => advance.creating formed' formed made hc) formed hbegin allSteps

theorem run_of_missing (gone : d.exists? config.path = false)
    (refuses : config.createIfMissing = false) :
    (begin config owner).run now clock d =
      ((begin config owner).fails (.notInitialized config.path), d) := by
  have hstep : (begin config owner).step now clock d =
      ((begin config owner).fails (.notInitialized config.path), d) := by
    simp only [step, begin, gone, refuses]
    rfl
  have hcount : allSteps = 7 + 1 := rfl
  rw [run, hcount, steps_succ, hstep, steps_of_done _ _ _ rfl]

/-- What an open does to the disk while nobody else is at it. It always answers. If something is at
the path, no file but the lock file is another, whatever the answer; if moreover the lock file is
not a second name of what is at the path, that stays as it was, and if the answer is a registry, that
is what an empty one becomes that loads the bytes of the file. If nothing is there and nothing is to
be made, the answer says so, and the disk is as it was. If a file is to be made and the answer is a
registry, that is empty, and the file has been made. A registry that is in memory only leaves the
disk alone. -/
theorem footprint (formed : d.Formed) (now : Instant) (clock : Nat → Instant) (config : Config)
    (owner : Owner) :
    (∃ answer, ((begin config owner).run now clock d).1.stage = .done answer) ∧
    (d.exists? config.path = true →
      Confined (config.LockPlace d) (config.LockFill d) d
        ((begin config owner).run now clock d).2 ∧
      (config.LockApart d →
        Untouched d ((begin config owner).run now clock d).2 config.path ∧
        ∀ registry, ((begin config owner).run now clock d).1.stage = .done (.ok registry) →
          ∃ bytes count log, d.file? config.path = some bytes ∧
            Registry.empty.load now clock config.path (.ok bytes) = ⟨.ok count, registry, log⟩)) ∧
    (d.exists? config.path = false → config.createIfMissing = false →
      ((begin config owner).run now clock d).1.stage =
        .done (.error (.notInitialized config.path)) ∧
      ((begin config owner).run now clock d).2 = d) ∧
    (d.exists? config.path = false → config.createIfMissing = true →
      ∀ registry, ((begin config owner).run now clock d).1.stage = .done (.ok registry) →
        config.Created owner d ((begin config owner).run now clock d).2 registry) ∧
    ∀ (h : Host) (name : String),
      (∃ held, (h.make name config).1.disk = { h.disk with locks := held }) ∧
      (h.owner? name = none → (h.make name config).1.disk = h.disk) := by
  obtain ⟨answer, hanswer⟩ := exists_answer now clock config owner formed
  refine ⟨⟨answer, hanswer⟩, fun there => ?_, fun gone refuses => ?_, fun gone _ => ?_,
    fun h name => ⟨h.disk_make name config, fun free => h.disk_house_of_free free config .empty⟩⟩
  · obtain ⟨formed', -, hdone⟩ := loading_of_run formed there
    rw [hanswer] at hdone
    obtain ⟨confined, hloaded⟩ := hdone
    refine ⟨confined, fun apart => ⟨untouched_of_lock formed' formed confined apart,
      fun registry hregistry => hloaded apart registry ?_⟩⟩
    exact OpenStage.done.inj (hanswer.symm.trans hregistry)
  · rw [run_of_missing gone refuses]
    exact ⟨rfl, rfl⟩
  · intro registry hregistry
    obtain ⟨formed', -, -, hdone⟩ := creating_of_run formed gone
    rw [hregistry] at hdone
    obtain ⟨rfl, prepares, secures, file, temporary⟩ := hdone
    exact created_of_prepares formed' formed prepares secures file temporary

/-- On a blank disk an open makes two folders, its file and the lock file. -/
theorem footprint_below_new_folders :
    ∃ c d registry,
      (begin ⟨"a/b/p.json", true, true⟩ 0).run default (fun _ => default) .blank = (c, d) ∧
      c.stage = .done (.ok registry) ∧
      Config.Created ⟨"a/b/p.json", true, true⟩ 0 .blank d registry ∧
      d.isFolderAt "a/b" = true ∧ d.exists? "a/b/p.json.lock" = true ∧
      d.exists? "a/b/p.json.tmp" = false := by
  have gone : Disk.blank.exists? "a/b/p.json" = false := by decide +kernel
  have hfacts : let out := (begin ⟨"a/b/p.json", true, true⟩ 0).run default (fun _ => default) .blank
      out.1.isOpened = true ∧ out.2.isFolderAt "a/b" = true ∧
        out.2.exists? "a/b/p.json.lock" = true := by
    decide +kernel
  obtain ⟨⟨answer, hanswer⟩, -, -, hcreated, -⟩ :=
    footprint sound_blank.toFormed default (fun _ => default) ⟨"a/b/p.json", true, true⟩ 0
  obtain ⟨hopened, hfolder, hlock⟩ := hfacts
  rw [isOpened, hanswer] at hopened
  cases answer with
  | error e => cases hopened
  | ok registry =>
    have created := hcreated gone rfl registry hanswer
    have apart := ((widens_makeParents sound_blank.toFormed "a/b/p.json").sound
      sound_blank).apart_temporary "a/b/p.json"
    exact ⟨_, _, registry, Prod.mk.eta.symm, hanswer, created, hfolder, hlock,
      created.temporary apart⟩

/-- If the lock file is a second name of the file at the path, an open for the lock empties that,
finds nothing that it can load, and answers so. -/
theorem open_empties_file_with_second_name :
    (twoNames "p.json" "p.json.lock" (Silence.encodeAll [])).Formed ∧
    (twoNames "p.json" "p.json.lock" (Silence.encodeAll [])).file? "p.json" =
      some (Silence.encodeAll []) ∧
    ∃ c d, (begin ⟨"p.json", true, true⟩ 0).run default (fun _ => default)
        (twoNames "p.json" "p.json.lock" (Silence.encodeAll [])) = (c, d) ∧
      c.isOpened = false ∧ d.file? "p.json" = some [] := by
  have hfile : (twoNames "p.json" "p.json.lock" (Silence.encodeAll [])).file? "p.json" =
      some (Silence.encodeAll []) := by
    decide +kernel
  refine ⟨formed_twoNames _ _ _, hfile, _, _, Prod.mk.eta.symm, ?_, ?_⟩
  all_goals decide +kernel

end OpenCall

end AlertSilences
