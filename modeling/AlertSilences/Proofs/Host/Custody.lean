import AlertSilences.Proofs.Host.Loading
import Mathlib.Logic.Relation

/-! Registries that are made, opened, cloned and dropped on one machine in any order, while their
workers call back and while they and the files are used. The lock beside a path is held by the one
registry that was opened with it, from then on until its last handle is gone. -/

namespace AlertSilences

open Disk

/-- A machine; the callbacks of workers that run, by the registries that they have a handle of; and
which registries were opened with the lock of which path. -/
structure Custody where
  host : Host
  callbacks : List Owner
  opened : List (Owner × String)

namespace Custody

def start (clock : Instant) (d : Disk) : Custody := ⟨{ Host.begin clock with disk := d }, [], []⟩

def Held (s : Custody) (owner : Owner) : Prop :=
  (∃ name, s.host.owner? name = some owner) ∨ owner ∈ s.callbacks

/-- On a later disk no lock file of a registry with a handle is removed. -/
def Spares (s : Custody) (d : Disk) : Prop :=
  ∀ owner path file, (owner, path) ∈ s.opened → s.Held owner →
    s.host.disk.LockFile path file → d.LockFile path file

/-- A registry is opened, if the open answers so. -/
def openAt (s : Custody) (name : String) (config : Config) : Custody :=
  { s with
    host := (s.host.openAt name config).1
    opened :=
      if config.lock = true ∧ (s.host.openAt name config).2.1 = .ok () then
        (s.host.nextOwner, config.path) :: s.opened
      else s.opened }

/-- Which registries were opened with a lock, with the next one if it is to be. -/
def wanting (s : Custody) (config : Config) : List (Owner × String) :=
  if config.lock = true then (s.host.nextOwner, config.path) :: s.opened else s.opened

/-- An open has added what its file holds while the worker of the new registry took steps. If it
failed with that, a callback of the worker may have the one handle of the registry. -/
inductive Loads (s : Custody) (name : String) (config : Config) :
    Except Failure Unit → Custody → Prop
  | filled {call d registry} (filling : s.host.Filling config (.ok ()) call d registry) :
      Loads s name config (.ok ())
        { s with
          host := (Host.house { s.host with disk := d } name config registry).1
          opened := s.wanting config }
  | gone {e call d registry} (filling : s.host.Filling config (.error e) call d registry) :
      Loads s name config (.error e)
        { s with host := { s.host with disk := (call.abandon s.host.clock false e d).2 } }
  | forsaken {e call d registry} (filling : s.host.Filling config (.error e) call d registry)
      (calling : registry.scheduler.isCalling = true) :
      Loads s name config (.error e)
        { host := { s.host with
            disk := (call.abandon s.host.clock true e d).2
            stores := s.host.stores.insert s.host.nextOwner ⟨config, registry, 1, ∅⟩
            nextOwner := s.host.nextOwner + 1 }
          callbacks := s.host.nextOwner :: s.callbacks
          opened := s.wanting config }

/-- A registry is made or opened, gets another handle or loses one; a worker's callback begins,
with a handle of its own, or returns; a registry is used; time passes; or files change. -/
inductive Step (s : Custody) : Custody → Prop
  | make (name : String) (config : Config) :
      Step s { s with host := (s.host.make name config).1 }
  | openAt (name : String) (config : Config)
      (spares : s.Spares (s.host.openAt name config).1.disk) : Step s (s.openAt name config)
  | load {answer s'} (name : String) (config : Config) (loads : s.Loads name config answer s')
      (spares : s.Spares s'.host.disk) : Step s s'
  | clone {owner} (name : String) (held : s.Held owner) :
      Step s { s with host := (s.host.clone owner name).1 }
  | drop (name : String) : Step s { s with host := (s.host.drop name).1 }
  | enter {owner} (held : s.Held owner) :
      Step s { s with host := s.host.retain owner, callbacks := owner :: s.callbacks }
  | leave {owner} (running : owner ∈ s.callbacks) :
      Step s
        { s with host := (s.host.release owner).1, callbacks := s.callbacks.erase owner }
  | serve (owner : Owner) (registry : Registry) :
      Step s { s with host := s.host.setRegistry owner registry }
  | pass (now : Instant) : Step s { s with host := { s.host with clock := now } }
  | write {d} (formed : d.Formed) (locks : d.locks = s.host.disk.locks) (spares : s.Spares d) :
      Step s { s with host := { s.host with disk := d } }

abbrev Reaches : Custody → Custody → Prop := Relation.ReflTransGen Step

/-- All handles of registries, those with names and those of callbacks. -/
def handles (s : Custody) : List Owner := s.host.names.values ++ s.callbacks

theorem mem_handles {s : Custody} {owner : Owner} : owner ∈ s.handles ↔ s.Held owner := by
  rw [handles, List.mem_append, OrderedMap.mem_values]
  rfl

def Orderly (s : Custody) : Prop := s.host.Accounted s.handles s.opened

theorem orderly_start (clock : Instant) {d : Disk} (formed : d.Formed) (free : d.locks = ∅) :
    (start clock d).Orderly := by
  have hstores (owner : Owner) : (start clock d).host.stores[owner]? = none :=
    Std.ExtTreeMap.getElem?_empty
  have hhandles : (start clock d).handles = [] := rfl
  have hlocks (file : Inode) : (start clock d).host.disk.locks[file]? = none := by
    change d.locks[file]? = none
    rw [free, Std.ExtTreeMap.getElem?_empty]
  refine ⟨formed, ?_, ?_, ?_, nofun, nofun, ?_⟩
  · intro owner
    simp [hstores, hhandles]
  · intro owner live hlive
    cases (hstores owner).symm.trans hlive
  · intro owner hheld
    cases hhandles ▸ hheld
  · intro file owner hlock
    cases (hlocks file).symm.trans hlock

/-- An open that loads its file while the worker takes steps. -/
theorem Orderly.load {s s' : Custody} (h : s.Orderly) {name : String} {config : Config}
    {answer : Except Failure Unit} (loads : s.Loads name config answer s')
    (spares : s.Spares s'.host.disk) : s'.Orderly := by
  have hstay {owner path file} (hopened : (owner, path) ∈ s.opened) (hheld : owner ∈ s.handles)
      (hfile : s.host.disk.LockFile path file) : s'.host.disk.LockFile path file :=
    spares _ _ _ hopened (mem_handles.1 hheld) hfile
  cases loads with
  | @filled call d registry filling =>
    obtain ⟨course, takes⟩ := filling.course h
    refine Host.Accounted.house (Host.Accounted.enliven h course takes registry ?_) name
    exact fun hopened hheld hfile => (Host.lockFile_house _ name config registry _ _).1
      (hstay hopened hheld hfile)
  | @gone e call d registry filling =>
    obtain ⟨course, takes⟩ := filling.course h
    have hlocks := takes.unlock (course.owner_eq ▸ Host.Accounted.fresh h)
    exact Host.Accounted.disk h ((Change.locks _).formed course.formed) hlocks hstay
  | @forsaken e call d registry filling calling =>
    obtain ⟨course, takes⟩ := filling.course h
    exact (Host.Accounted.enliven h course takes registry hstay).perm List.perm_middle.symm

theorem Orderly.step {s s' : Custody} (h : s.Orderly) (step : Step s s') : s'.Orderly := by
  cases step with
  | make name config => exact Host.Accounted.make h name config
  | openAt name config spares =>
    refine Host.Accounted.openAt h name config fun hopened hheld hfile => ?_
    exact (Host.lockFile_openAt _ h.formed name config _ _).1
      (spares _ _ _ hopened (mem_handles.1 hheld) hfile)
  | load name config loads spares => exact h.load loads spares
  | clone name held => exact Host.Accounted.clone h (mem_handles.2 held) name
  | drop name => exact Host.Accounted.drop h name
  | @enter owner held =>
    have hmore := Host.Accounted.retain h (mem_handles.2 held)
    unfold Orderly handles
    rw [Host.names_retain]
    exact hmore.perm List.perm_middle.symm
  | @leave owner running =>
    have hperm : s.handles.Perm (owner :: (s.host.names.values ++ s.callbacks.erase owner)) :=
      ((List.perm_cons_erase running).append_left _).trans List.perm_middle
    unfold Orderly handles
    rw [Host.names_release]
    exact (Host.Accounted.perm h hperm).release
  | serve owner registry =>
    unfold Orderly handles
    rw [Host.names_setRegistry]
    exact Host.Accounted.setRegistry h owner registry
  | pass now => exact Host.Accounted.clock h now
  | write formed locks spares =>
    exact Host.Accounted.disk h formed locks fun hopened hheld hfile =>
      spares _ _ _ hopened (mem_handles.1 hheld) hfile

theorem Reaches.orderly {clock : Instant} {d : Disk} (formed : d.Formed) (free : d.locks = ∅)
    {s : Custody} (reaches : Reaches (start clock d) s) : s.Orderly := by
  induction reaches with
  | refl => exact orderly_start clock formed free
  | tail _ step ih => exact ih.step step

/-- What locks are there, and what an open, a drop or the return of a callback does to them. -/
structure Exclusive (s : Custody) : Prop where
  /-- A registry lives as long as somebody has a handle of it. -/
  lives : ∀ owner, (s.host.stores[owner]?).isSome = true ↔ s.Held owner
  /-- For just as long it has the lock that it was opened with. -/
  locked : ∀ owner path, (owner, path) ∈ s.opened →
    (s.host.disk.Locked path owner ↔ s.Held owner)
  /-- Nobody else has a lock. -/
  holder : ∀ (file : Inode) owner, s.host.disk.locks[file]? = some owner →
    s.Held owner ∧ ∃ path, (owner, path) ∈ s.opened ∧ s.host.disk.LockFile path file
  /-- No two that live were opened with one lock file. -/
  single : ∀ owner owner' path path' file, (owner, path) ∈ s.opened → (owner', path') ∈ s.opened →
    s.Held owner → s.Held owner' → s.host.disk.LockFile path file →
    s.host.disk.LockFile path' file → owner = owner'
  /-- An open that has come to its lock file, and only such an open, is stopped by the lock, if one
  that was opened with it lives. -/
  stopped : ∀ name config text, (s.host.openAt name config).2.1 = .error (.locked text) ↔
    text = lockPath config.path ∧ ∃ file,
      OpenCall.OpensLock s.host.clock s.host.readings config s.host.nextOwner s.host.disk file ∧
      ∃ owner path, (owner, path) ∈ s.opened ∧ s.Held owner ∧ s.host.disk.LockFile path file
  /-- Steps that the worker takes while silences are added do not matter for the answer. -/
  answered : ∀ name config answer s', s.Loads name config answer s' →
    (s.host.openAt name config).2.1 = answer
  /-- An open that fails changes no lock and no registry, if its worker calls nobody back. -/
  failed : ∀ name config e, (s.host.openAt name config).2.1 = .error e →
    (s.host.openAt name config).1.disk.locks = s.host.disk.locks ∧
      (s.host.openAt name config).1.stores = s.host.stores ∧
      (s.host.openAt name config).1.names = s.host.names
  /-- Neither does it if the worker takes steps; or a callback of the worker has the one handle of
  the new registry, and as it returns all is as it was before the open. -/
  forsaken : ∀ name config e s', s.Loads name config (.error e) s' →
    s'.host.names = s.host.names ∧
      (s'.callbacks = s.callbacks ∧ s'.host.disk.locks = s.host.disk.locks ∧
          s'.host.stores = s.host.stores ∨
        s'.callbacks = s.host.nextOwner :: s.callbacks ∧
          (config.lock = true → s'.host.disk.Locked config.path s.host.nextOwner) ∧
          (s'.host.release s.host.nextOwner).1.disk.locks = s.host.disk.locks ∧
          (s'.host.release s.host.nextOwner).1.stores = s.host.stores)
  /-- Neither does one without the lock, nor a registry that is made, under a new name. -/
  lockless : ∀ name config, s.host.owner? name = none →
    (s.host.make name config).1.disk = s.host.disk ∧
      (config.lock = false → (s.host.openAt name config).1.disk.locks = s.host.disk.locks)
  /-- A drop frees the lock if it takes the last handle. -/
  dropped : ∀ name owner path, (owner, path) ∈ s.opened →
    ((s.host.drop name).1.disk.Locked path owner ↔
      (∃ other, other ≠ name ∧ s.host.owner? other = some owner) ∨ owner ∈ s.callbacks)
  /-- So does a callback that returns. -/
  returned : ∀ owner path, owner ∈ s.callbacks → (owner, path) ∈ s.opened →
    ((s.host.release owner).1.disk.Locked path owner ↔
      (∃ name, s.host.owner? name = some owner) ∨ owner ∈ s.callbacks.erase owner)

namespace Orderly

variable {s : Custody} (h : s.Orderly)

include h

theorem locked_iff_held {owner : Owner} {path : String} (hopened : (owner, path) ∈ s.opened) :
    s.host.disk.Locked path owner ↔ s.Held owner :=
  (Host.Accounted.locked_iff_mem h hopened).trans mem_handles

theorem getElem?_locks {owner : Owner} {path : String} {file : Inode}
    (hopened : (owner, path) ∈ s.opened) (hheld : s.Held owner)
    (hfile : s.host.disk.LockFile path file) : s.host.disk.locks[file]? = some owner := by
  obtain ⟨file', hfile', hlock⟩ := Disk.locked_iff.1 ((h.locked_iff_held hopened).2 hheld)
  rwa [hfile.unique hfile']

/-- A lock file is locked if a registry lives that was opened with it. -/
theorem locks_ne_none_iff (file : Inode) :
    s.host.disk.locks[file]? ≠ none ↔
      ∃ owner path, (owner, path) ∈ s.opened ∧ s.Held owner ∧ s.host.disk.LockFile path file := by
  constructor
  · intro hlock
    obtain ⟨owner, hlock⟩ := Option.ne_none_iff_exists'.1 hlock
    obtain ⟨hheld, path, hopened, hfile⟩ := Host.Accounted.holder h hlock
    exact ⟨owner, path, hopened, mem_handles.1 hheld, hfile⟩
  · rintro ⟨owner, path, hopened, hheld, hfile⟩
    rw [h.getElem?_locks hopened hheld hfile]
    exact nofun

theorem stopped (name : String) (config : Config) (text : String) :
    (s.host.openAt name config).2.1 = .error (.locked text) ↔
      text = lockPath config.path ∧ ∃ file,
        OpenCall.OpensLock s.host.clock s.host.readings config s.host.nextOwner s.host.disk file ∧
        ∃ owner path, (owner, path) ∈ s.opened ∧ s.Held owner ∧
          s.host.disk.LockFile path file := by
  rw [Host.answer_openAt_eq_error _ h.formed, Host.openCall,
    OpenCall.answer_eq_locked_iff h.formed config _ (Host.Accounted.fresh h)]
  simp only [h.locks_ne_none_iff]

theorem answered {name : String} {config : Config} {answer : Except Failure Unit} {s' : Custody}
    (loads : s.Loads name config answer s') : (s.host.openAt name config).2.1 = answer := by
  cases loads with
  | filled filling => exact filling.answer_openAt h.formed name
  | gone filling => exact filling.answer_openAt h.formed name
  | forsaken filling _ => exact filling.answer_openAt h.formed name

/-- With the return of the callback that has its one handle, a registry whose open failed is gone,
and its lock. -/
theorem forsaken {name : String} {config : Config} {e : Failure} {s' : Custody}
    (loads : s.Loads name config (.error e) s') :
    s'.host.names = s.host.names ∧
      (s'.callbacks = s.callbacks ∧ s'.host.disk.locks = s.host.disk.locks ∧
          s'.host.stores = s.host.stores ∨
        s'.callbacks = s.host.nextOwner :: s.callbacks ∧
          (config.lock = true → s'.host.disk.Locked config.path s.host.nextOwner) ∧
          (s'.host.release s.host.nextOwner).1.disk.locks = s.host.disk.locks ∧
          (s'.host.release s.host.nextOwner).1.stores = s.host.stores) := by
  cases loads with
  | @gone _ call d registry filling =>
    obtain ⟨course, takes⟩ := filling.course h
    exact ⟨rfl, .inl ⟨rfl, takes.unlock (course.owner_eq ▸ Host.Accounted.fresh h), rfl⟩⟩
  | @forsaken _ call d registry filling calling =>
    obtain ⟨course, takes⟩ := filling.course h
    have hfree : s.host.stores[s.host.nextOwner]? = none := by
      by_contra hlive
      have hheld := (Host.Accounted.lives h).1 (Option.isSome_iff_ne_none.2 hlive)
      exact Nat.lt_irrefl _ (Host.Accounted.made h hheld)
    have hunlock := takes.unlock (course.owner_eq ▸ Host.Accounted.fresh h)
    rw [course.owner_eq] at hunlock
    have hkept : (call.abandon s.host.clock true e d).2 = d := rfl
    refine ⟨rfl, .inr ⟨rfl, fun wanted => ?_, ?_, ?_⟩⟩
    · rw [OpenCall.Takes, course.config_eq, course.owner_eq, wanted] at takes
      rcases takes with ⟨hlock, -⟩ | ⟨-, file, -, hfile, hlocks⟩
      · cases hlock
      · refine locked_iff.2 ⟨file, hfile, ?_⟩
        rw [hkept, hlocks, OrderedMap.getElem?_insert, if_pos rfl]
    · simp [Host.release, hkept, hunlock]
    · simp [Host.release, OrderedMap.erase_insert hfree]

theorem lockless (name : String) (config : Config) (free : s.host.owner? name = none)
    (unlocked : config.lock = false) :
    (s.host.openAt name config).1.disk.locks = s.host.disk.locks := by
  have hminds := (Host.Accounted.course h config).minds
  have hconfig := (Host.Accounted.course h config).config_eq
  have hcases := Host.openAt_cases s.host h.formed name config
  generalize s.host.openCall config = out at hminds hconfig hcases
  rw [OpenCall.Minds] at hminds
  rcases hcases with ⟨e, hstage, hhost, -⟩ | ⟨registry, hstage, hhost, -⟩
  · rw [hstage] at hminds
    rw [hhost]
    exact hminds
  · rw [hstage] at hminds
    rcases hminds with ⟨-, hlocks⟩ | ⟨hlock, -⟩
    · have hdisk := Host.disk_house_of_free { s.host with disk := out.2 } free config registry
      rw [hhost, hdisk]
      exact hlocks
    · rw [hconfig, unlocked] at hlock
      cases hlock

theorem dropped (name : String) {owner : Owner} {path : String}
    (hopened : (owner, path) ∈ s.opened) :
    (s.host.drop name).1.disk.Locked path owner ↔
      (∃ other, other ≠ name ∧ s.host.owner? other = some owner) ∨ owner ∈ s.callbacks := by
  refine ((h.step (.drop name)).locked_iff_held hopened).trans (or_congr_left ?_)
  simp only [Host.owner?, Host.names_drop, OrderedMap.getElem?_erase]
  refine exists_congr fun other => ?_
  rcases eq_or_ne name other with rfl | hne
  · simp
  · simp [hne, hne.symm]

theorem returned {owner : Owner} {path : String} (running : owner ∈ s.callbacks)
    (hopened : (owner, path) ∈ s.opened) :
    (s.host.release owner).1.disk.Locked path owner ↔
      (∃ name, s.host.owner? name = some owner) ∨ owner ∈ s.callbacks.erase owner := by
  refine ((h.step (.leave running)).locked_iff_held hopened).trans (or_congr_left ?_)
  simp only [Host.owner?, Host.names_release]

theorem exclusive : s.Exclusive where
  lives owner := (Host.Accounted.lives h).trans mem_handles
  locked owner path hopened := h.locked_iff_held hopened
  holder file owner hlock := (Host.Accounted.holder h hlock).imp_left mem_handles.1
  single owner owner' path path' file hopened hopened' hheld hheld' hfile hfile' := by
    have hlock := h.getElem?_locks hopened hheld hfile
    exact Option.some.inj (hlock.symm.trans (h.getElem?_locks hopened' hheld' hfile'))
  stopped := h.stopped
  answered name config answer s' loads := h.answered loads
  failed name config e hanswer := Host.Accounted.openAt_eq_error h hanswer
  forsaken name config e s' loads := h.forsaken loads
  lockless name config free :=
    ⟨Host.disk_house_of_free _ free config .empty, h.lockless name config free⟩
  dropped name owner path hopened := h.dropped name hopened
  returned owner path running hopened := h.returned running hopened

/-- An open removes no lock file of a registry with a handle, unless that is the file it opens. -/
theorem spares_openAt (name : String) (config : Config)
    (apart : ∀ owner path i last, (owner, path) ∈ s.opened → s.Held owner →
      s.host.disk.Names (lockPath path) i last →
      ¬(s.host.openCall config).2.Names config.path i last) :
    s.Spares (s.host.openAt name config).1.disk := by
  have course := Host.Accounted.course h config
  rintro owner path file hopened hheld ⟨i, last, hnames, hchild⟩
  refine (Host.lockFile_openAt _ h.formed name config path file).2
    ⟨i, last, hnames.keeps course.keeps, ?_⟩
  exact course.kept hnames hchild (apart owner path i last hopened hheld hnames)

end Orderly

/-- On a machine that starts without registries and locks, whatever is made, opened, cloned and
dropped, the lock beside a path is exclusive for as long as the registry that was opened with it
lives. -/
theorem exclusive_of_reaches {clock : Instant} {d : Disk} (formed : d.Formed) (free : d.locks = ∅)
    {s : Custody} (reaches : Reaches (start clock d) s) : s.Exclusive :=
  (reaches.orderly formed free).exclusive

/-- A registry has been opened and cloned, another open of its file has failed, and the first handle
is gone: the file is locked until the second is gone, too. -/
theorem exclusive_until_last_handle :
    ∃ s : Custody, Disk.blank.Formed ∧ Disk.blank.locks = ∅ ∧ Reaches (start default .blank) s ∧
      s.opened = [(0, "p.json")] ∧ s.host.owner? "a" = none ∧ s.host.owner? "b" = some 0 ∧
      s.host.disk.Locked "p.json" 0 ∧
      (s.host.openAt "c" ⟨"p.json", true, true⟩).2.1 = .error (.locked "p.json.lock") ∧
      ¬(s.host.drop "b").1.disk.Locked "p.json" 0 ∧
      ((s.host.drop "b").1.openAt "c" ⟨"p.json", true, true⟩).2.1 = .ok () := by
  generalize hconfig : (⟨"p.json", true, true⟩ : Config) = config
  have opened : Reaches (start default .blank) ((start default .blank).openAt "a" config) :=
    .single (.openAt "a" config nofun)
  generalize hs₁ : (start default .blank).openAt "a" config = s₁ at opened
  have hheld : s₁.Held 0 := by
    refine .inl ⟨"a", ?_⟩
    rw [← hs₁, ← hconfig]
    decide +kernel
  have cloned := opened.tail (.clone "b" hheld)
  generalize hs₂ : ({ s₁ with host := (s₁.host.clone 0 "b").1 } : Custody) = s₂ at cloned
  have hopened : s₂.opened = [(0, "p.json")] := by
    rw [← hs₂, ← hs₁, ← hconfig]
    decide +kernel
  have spares : s₂.Spares (s₂.host.openAt "c" config).1.disk := by
    have orderly := Reaches.orderly sound_blank.toFormed rfl cloned
    refine orderly.spares_openAt "c" config fun owner path i last hmem _ hlock hpath => ?_
    rw [hopened, List.mem_singleton] at hmem
    obtain ⟨-, rfl⟩ := Prod.mk.inj hmem
    have keeps := (Host.Accounted.course orderly config).keeps
    have hsame : config.path = "p.json" := by rw [← hconfig]
    rw [hsame] at hpath
    exact hpath.ne_beside not_mem_lock (by decide) (hlock.keeps keeps) rfl
  have failed := cloned.tail (.openAt "c" config spares)
  generalize hs₃ : s₂.openAt "c" config = s₃ at failed
  have dropped := failed.tail (.drop "a")
  generalize hs : ({ s₃ with host := (s₃.host.drop "a").1 } : Custody) = s at dropped
  obtain ⟨hopened', hfirst, hsecond, ⟨hothers, hcallbacks⟩, hfails, hworks⟩ :
      s.opened = [(0, "p.json")] ∧ s.host.owner? "a" = none ∧ s.host.owner? "b" = some 0 ∧
        ((s.host.names.erase "b").values = [] ∧ s.callbacks = []) ∧
        (s.host.openAt "c" config).2.1 = .error (.locked "p.json.lock") ∧
        ((s.host.drop "b").1.openAt "c" config).2.1 = .ok () := by
    rw [← hs, ← hs₃, ← hs₂, ← hs₁, ← hconfig]
    decide +kernel
  have exclusive := exclusive_of_reaches sound_blank.toFormed rfl dropped
  have hmem : (0, "p.json") ∈ s.opened := by rw [hopened']; exact List.mem_cons_self
  refine ⟨s, sound_blank.toFormed, rfl, dropped, hopened', hfirst, hsecond,
    (exclusive.locked 0 "p.json" hmem).2 (.inl ⟨"b", hsecond⟩), hfails, ?_, hworks⟩
  rw [exclusive.dropped "b" 0 "p.json" hmem, hcallbacks]
  rintro (⟨other, hne, hother⟩ | hcallback)
  · have hvalue : 0 ∈ (s.host.names.erase "b").values := by
      refine OrderedMap.mem_values.2 ⟨other, ?_⟩
      rwa [OrderedMap.getElem?_erase, if_neg hne.symm]
    rw [hothers] at hvalue
    cases hvalue
  · cases hcallback

/-- A file holds a silence past its end with the last id of all, and one without an id. An open that
fails at the second while its worker calls back for the first leaves its lock to that callback. And
if another open puts its file in the place of a lock file, the next open takes the lock a second
time. -/
theorem failed_open_leaves_lock_to_callback :
    (∃ (d : Disk) (s : Custody), d.Formed ∧ d.locks = ∅ ∧
      (start default d).Loads "a" ⟨"p.json", true, true⟩ (.error (.idsExhausted .last)) s ∧
      Reaches (start default d) s ∧ s.host.names = ∅ ∧ s.host.disk.Locked "p.json" 0 ∧
      s.host.disk.locks ≠ d.locks) ∧
    let first := (Host.begin default).openAt "a" ⟨"p.json", true, true⟩
    let second := first.1.openAt "b" ⟨"sub/../p.json.lock", true, false⟩
    first.2.1 = .ok () ∧ second.2.1 = .ok () ∧ second.1.owner? "a" = some 0 ∧
      (second.1.openAt "c" ⟨"p.json", true, true⟩).2.1 = .ok () := by
  refine ⟨?_, by decide +kernel⟩
  let past : Instant := ⟨-1, 0, by decide, by decide, by decide⟩
  let last : Silence := ⟨.last, "ops", past, past, "", .none⟩
  let next : Silence := .new past "ops" past
  have hdecoded : Silence.decodeAll (Host.begin default).readings
      (Silence.encodeAll [last, next]) = .ok [last, next] := by
    decide +kernel
  -- the first silence is due at once, and the worker comes to its action before the second is added
  have hadded : (Registry.empty.add default last).answer = .ok .last := by decide +kernel
  have hadds : ∃ registry, Registry.empty.Adds [last, next] (.error (.idsExhausted .last)) registry ∧
      registry.scheduler.isCalling = true := by
    have hswept : (settle (Registry.step? default) 3
        (Registry.empty.add default last).registry).1.scheduler.phase = .sweeping 0 := by
      decide +kernel
    have hfirst : (settle (Registry.step? default) 3
        (Registry.empty.add default last).registry).1.scheduler.queue.entries.head? =
          some (⟨0, 0⟩, ⟨.last, ⟨0, past⟩⟩) := by
      decide +kernel
    obtain ⟨r, log, hstep, hcalling, hlast⟩ := Registry.exists_step?_calling hswept hfirst
      (by decide) (by decide +kernel) default
    have hhighest : r.lastId = .last := hlast.trans (by decide +kernel)
    exact ⟨r, .add default hadded (.of_settle default 3 (.work default hstep
      (.fail_of_last rfl hhighest default []))), hcalling⟩
  obtain ⟨registry, hadds, hcalling⟩ := hadds
  have hanswer : ((SaveCall.begin "p.json" [last, next]).run .blank).1.isOk = true := by
    decide +kernel
  have hfree : ((SaveCall.begin "p.json" [last, next]).run .blank).2.1.locks = ∅ := by
    decide +kernel
  have hlock : ((Path.ofText? (lockPath "p.json")).bind
      ((SaveCall.begin "p.json" [last, next]).run .blank).2.1.create).isOk = true := by
    decide +kernel
  generalize hsave : (SaveCall.begin "p.json" [last, next]).run .blank = out
    at hanswer hfree hlock
  obtain ⟨answer, d, told⟩ := out
  cases answer with
  | error e => cases hanswer
  | ok done =>
    dsimp only at hfree hlock
    obtain ⟨sound, file⟩ := SaveCall.file?_of_run sound_blank rfl hsave
    obtain ⟨call, d', filling⟩ := (start default d).host.exists_filling ⟨"p.json", true, true⟩
      sound.toFormed file (fun _ => sound.apart_lock "p.json")
      (OpenCall.canLock_of_locks_eq_empty hfree hlock) hdecoded hadds
    have loads : (start default d).Loads "a" ⟨"p.json", true, true⟩ _ _ := .forsaken filling hcalling
    have reaches := Relation.ReflTransGen.single (Step.load "a" _ loads nofun)
    have locked := ((Reaches.orderly sound.toFormed hfree reaches).locked_iff_held
      List.mem_cons_self).2 (.inr List.mem_cons_self)
    refine ⟨d, _, sound.toFormed, hfree, loads, reaches, rfl, locked, fun hsame => ?_⟩
    obtain ⟨file, -, hheld⟩ := Disk.locked_iff.1 locked
    rw [hsame, hfree, Std.ExtTreeMap.getElem?_empty] at hheld
    cases hheld

end Custody

end AlertSilences
