import AlertSilences.Host
import AlertSilences.Proofs.Storage.Locking

/-! The registries on a machine and who has a handle of them. A registry counts its handles and
lives until the last is gone; then its lock is given back, if it was opened with one. -/

namespace AlertSilences.Host

open Disk

/-- The registries of `held`, which lists them once for each handle, are the living ones. Those of
them that were opened with the lock of a path, and nobody else, have it. -/
structure Accounted (h : Host) (held : List Owner) (opened : List (Owner × String)) : Prop where
  formed : h.disk.Formed
  lives : ∀ {owner}, (h.stores[owner]?).isSome = true ↔ owner ∈ held
  counted : ∀ {owner : Owner} {live}, h.stores[owner]? = some live →
    live.handles = held.count owner
  made : ∀ {owner}, owner ∈ held → owner < h.nextOwner
  born : ∀ {owner path}, (owner, path) ∈ opened → owner < h.nextOwner
  locked : ∀ {owner path}, (owner, path) ∈ opened → owner ∈ held → h.disk.Locked path owner
  holder : ∀ {file : Inode} {owner}, h.disk.locks[file]? = some owner →
    owner ∈ held ∧ ∃ path, (owner, path) ∈ opened ∧ h.disk.LockFile path file

namespace Accounted

variable {h : Host} {held held' : List Owner} {opened : List (Owner × String)} {owner : Owner}

theorem perm (acc : h.Accounted held opened) (same : held.Perm held') : h.Accounted held' opened :=
  ⟨acc.formed, acc.lives.trans same.mem_iff,
    fun hlive => (acc.counted hlive).trans (same.count_eq _),
    fun hheld => acc.made (same.mem_iff.2 hheld), acc.born,
    fun hopened hheld => acc.locked hopened (same.mem_iff.2 hheld),
    fun hlock => (acc.holder hlock).imp_left same.mem_iff.1⟩

/-- An owner has a lock if it was opened with it and lives. -/
theorem locked_iff_mem (acc : h.Accounted held opened) {path : String}
    (hopened : (owner, path) ∈ opened) : h.disk.Locked path owner ↔ owner ∈ held := by
  refine ⟨fun hlocked => ?_, acc.locked hopened⟩
  obtain ⟨file, -, hlock⟩ := locked_iff.1 hlocked
  exact (acc.holder hlock).1

/-- The next owner has no lock yet. -/
theorem fresh (acc : h.Accounted held opened) (file : Inode) :
    h.disk.locks[file]? ≠ some h.nextOwner := fun hlock =>
  Nat.lt_irrefl _ (acc.made (acc.holder hlock).1)

/-- With one more handle of an owner that has handles, the same owners have some. -/
theorem mem_cons_iff_of_mem (hheld : owner ∈ held) {o : Owner} : o ∈ owner :: held ↔ o ∈ held := by
  rw [List.mem_cons, or_iff_right_of_imp]
  rintro rfl
  exact hheld

theorem retain (acc : h.Accounted held opened) (hheld : owner ∈ held) :
    (h.retain owner).Accounted (owner :: held) opened := by
  obtain ⟨live, hlive⟩ := Option.isSome_iff_exists.1 (acc.lives.2 hheld)
  have hmem {o : Owner} : o ∈ owner :: held ↔ o ∈ held := mem_cons_iff_of_mem hheld
  rw [Host.retain, hlive]
  refine ⟨acc.formed, fun {o} => ?_, fun {o live'} hlive' => ?_, fun h' => acc.made (hmem.1 h'),
    acc.born, fun hopened h' => acc.locked hopened (hmem.1 h'),
    fun hlock => (acc.holder hlock).imp_left hmem.2⟩
  · rw [hmem, ← acc.lives, OrderedMap.isSome_getElem?_insert hlive]
  · rw [OrderedMap.getElem?_insert] at hlive'
    split_ifs at hlive' with heq
    · obtain rfl := Option.some.inj hlive'
      rw [heq, List.count_cons_self, ← heq, ← acc.counted hlive]
    · rw [List.count_cons_of_ne heq, acc.counted hlive']

theorem release (acc : h.Accounted (owner :: held) opened) :
    (h.release owner).1.Accounted held opened := by
  obtain ⟨live, hlive⟩ := Option.isSome_iff_exists.1 (acc.lives.2 List.mem_cons_self)
  have hcount : live.handles = held.count owner + 1 := by
    rw [acc.counted hlive, List.count_cons_self]
  have hmem {o : Owner} (hne : owner ≠ o) : o ∈ owner :: held ↔ o ∈ held := by
    rw [List.mem_cons, or_iff_right (Ne.symm hne)]
  have hothers {o : Owner} {live'} (hne : owner ≠ o) (hlive' : h.stores[o]? = some live') :
      live'.handles = held.count o := by
    rw [acc.counted hlive', List.count_cons_of_ne hne]
  rw [Host.release, hlive]
  dsimp only
  split_ifs with hmore
  · -- there is another handle, and with it all stays as it is
    have hheld : owner ∈ held := List.count_pos_iff.1 (by omega)
    have hstays {o : Owner} : o ∈ owner :: held ↔ o ∈ held := mem_cons_iff_of_mem hheld
    refine ⟨acc.formed, fun {o} => ?_, fun {o live'} hlive' => ?_, fun h' => acc.made (hstays.2 h'),
      acc.born, fun hopened h' => acc.locked hopened (hstays.2 h'),
      fun hlock => (acc.holder hlock).imp_left hstays.1⟩
    · rw [← hstays, ← acc.lives, OrderedMap.isSome_getElem?_insert hlive]
    · rw [OrderedMap.getElem?_insert] at hlive'
      split_ifs at hlive' with heq
      · obtain rfl := Option.some.inj hlive'
        rw [← heq, hcount, Nat.add_sub_cancel]
      · exact hothers heq hlive'
  · -- it was the last handle
    have hgone : owner ∉ held := fun hheld => by
      have := List.count_pos_iff.2 hheld
      omega
    refine ⟨(Change.locks _).formed acc.formed, fun {o} => ?_, fun {o live'} hlive' => ?_,
      fun h' => acc.made (List.mem_cons_of_mem _ h'), acc.born, fun {o path} hopened h' => ?_,
      fun {file o} hlock => ?_⟩
    · rw [OrderedMap.getElem?_erase]
      split_ifs with heq
      · simp [← heq, hgone]
      · rw [acc.lives, hmem heq]
    · rw [OrderedMap.getElem?_erase] at hlive'
      split_ifs at hlive' with heq
      exact hothers heq hlive'
    · obtain ⟨file, hfile, hlock⟩ := locked_iff.1 (acc.locked hopened (List.mem_cons_of_mem _ h'))
      refine locked_iff.2 ⟨file, hfile, ?_⟩
      rw [getElem?_unlock, hlock, if_neg]
      rintro ⟨⟩
      exact hgone h'
    · rw [getElem?_unlock] at hlock
      split_ifs at hlock with heq
      obtain ⟨hholder, hopened⟩ := acc.holder hlock
      exact ⟨(hmem fun hsame => heq (hsame ▸ hlock)).1 hholder, hopened⟩

/-- A registry comes to life with one handle, and without a lock. -/
theorem arrive (acc : h.Accounted held opened) (config : Config) (registry : Registry) :
    Accounted { h with
      stores := h.stores.insert h.nextOwner ⟨config, registry, 1, ∅⟩
      nextOwner := h.nextOwner + 1 } (h.nextOwner :: held) opened := by
  have hnew : h.nextOwner ∉ held := fun hheld => Nat.lt_irrefl _ (acc.made hheld)
  refine ⟨acc.formed, fun {o} => ?_, fun {o live} hlive => ?_, fun {o} hheld => ?_,
    fun hopened => Nat.lt_succ_of_lt (acc.born hopened), fun {o path} hopened hheld => ?_,
    fun hlock => (acc.holder hlock).imp_left (List.mem_cons_of_mem _)⟩
  · rw [OrderedMap.getElem?_insert, List.mem_cons]
    split_ifs with heq
    · simp [heq]
    · rw [acc.lives, or_iff_right (Ne.symm heq)]
  · rw [OrderedMap.getElem?_insert] at hlive
    split_ifs at hlive with heq
    · obtain rfl := Option.some.inj hlive
      rw [← heq, List.count_cons_self, List.count_eq_zero.2 hnew]
    · rw [List.count_cons_of_ne heq, acc.counted hlive]
  · rcases List.mem_cons.1 hheld with rfl | hheld
    · exact Nat.lt_succ_self _
    · exact Nat.lt_succ_of_lt (acc.made hheld)
  · rcases List.mem_cons.1 hheld with rfl | hheld
    · exact absurd (acc.born hopened) (Nat.lt_irrefl _)
    · exact acc.locked hopened hheld

/-- The disk changes, but no lock does, and no lock file in use loses its name. -/
theorem disk (acc : h.Accounted held opened) {d : Disk} (formed : d.Formed)
    (locks : d.locks = h.disk.locks)
    (stay : ∀ {owner path file}, (owner, path) ∈ opened → owner ∈ held →
      h.disk.LockFile path file → d.LockFile path file) :
    Accounted { h with disk := d } held opened := by
  refine ⟨formed, acc.lives, acc.counted, acc.made, acc.born, fun hopened hheld => ?_,
    fun hlock => ?_⟩
  · obtain ⟨file, hfile, hlock⟩ := locked_iff.1 (acc.locked hopened hheld)
    exact locked_iff.2 ⟨file, stay hopened hheld hfile, locks ▸ hlock⟩
  · rw [locks] at hlock
    obtain ⟨hheld, path, hopened, hfile⟩ := acc.holder hlock
    exact ⟨hheld, path, hopened, stay hopened hheld hfile⟩

/-- The disk changes, and a living registry that was opened just now gets the lock of its path. -/
theorem lock (acc : h.Accounted held opened) (hheld : owner ∈ held) {d : Disk} (formed : d.Formed)
    {path : String} {file : Inode} (hfile : d.LockFile path file)
    (free : h.disk.locks[file]? = none) (locks : d.locks = h.disk.locks.insert file owner)
    (stay : ∀ {owner path file}, (owner, path) ∈ opened → owner ∈ held →
      h.disk.LockFile path file → d.LockFile path file) :
    Accounted { h with disk := d } held ((owner, path) :: opened) := by
  have hthere : d.locks[file]? = some owner := by
    rw [locks, OrderedMap.getElem?_insert, if_pos rfl]
  refine ⟨formed, acc.lives, acc.counted, acc.made, fun hopened => ?_, fun hopened h' => ?_,
    fun {file' o} hlock => ?_⟩
  · rcases List.mem_cons.1 hopened with heq | hopened
    · obtain ⟨rfl, -⟩ := Prod.mk.inj heq
      exact acc.made hheld
    · exact acc.born hopened
  · rcases List.mem_cons.1 hopened with heq | hopened
    · obtain ⟨rfl, rfl⟩ := Prod.mk.inj heq
      exact locked_iff.2 ⟨file, hfile, hthere⟩
    · obtain ⟨file', hfile', hlock⟩ := locked_iff.1 (acc.locked hopened h')
      refine locked_iff.2 ⟨file', stay hopened h' hfile', ?_⟩
      rw [locks, OrderedMap.getElem?_insert, if_neg, hlock]
      rintro rfl
      cases free.symm.trans hlock
  · rw [locks, OrderedMap.getElem?_insert] at hlock
    split_ifs at hlock with heq
    · obtain rfl := Option.some.inj hlock
      subst heq
      exact ⟨hheld, path, List.mem_cons_self, hfile⟩
    · obtain ⟨h', path', hopened, hfile'⟩ := acc.holder hlock
      exact ⟨h', path', List.mem_cons_of_mem _ hopened, stay hopened h' hfile'⟩

/-- A registry is used. -/
theorem setRegistry (acc : h.Accounted held opened) (owner : Owner) (registry : Registry) :
    (h.setRegistry owner registry).Accounted held opened := by
  unfold Host.setRegistry
  split
  · exact acc
  · next live hlive =>
    refine ⟨acc.formed, fun {o} => ?_, fun {o live'} hlive' => ?_, acc.made, acc.born, acc.locked,
      acc.holder⟩
    · rw [← acc.lives, OrderedMap.isSome_getElem?_insert hlive]
    · rw [OrderedMap.getElem?_insert] at hlive'
      split_ifs at hlive' with heq
      · obtain rfl := Option.some.inj hlive'
        rw [← heq, ← acc.counted hlive]
      · exact acc.counted hlive'

theorem clock (acc : h.Accounted held opened) (now : Instant) :
    Accounted { h with clock := now } held opened :=
  ⟨acc.formed, acc.lives, acc.counted, acc.made, acc.born, acc.locked, acc.holder⟩

theorem names (acc : h.Accounted held opened) (names : Std.ExtTreeMap String Owner) :
    Accounted { h with names } held opened :=
  ⟨acc.formed, acc.lives, acc.counted, acc.made, acc.born, acc.locked, acc.holder⟩

end Accounted

@[simp] theorem names_retain (h : Host) (owner : Owner) : (h.retain owner).names = h.names := by
  unfold retain
  split <;> rfl

@[simp] theorem names_release (h : Host) (owner : Owner) : (h.release owner).1.names = h.names := by
  unfold release
  split
  · rfl
  · split <;> rfl

@[simp] theorem names_setRegistry (h : Host) (owner : Owner) (registry : Registry) :
    (h.setRegistry owner registry).names = h.names := by
  unfold setRegistry
  split <;> rfl

@[simp] theorem names_drop (h : Host) (name : String) :
    (h.drop name).1.names = h.names.erase name := by
  unfold drop owner?
  split
  · next hnone => exact (OrderedMap.erase_of_getElem?_eq_none hnone).symm
  · exact names_release _ _

@[simp] theorem names_give (h : Host) (name : String) (owner : Owner) :
    (h.give name owner).1.names = h.names.insert name owner := by
  unfold give
  dsimp only
  split
  · rfl
  · exact names_release _ _

/-- Locks are no part of where files are. -/
theorem lockFile_release (h : Host) (owner : Owner) (path : String) (file : Inode) :
    (h.release owner).1.disk.LockFile path file ↔ h.disk.LockFile path file := by
  unfold release
  split
  · rfl
  · split <;> rfl

theorem lockFile_give (h : Host) (name : String) (owner : Owner) (path : String) (file : Inode) :
    (h.give name owner).1.disk.LockFile path file ↔ h.disk.LockFile path file := by
  unfold give
  dsimp only
  split
  · rfl
  · exact lockFile_release _ _ _ _

theorem lockFile_house (h : Host) (name : String) (config : Config) (registry : Registry)
    (path : String) (file : Inode) :
    (h.house name config registry).1.disk.LockFile path file ↔ h.disk.LockFile path file :=
  lockFile_give _ _ _ _ _

/-- Under a new name no handle is dropped. -/
theorem disk_house_of_free (h : Host) {name : String} (free : h.owner? name = none)
    (config : Config) (registry : Registry) : (h.house name config registry).1.disk = h.disk := by
  have hgive (h' : Host) (owner : Owner) (free' : h'.owner? name = none) :
      (h'.give name owner).1.disk = h'.disk := by
    unfold give
    rw [free']
  exact hgive _ _ free

/-- A new registry in memory leaves the disk alone; if its name was another's, that may give back
locks. -/
theorem disk_make (h : Host) (name : String) (config : Config) :
    ∃ held, (h.make name config).1.disk = { h.disk with locks := held } := by
  unfold make house give
  dsimp only
  split
  · exact ⟨_, rfl⟩
  · unfold release
    split
    · exact ⟨_, rfl⟩
    · split
      · exact ⟨_, rfl⟩
      · exact ⟨_, rfl⟩

/-- The steps of an open on a machine where nothing else happens, all in one. -/
def openCall (h : Host) (config : Config) : OpenCall × Disk :=
  (OpenCall.begin config h.nextOwner).run h.clock h.readings h.disk

/-- An open fails, or brings a registry to life. -/
theorem openAt_cases (h : Host) (formed : h.disk.Formed) (name : String) (config : Config) :
    (∃ e, (h.openCall config).1.stage = .done (.error e) ∧
      (h.openAt name config).1 = { h with disk := (h.openCall config).2 } ∧
      (h.openAt name config).2.1 = .error e) ∨
    ∃ registry, (h.openCall config).1.stage = .done (.ok registry) ∧
      (h.openAt name config).1 =
        (house { h with disk := (h.openCall config).2 } name config registry).1 ∧
      (h.openAt name config).2.1 = .ok () := by
  obtain ⟨answer, hanswer⟩ :=
    OpenCall.exists_answer h.clock h.readings config h.nextOwner formed
  rw [← openCall] at hanswer
  unfold openAt
  rw [← openCall]
  generalize h.openCall config = out at hanswer
  obtain ⟨call, d⟩ := out
  dsimp only at hanswer ⊢
  rw [hanswer]
  cases answer with
  | error e => exact .inl ⟨e, rfl, rfl, rfl⟩
  | ok registry => exact .inr ⟨registry, rfl, rfl, rfl⟩

theorem lockFile_openAt (h : Host) (formed : h.disk.Formed) (name : String) (config : Config)
    (path : String) (file : Inode) :
    (h.openAt name config).1.disk.LockFile path file ↔
      (h.openCall config).2.LockFile path file := by
  have hcases := openAt_cases h formed name config
  generalize h.openCall config = out at hcases
  rcases hcases with ⟨e, -, hhost, -⟩ | ⟨registry, -, hhost, -⟩
  · rw [hhost]
  · rw [hhost]
    exact lockFile_house _ name config registry path file

theorem answer_openAt_eq_error (h : Host) (formed : h.disk.Formed) (name : String) (config : Config)
    (e : Failure) :
    (h.openAt name config).2.1 = .error e ↔ (h.openCall config).1.stage = .done (.error e) := by
  rcases openAt_cases h formed name config with
    ⟨e', hstage, -, hanswer⟩ | ⟨registry, hstage, -, hanswer⟩
  · simp [hstage, hanswer]
  · simp [hstage, hanswer]

namespace Accounted

variable {h : Host} {held others : List Owner} {opened : List (Owner × String)} {owner : Owner}

/-- The new handle is counted, and is now the name's; the one that the name had is gone. -/
theorem give (acc : h.Accounted (owner :: (h.names.values ++ others)) opened) (name : String) :
    (h.give name owner).1.Accounted ((h.give name owner).1.names.values ++ others) opened := by
  rw [names_give]
  unfold Host.give owner?
  dsimp only
  split
  · next hnone =>
    exact (acc.names _).perm
      ((OrderedMap.values_insert_perm owner hnone).symm.append_right others)
  · next old hold =>
    have hfree : (h.names.erase name)[name]? = none := by
      rw [OrderedMap.getElem?_erase, if_pos rfl]
    have hnew := OrderedMap.values_insert_perm owner hfree
    rw [OrderedMap.insert_erase] at hnew
    have hbefore := (OrderedMap.values_perm_of_getElem? hold).append_right others
    have hswap : (owner :: (h.names.values ++ others)).Perm
        (old :: ((h.names.insert name owner).values ++ others)) :=
      (hbefore.cons owner).trans ((List.Perm.swap old owner _).trans
        ((hnew.append_right others).symm.cons old))
    exact ((acc.names _).perm hswap).release

theorem clone (acc : h.Accounted (h.names.values ++ others) opened)
    (hheld : owner ∈ h.names.values ++ others) (name : String) :
    (h.clone owner name).1.Accounted ((h.clone owner name).1.names.values ++ others) opened := by
  have hmore := acc.retain hheld
  rw [← names_retain h owner] at hmore
  exact hmore.give name

theorem drop (acc : h.Accounted (h.names.values ++ others) opened) (name : String) :
    (h.drop name).1.Accounted ((h.drop name).1.names.values ++ others) opened := by
  unfold Host.drop owner?
  split
  · exact acc
  · next owner howner =>
    dsimp only
    rw [names_release]
    exact ((acc.perm
      ((OrderedMap.values_perm_of_getElem? howner).append_right others)).names _).release

theorem course (acc : h.Accounted held opened) (config : Config) :
    OpenCall.Course h.disk config h.nextOwner (h.openCall config).1 (h.openCall config).2 :=
  (OpenCall.course_begin acc.formed config h.nextOwner).steps acc.fresh h.clock h.readings _

/-- An open that fails leaves the locks and the registries as they were. -/
theorem openAt_eq_error (acc : h.Accounted held opened) {name : String} {config : Config}
    {e : Failure} (hanswer : (h.openAt name config).2.1 = .error e) :
    (h.openAt name config).1.disk.locks = h.disk.locks ∧
      (h.openAt name config).1.stores = h.stores ∧ (h.openAt name config).1.names = h.names := by
  have hminds := (acc.course config).minds
  rcases openAt_cases h acc.formed name config with ⟨e', hstage, hhost, -⟩ | ⟨registry, -, -, hok⟩
  · rw [OpenCall.Minds, hstage] at hminds
    rw [hhost]
    exact ⟨hminds, rfl, rfl⟩
  · cases hanswer.symm.trans hok

theorem house {config : Config} {registry : Registry}
    (acc : Accounted { h with
      stores := h.stores.insert h.nextOwner ⟨config, registry, 1, ∅⟩
      nextOwner := h.nextOwner + 1 } (h.nextOwner :: (h.names.values ++ others)) opened)
    (name : String) :
    (h.house name config registry).1.Accounted
      ((h.house name config registry).1.names.values ++ others) opened :=
  acc.give name

theorem make (acc : h.Accounted (h.names.values ++ others) opened) (name : String)
    (config : Config) :
    (h.make name config).1.Accounted ((h.make name config).1.names.values ++ others) opened :=
  (acc.arrive config .empty).house name

/-- A registry comes to life with one handle, and with the lock that its open wants. -/
theorem enliven (acc : h.Accounted held opened) {config : Config} {call : OpenCall} {d : Disk}
    (course : OpenCall.Course h.disk config h.nextOwner call d) (takes : call.Takes h.disk d)
    (registry : Registry)
    (stay : ∀ {owner path file}, (owner, path) ∈ opened → owner ∈ held →
      h.disk.LockFile path file → d.LockFile path file) :
    Accounted { h with
      disk := d
      stores := h.stores.insert h.nextOwner ⟨config, registry, 1, ∅⟩
      nextOwner := h.nextOwner + 1 } (h.nextOwner :: held)
      (if config.lock = true then (h.nextOwner, config.path) :: opened else opened) := by
  have harrive := acc.arrive config registry
  have hstay {owner path file} (hopened : (owner, path) ∈ opened)
      (hheld : owner ∈ h.nextOwner :: held) (hfile : h.disk.LockFile path file) :
      d.LockFile path file := by
    rcases List.mem_cons.1 hheld with rfl | hheld
    · exact absurd (acc.born hopened) (Nat.lt_irrefl _)
    · exact stay hopened hheld hfile
  rw [OpenCall.Takes, course.config_eq, course.owner_eq] at takes
  rcases takes with ⟨hlock, hlocks⟩ | ⟨hlock, file, hfree, hfile, hlocks⟩
  · rw [if_neg (by simp [hlock])]
    exact harrive.disk course.formed hlocks hstay
  · rw [if_pos hlock]
    exact harrive.lock List.mem_cons_self course.formed hfile hfree hlocks hstay

/-- An open leaves every lock as it is, or it gets the one that it wants. -/
theorem openAt (acc : h.Accounted (h.names.values ++ others) opened) (name : String)
    (config : Config)
    (stay : ∀ {owner path file}, (owner, path) ∈ opened → owner ∈ h.names.values ++ others →
      h.disk.LockFile path file → (h.openCall config).2.LockFile path file) :
    (h.openAt name config).1.Accounted ((h.openAt name config).1.names.values ++ others)
      (if config.lock = true ∧ (h.openAt name config).2.1 = .ok () then
        (h.nextOwner, config.path) :: opened else opened) := by
  have course := acc.course config
  have minds := course.minds
  have hcases := openAt_cases h acc.formed name config
  generalize h.openCall config = out at stay course minds hcases
  obtain ⟨call, d⟩ := out
  rw [OpenCall.Minds] at minds
  rcases hcases with ⟨e, hstage, hhost, hanswer⟩ | ⟨registry, hstage, hhost, hanswer⟩
  · rw [hstage] at minds
    rw [hhost, hanswer, if_neg (by simp)]
    exact acc.disk course.formed minds stay
  · rw [hstage] at minds
    rw [hhost, hanswer]
    simp only [and_true]
    exact Accounted.house (acc.enliven course minds registry stay) name

end Accounted

end AlertSilences.Host
