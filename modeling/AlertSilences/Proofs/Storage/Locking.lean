import AlertSilences.Proofs.Storage.Sharing

/-! What a whole open does to the locks. It takes the lock that it wants if nobody has it, and gives
it back if it fails after that; it answers that the lock is somebody's only if it has come to the
lock file and somebody has it. -/

namespace AlertSilences

open Disk

namespace Disk

def LockFile (d : Disk) (path : String) (file : Inode) : Prop := d.At (lockPath path) file

theorem locked_iff {d : Disk} {path : String} {owner : Owner} :
    d.Locked path owner ↔ ∃ file, d.LockFile path file ∧ d.locks[file]? = some owner := by
  constructor
  · rintro ⟨i, name, file, hnames, hchild, hlock⟩
    exact ⟨file, ⟨i, name, hnames, hchild⟩, hlock⟩
  · rintro ⟨file, ⟨i, name, hnames, hchild⟩, hlock⟩
    exact ⟨i, name, file, hnames, hchild, hlock⟩

theorem getElem?_unlock (d : Disk) (owner : Owner) (file : Inode) :
    (d.unlock owner).locks[file]? =
      if d.locks[file]? = some owner then none else d.locks[file]? := by
  rw [unlock, Std.ExtTreeMap.getElem?_filter']
  cases h : d.locks[file]? with
  | none => simp
  | some holder =>
    by_cases hholder : holder = owner
    · simp [hholder]
    · simp [hholder]

/-- An owner without locks gives none back. -/
theorem locks_unlock_of_fresh {d : Disk} {owner : Owner}
    (fresh : ∀ file : Inode, d.locks[file]? ≠ some owner) : (d.unlock owner).locks = d.locks := by
  ext file holder
  rw [getElem?_unlock, if_neg (fresh file)]

/-- An owner with one lock gives that back. -/
theorem locks_unlock_of_insert {d before : Disk} {owner : Owner}
    (fresh : ∀ file : Inode, before.locks[file]? ≠ some owner) {file : Inode}
    (free : before.locks[file]? = none) (taken : d.locks = before.locks.insert file owner) :
    (d.unlock owner).locks = before.locks := by
  ext file' holder
  rw [getElem?_unlock, taken, OrderedMap.getElem?_insert]
  rcases eq_or_ne file file' with rfl | hne
  · simp [free]
  · rw [if_neg hne, if_neg (fresh file')]

/-- A path with a suffix leads to a name that ends in it. -/
theorem Names.exists_eq_append {d : Disk} {text suffix : String} (hslash : '/' ∉ suffix.toList)
    (hempty : suffix ≠ "") {i : Inode} {name : String} (h : d.Names (text ++ suffix) i name) :
    ∃ stem, name = stem ++ suffix := by
  obtain ⟨p, hp, ⟨front, hnames, -⟩, -⟩ := h
  obtain ⟨rooted, before, stem, -, hmore⟩ := Path.exists_ofText_append text
  obtain rfl := (Path.ofText?_eq_ok hp).trans (hmore suffix hslash hempty)
  obtain ⟨-, hlast⟩ := List.append_inj' hnames rfl
  exact ⟨stem, (List.singleton_inj.1 hlast).symm⟩

/-- No lock file is the one that a save writes beside any path. -/
theorem lock_ne_temporary {d d' : Disk} {path path' : String} {i i' : Inode} {name name' : String}
    (hlock : d.Names (lockPath path) i name) (htmp : d'.Names (temporaryPath path') i' name') :
    name ≠ name' := by
  obtain ⟨stem, rfl⟩ := hlock.exists_eq_append not_mem_lock (by decide)
  obtain ⟨stem', rfl⟩ := htmp.exists_eq_append not_mem_tmp (by decide)
  intro heq
  have hlast := congrArg (fun s : String => s.toList.getLast?) heq
  simp at hlast

end Disk

theorem Registry.assignId_ne_locked (r : Registry) (s : Silence) (text : String) :
    r.assignId s ≠ .error (.locked text) := by
  unfold assignId
  split
  · split <;> exact nofun
  · exact nofun

theorem Registry.inTurn_add_ne_locked (now : Instant) (silences : List Silence) (r : Registry)
    (text : String) : (r.inTurn (add now) silences).answer ≠ .error (.locked text) := by
  induction silences generalizing r with
  | nil => exact nofun
  | cons s rest ih =>
    have hanswer := answer_add now s r
    have hassign := assignId_ne_locked r s text
    rw [inTurn_cons]
    split
    · next e r' log h =>
      rw [h] at hanswer
      intro heq
      obtain rfl := Except.error.inj heq
      cases hid : r.assignId s with
      | error e' =>
        rw [hid] at hanswer hassign
        exact hassign (congrArg Except.error (Except.error.inj hanswer).symm)
      | ok assigned => rw [hid] at hanswer; cases hanswer
    · next id r' log h =>
      have hrest := ih r'
      generalize (inTurn (add now) rest r').answer = answer at hrest
      cases answer with
      | error e => exact hrest
      | ok ids => exact nofun

theorem Registry.load_ne_locked (now : Instant) (clock : Nat → Instant) (path : String)
    (document : Except Fault Bytes) (r : Registry) (text : String) :
    (r.load now clock path document).answer ≠ .error (.locked text) := by
  unfold load
  split
  · exact nofun
  · split
    · exact nofun
    · next silences _ =>
      have hturn := inTurn_add_ne_locked now silences r text
      split
      · next e r' log h =>
        rw [h] at hturn
        exact fun heq => hturn (congrArg Except.error (Except.error.inj heq))
      · exact nofun

/-- The file keeps its name unless it is at the path, or is the one that the call has in work beside
it. -/
theorem SaveCall.Advance.child?_of_lock {chunk : Nat} {c c' : SaveCall} {d d' : Disk}
    (h : Advance chunk c d c' d') {path : String} {i : Inode} {name : String}
    (hlock : d.Names (lockPath path) i name) (apart : ¬d.Names c.path i name) :
    d'.child? i name = d.child? i name := by
  cases h with
  | create _ names created =>
    exact created.others i name fun heq => lock_ne_temporary hlock names heq.2
  | write _ => exact child?_writeAt _ _ _ _ i name
  | rename _ old new _ renamed =>
    refine renamed.others i name (fun heq => lock_ne_temporary hlock old heq.2) ?_
    rintro ⟨rfl, rfl⟩
    exact apart new
  | _ => rfl

/-- What has a name keeps it when a file is opened. -/
theorem Disk.Created.child?_of_some {d d' : Disk} {i g file j : Inode} {name m : String}
    (h : Created d d' i name file) (hj : d.child? g m = some j) : d'.child? g m = some j := by
  by_cases heq : g = i ∧ m = name
  · obtain ⟨rfl, rfl⟩ := heq
    rcases h.before with hthere | ⟨hnone, -⟩
    · rw [h.child, ← hthere, hj]
    · cases hj.symm.trans hnone
  · rw [h.others g m heq, hj]

namespace OpenCall

/-- The lock that an open wants is one more than the locks `before`. -/
def Takes (before : Disk) (c : OpenCall) (d : Disk) : Prop :=
  c.config.lock = false ∧ d.locks = before.locks ∨
    c.config.lock = true ∧ ∃ file, before.locks[file]? = none ∧
      d.LockFile c.config.path file ∧ d.locks = before.locks.insert file c.owner

/-- What an open has done to the locks so far. -/
def Minds (before : Disk) (c : OpenCall) (d : Disk) : Prop :=
  match c.stage with
  | .checking | .making | .locking _ | .done (.error _) => d.locks = before.locks
  | .filling _ | .done (.ok _) => c.Takes before d
  | .saving call => call.path = c.config.path ∧ c.Takes before d

variable {now : Instant} {clock : Nat → Instant} {c c' : OpenCall} {before d d' : Disk}

theorem Takes.saved (h : c.Takes before d) (formed : d.Formed) {chunk : Nat} {call call' : SaveCall}
    (path : call.path = c.config.path) (advance : SaveCall.Advance chunk call d call' d') :
    c.Takes before d' := by
  rcases h with ⟨hlock, hlocks⟩ | ⟨hlock, file, hfree, ⟨i, name, hnames, hchild⟩, hlocks⟩
  · exact .inl ⟨hlock, advance.locks_eq.trans hlocks⟩
  · rw [← path] at hnames
    refine .inr ⟨hlock, file, hfree, ⟨i, name, ?_, (advance.child?_lock hnames).trans hchild⟩,
      advance.locks_eq.trans hlocks⟩
    rw [← path]
    exact hnames.keeps (advance.keeps formed)

/-- An open that has its lock, or does without, gives back all that it has taken. -/
theorem Takes.unlock (h : c.Takes before d)
    (fresh : ∀ file : Inode, before.locks[file]? ≠ some c.owner) :
    (d.unlock c.owner).locks = before.locks := by
  rcases h with ⟨-, hlocks⟩ | ⟨-, file, hfree, -, hlocks⟩
  · rw [locks_unlock_of_fresh (hlocks ▸ fresh), hlocks]
  · exact locks_unlock_of_insert fresh hfree hlocks

theorem Advance.minds (h : Advance now clock c d c' d') (formed : d.Formed)
    (fresh : ∀ file : Inode, before.locks[file]? ≠ some c.owner) (hc : c.Minds before d) :
    c'.Minds before d' := by
  have keeps := h.keeps formed
  rw [Minds] at hc
  cases h with
  | found stage _ => rw [stage] at hc; exact hc
  | missed stage _ => rw [stage] at hc; exact hc
  | refused stage _ => rw [stage] at hc; exact hc
  | made stage widens => rw [stage] at hc; exact widens.locks.trans hc
  | unmade stage widens _ => rw [stage] at hc; exact widens.locks.trans hc
  | passed stage free => rw [stage] at hc; exact .inl ⟨free, hc⟩
  | @locked existed i name file d' stage names created free wanted =>
    rw [stage] at hc
    rw [hc] at free
    exact .inr ⟨wanted, file, free, ⟨i, name, names.keeps keeps, created.child⟩,
      by rw [created.locks, hc]⟩
  | blocked stage _ created _ => rw [stage] at hc; exact created.locks.trans hc
  | barred stage _ => rw [stage] at hc; exact hc
  | loaded stage _ => rw [stage] at hc; exact hc
  | unloaded stage _ => rw [stage] at hc; exact hc.unlock fresh
  | filled stage => rw [stage] at hc; exact ⟨rfl, hc⟩
  | saving stage advance _ =>
    rw [stage] at hc
    exact ⟨advance.path_eq.trans hc.1, hc.2.saved formed hc.1 advance⟩
  | saved stage advance _ => rw [stage] at hc; exact hc.2.saved formed hc.1 advance
  | unsaved stage advance _ =>
    rw [stage] at hc
    exact (hc.2.saved formed hc.1 advance).unlock fresh
  | rest _ => exact hc

/-- The save with which an open ends leaves a lock file its name, unless it is at the path that is
opened. -/
theorem Minds.child?_of_lock (hc : c.Minds before d) {call call' : SaveCall}
    (stage : c.stage = .saving call) {chunk : Nat} (advance : SaveCall.Advance chunk call d call' d')
    {path : String} {i : Inode} {name : String} (hlock : d.Names (lockPath path) i name)
    (apart : ¬d.Names c.config.path i name) : d'.child? i name = d.child? i name := by
  rw [Minds, stage] at hc
  rw [← hc.1] at apart
  exact advance.child?_of_lock hlock apart

/-- A lock file keeps its name unless it is at the path that is opened. -/
theorem Advance.child?_of_lock (h : Advance now clock c d c' d') (hc : c.Minds before d)
    {path : String} {i file : Inode} {name : String} (hlock : d.Names (lockPath path) i name)
    (apart : ¬d.Names c.config.path i name) (there : d.child? i name = some file) :
    d'.child? i name = some file := by
  cases h with
  | made _ widens => exact widens.child there
  | unmade _ widens _ => exact widens.child there
  | locked _ _ created _ _ => exact created.child?_of_some there
  | blocked _ _ created _ => exact created.child?_of_some there
  | saving stage advance _ => exact (hc.child?_of_lock stage advance hlock apart).trans there
  | saved stage advance _ => exact (hc.child?_of_lock stage advance hlock apart).trans there
  | unsaved stage advance _ => exact (hc.child?_of_lock stage advance hlock apart).trans there
  | _ => exact there

/-- What holds of an open at any of its steps. -/
structure Course (before : Disk) (config : Config) (owner : Owner) (c : OpenCall) (d : Disk) :
    Prop where
  formed : d.Formed
  keeps : before.Keeps d
  config_eq : c.config = config
  owner_eq : c.owner = owner
  minds : c.Minds before d
  kept : ∀ {path i name file}, before.Names (lockPath path) i name →
    before.child? i name = some file → ¬d.Names config.path i name → d.child? i name = some file

theorem course_begin (formed : d.Formed) (config : Config) (owner : Owner) :
    Course d config owner (.begin config owner) d :=
  ⟨formed, .refl d, rfl, rfl, rfl, fun _ there _ => there⟩

theorem Course.step {config : Config} {owner : Owner} (h : Course before config owner c d)
    (fresh : ∀ file : Inode, before.locks[file]? ≠ some owner) (now : Instant)
    (clock : Nat → Instant) :
    Course before config owner (c.step now clock d).1 (c.step now clock d).2 := by
  have advance := advance_step h.formed now clock c
  have keeps := advance.keeps h.formed
  obtain ⟨formed, before_keeps, rfl, rfl, minds, kept⟩ := h
  refine ⟨advance.formed formed, before_keeps.trans keeps, advance.config_eq, advance.owner_eq,
    advance.minds formed fresh minds, fun hnames there apart => ?_⟩
  have apart' := mt (fun hpath => Names.keeps hpath keeps) apart
  exact advance.child?_of_lock minds (hnames.keeps before_keeps) apart' (kept hnames there apart')

theorem Course.steps {config : Config} {owner : Owner} (h : Course before config owner c d)
    (fresh : ∀ file : Inode, before.locks[file]? ≠ some owner) (now : Instant)
    (clock : Nat → Instant) (n : Nat) :
    Course before config owner (c.steps now clock d n).1 (c.steps now clock d n).2 := by
  induction n generalizing c d with
  | zero => exact h
  | succ n ih => exact ih (h.step fresh now clock)

/-- How many more steps an open takes at most. -/
def stepsLeft : OpenStage → Nat
  | .checking => 8
  | .making => 7
  | .locking _ => 6
  | .filling _ => 5
  | .saving call => max 1 (SaveCall.stepsLeft call.stage)
  | .done _ => 0

theorem Advance.stepsLeft_le (h : Advance now clock c d c' d') {n : Nat}
    (hn : stepsLeft c.stage ≤ n + 1) : stepsLeft c'.stage ≤ n := by
  cases h with
  | found stage _ => rw [stage] at hn; simp only [stepsLeft] at hn ⊢; omega
  | missed stage _ => rw [stage] at hn; simp only [stepsLeft] at hn ⊢; omega
  | made stage _ => rw [stage] at hn; simp only [stepsLeft] at hn ⊢; omega
  | passed stage _ => rw [stage] at hn; simp only [stepsLeft] at hn ⊢; omega
  | locked stage _ _ _ _ => rw [stage] at hn; simp only [stepsLeft] at hn ⊢; omega
  | filled stage =>
    rw [stage] at hn
    exact Nat.le_of_succ_le_succ hn
  | @saving call call' d' stage advance more =>
    rw [stage] at hn
    have hleft := advance.stepsLeft_le (Nat.le_trans (Nat.le_max_right 1 _) hn)
    have hpos : 1 ≤ SaveCall.stepsLeft call'.stage := by
      cases hcall : call'.stage with
      | done answer => exact absurd hcall (more answer)
      | _ => simp [SaveCall.stepsLeft]
    exact Nat.max_le.2 ⟨Nat.le_trans hpos hleft, hleft⟩
  | rest stage =>
    rw [stage]
    exact Nat.zero_le n
  | _ => exact Nat.zero_le n

theorem exists_answer_of_steps (formed : d.Formed) {n : Nat} (hn : stepsLeft c.stage ≤ n) :
    ∃ answer, (c.steps now clock d n).1.stage = .done answer := by
  induction n generalizing c d with
  | zero =>
    cases hstage : c.stage with
    | done answer => exact ⟨answer, hstage⟩
    | saving call =>
      rw [hstage] at hn
      exact absurd (Nat.le_trans (Nat.le_max_left 1 _) hn) (Nat.not_succ_le_zero 0)
    | _ => rw [hstage] at hn; cases hn
  | succ n ih =>
    have advance := advance_step formed now clock c
    exact ih (advance.formed formed) (advance.stepsLeft_le hn)

/-- An open always answers. -/
theorem exists_answer (now : Instant) (clock : Nat → Instant) (config : Config) (owner : Owner)
    (formed : d.Formed) : ∃ answer, ((begin config owner).run now clock d).1.stage = .done answer :=
  exists_answer_of_steps formed (Nat.le_refl _)

theorem steps_add (now : Instant) (clock : Nat → Instant) (c : OpenCall) (d : Disk) (n m : Nat) :
    c.steps now clock d (n + m) =
      (c.steps now clock d n).1.steps now clock (c.steps now clock d n).2 m := by
  induction n generalizing c d with
  | zero => rw [Nat.zero_add]; rfl
  | succ n ih => rw [Nat.succ_add, steps_succ, ih, steps_succ]

/-- There is a step with which an open answers. -/
theorem exists_step_of_steps {answer : Except Failure Registry}
    (begun : ∀ answer, c.stage ≠ .done answer) {n : Nat}
    (h : (c.steps now clock d n).1.stage = .done answer) :
    ∃ k, (∀ answer, (c.steps now clock d k).1.stage ≠ .done answer) ∧
      ((c.steps now clock d k).1.step now clock (c.steps now clock d k).2).1.stage =
        .done answer := by
  induction n generalizing c d with
  | zero => exact absurd h (begun answer)
  | succ n ih =>
    rw [steps_succ] at h
    by_cases hnext : ∃ answer, (c.step now clock d).1.stage = .done answer
    · obtain ⟨answer', hanswer⟩ := hnext
      rw [steps_of_done now clock _ hanswer] at h
      exact ⟨0, begun, h⟩
    · obtain ⟨k, hk, hstep⟩ := ih (fun answer hanswer => hnext ⟨answer, hanswer⟩) h
      exact ⟨k + 1, hk, hstep⟩

/-- An open that comes to its lock file and opens it finds it locked or free. -/
theorem step_of_opened (now : Instant) (clock : Nat → Instant) (formed : d.Formed) {existed : Bool}
    (stage : c.stage = .locking existed) (wanted : c.config.lock = true) {file : Inode}
    (opened : (Path.ofText? (lockPath c.config.path)).bind d.create = .ok (file, d'))
    (text : String) :
    (c.step now clock d).1.stage = .done (.error (.locked text)) ↔
      text = lockPath c.config.path ∧ d.locks[file]? ≠ none := by
  obtain ⟨i, name, -, created⟩ := created_of_create formed opened
  simp only [step, stage, wanted, if_true, takeLock, opened, lock?, created.locks]
  cases held : d.locks[file]? with
  | none => simp
  | some holder => simp [fails, eq_comm]

theorem opened_of_step_locking {existed : Bool} (stage : c.stage = .locking existed) {e : Failure}
    (h : (c.step now clock d).1.stage = .done (.error e)) (unfaulted : ∀ fault, e ≠ .fault fault) :
    c.config.lock = true ∧ ∃ file d',
      (Path.ofText? (lockPath c.config.path)).bind d.create = .ok (file, d') := by
  simp only [step, stage, takeLock] at h
  cases wanted : c.config.lock with
  | false => simp [wanted] at h
  | true =>
    cases hcreate : (Path.ofText? (lockPath c.config.path)).bind d.create with
    | ok opened => exact ⟨rfl, opened.1, opened.2, rfl⟩
    | error fault =>
      simp only [wanted, if_true, hcreate, fails] at h
      exact absurd (Except.error.inj (OpenStage.done.inj h)).symm (unfaulted fault)

/-- Only with the lock file open, an open answers that the lock is somebody's. -/
theorem opened_of_step (formed : d.Formed) (begun : ∀ answer, c.stage ≠ .done answer) {text : String}
    (h : (c.step now clock d).1.stage = .done (.error (.locked text))) :
    c.config.lock = true ∧ ∃ existed file d', c.stage = .locking existed ∧
      (Path.ofText? (lockPath c.config.path)).bind d.create = .ok (file, d') := by
  have hopened (existed : Bool) (stage : c.stage = .locking existed) :=
    opened_of_step_locking stage h nofun
  have advance := advance_step formed now clock c
  generalize c.step now clock d = out at h advance
  obtain ⟨c', d'⟩ := out
  cases advance with
  | blocked stage _ _ _ =>
    obtain ⟨wanted, file, d', hcreate⟩ := hopened _ stage
    exact ⟨wanted, _, file, d', stage, hcreate⟩
  | unloaded _ load =>
    obtain rfl := Except.error.inj (OpenStage.done.inj h)
    exact absurd (congrArg Outcome.answer load) (Registry.load_ne_locked _ _ _ _ _ _)
  | saving _ _ _ => cases h
  | rest stage => exact absurd stage (begun _)
  | _ => cases h

/-- What an open answers with one of its steps is its answer. -/
theorem answer_of_step (formed : d.Formed) (config : Config) (owner : Owner) {n : Nat}
    {answer : Except Failure Registry}
    (begun : ∀ answer, ((begin config owner).steps now clock d n).1.stage ≠ .done answer)
    (h : (((begin config owner).steps now clock d n).1.step now clock
      ((begin config owner).steps now clock d n).2).1.stage = .done answer) :
    ((begin config owner).run now clock d).1.stage = .done answer := by
  rcases Nat.lt_or_ge n allSteps with hn | hn
  · obtain ⟨m, hm⟩ := Nat.exists_eq_add_of_lt hn
    rw [run, hm, Nat.add_assoc, steps_add, steps_succ, steps_of_done now clock _ h]
    exact h
  · obtain ⟨m, rfl⟩ := Nat.exists_eq_add_of_le hn
    obtain ⟨answer', hanswer⟩ := exists_answer now clock config owner formed
    rw [run] at hanswer
    rw [steps_add, steps_of_done now clock _ hanswer] at begun
    exact absurd hanswer (begun answer')

/-- An open comes to its lock file, and opens it or makes it. -/
def OpensLock (now : Instant) (clock : Nat → Instant) (config : Config) (owner : Owner) (d : Disk)
    (file : Inode) : Prop :=
  config.lock = true ∧ ∃ n existed d',
    ((begin config owner).steps now clock d n).1.stage = .locking existed ∧
    (Path.ofText? (lockPath config.path)).bind
      ((begin config owner).steps now clock d n).2.create = .ok (file, d')

/-- An open answers that the lock is somebody's if and only if it has come to the lock file and
somebody has locked that. -/
theorem answer_eq_locked_iff (formed : d.Formed) (config : Config) (owner : Owner)
    (fresh : ∀ file : Inode, d.locks[file]? ≠ some owner) (text : String) :
    ((begin config owner).run now clock d).1.stage = .done (.error (.locked text)) ↔
      text = lockPath config.path ∧ ∃ file : Inode,
        OpensLock now clock config owner d file ∧ d.locks[file]? ≠ none := by
  have course := (course_begin formed config owner).steps fresh now clock
  constructor
  · intro h
    obtain ⟨n, hbegun, hstep⟩ := exists_step_of_steps (fun _ hstage => by cases hstage) h
    obtain ⟨wanted, existed, file, d', stage, hcreate⟩ :=
      opened_of_step (course n).formed hbegun hstep
    have hlocks := (course n).minds
    rw [Minds, stage] at hlocks
    obtain ⟨htext, hheld⟩ :=
      (step_of_opened now clock (course n).formed stage wanted hcreate text).1 hstep
    rw [(course n).config_eq] at wanted htext hcreate
    exact ⟨htext, file, ⟨wanted, n, existed, d', stage, hcreate⟩, hlocks ▸ hheld⟩
  · rintro ⟨htext, file, ⟨wanted, n, existed, d', stage, hcreate⟩, hheld⟩
    have hlocks := (course n).minds
    rw [Minds, stage] at hlocks
    have hstep := step_of_opened now clock (course n).formed stage
      (by rw [(course n).config_eq, wanted]) (by rw [(course n).config_eq, hcreate]) text
    rw [(course n).config_eq] at hstep
    refine answer_of_step formed config owner (fun answer hanswer => ?_)
      (hstep.2 ⟨htext, hlocks ▸ hheld⟩)
    cases stage.symm.trans hanswer

end OpenCall

end AlertSilences
