import AlertSilences.Proofs.Run

/-! Records and actions go together. In every state of every run the armed actions that are
pending are those of the records whose action is armed, one for each, and what belongs to
no record is stopped. -/

namespace AlertSilences

namespace Registry

def tasks (r : Registry) : List Task := r.records.toList.map fun e => ⟨e.1, e.2.handle⟩

/-- How records and actions hang together. Handles name an action by its number, so it is the
numbers that have to be told apart. -/
structure Coupled (r : Registry) : Prop where
  sound : r.scheduler.Sound
  fresh : ∀ h : Handle, r.scheduler.actions.issued ≤ h.index → r.isArmed h = true
  pending_lt : ∀ p ∈ r.pending, p.task.handle.index < r.scheduler.actions.issued
  stored_lt : ∀ (id : SilenceId) (stored : Stored), r.records[id]? = some stored →
    stored.handle.index < r.scheduler.actions.issued
  stored_endsAt : ∀ (id : SilenceId) (stored : Stored), r.records[id]? = some stored →
    stored.handle.endsAt = stored.silence.endsAt
  stored_unique : ∀ (id id' : SilenceId) (stored stored' : Stored), r.records[id]? = some stored →
    r.records[id']? = some stored' → stored.handle.index = stored'.handle.index → id = id'
  pending_nodup : (r.pending.map fun p => p.task.handle.index).Nodup
  pending_stored : ∀ p ∈ r.pending, r.isArmed p.task.handle = true →
    ∃ stored, r.records[p.task.id]? = some stored ∧ stored.handle = p.task.handle
  stored_pending : ∀ (id : SilenceId) (stored : Stored), r.records[id]? = some stored →
    r.isArmed stored.handle = true → ∃ p ∈ r.pending, p.task = ⟨id, stored.handle⟩

theorem pending_empty : empty.pending = [] := by
  have hentries : empty.scheduler.queue.entries = [] := Std.ExtTreeMap.toList_eq_nil_iff.2 rfl
  have hchannel : empty.scheduler.channel.toList = [] := Channel.toList_empty
  simp only [pending, Scheduler.pending, Queue.pending, hentries, hchannel]
  rfl

theorem coupled_empty : empty.Coupled := by
  have hnone (id : SilenceId) : empty.records[id]? = none := Std.ExtTreeMap.getElem?_empty
  have hentries : empty.scheduler.queue.entries = [] := Std.ExtTreeMap.toList_eq_nil_iff.2 rfl
  have hchannel : empty.scheduler.channel.toList = [] := Channel.toList_empty
  constructor
  case sound => exact ⟨rfl, by simp [hchannel], by simp [Queue.Ordered, hentries]⟩
  case fresh =>
    intro h _
    change (!(∅ : Std.ExtTreeSet Nat).contains h.index) = true
    rw [Std.ExtTreeSet.contains_empty]
    rfl
  all_goals simp [pending_empty, hnone]

theorem Coupled.with_lastId {r : Registry} (h : r.Coupled) (lastId : SilenceId) :
    { r with lastId }.Coupled :=
  ⟨h.sound, h.fresh, h.pending_lt, h.stored_lt, h.stored_endsAt, h.stored_unique,
    h.pending_nodup, h.pending_stored, h.stored_pending⟩

/-- The worker may let go of what is stopped. -/
theorem Coupled.let_go {r : Registry} (h : r.Coupled) {s : Scheduler} (hs : s.Sound)
    (ha : s.actions = r.scheduler.actions) {dropped : List Pending}
    (hp : r.pending.Perm (dropped ++ s.pending))
    (hd : ∀ p ∈ dropped, r.isArmed p.task.handle = false) :
    { r with scheduler := s }.Coupled := by
  have harmed (g : Handle) : { r with scheduler := s }.isArmed g = r.isArmed g := by
    simp only [isArmed, Scheduler.isArmed, ha]
  have hsub (p : Pending) (hm : p ∈ s.pending) : p ∈ r.pending :=
    hp.mem_iff.2 (List.mem_append_right _ hm)
  constructor
  case sound => exact hs
  case fresh =>
    intro g hg
    rw [harmed]
    exact h.fresh g (ha ▸ hg)
  case pending_lt =>
    intro p hm
    rw [ha]
    exact h.pending_lt p (hsub p hm)
  case stored_lt => simpa only [ha] using h.stored_lt
  case stored_endsAt => exact h.stored_endsAt
  case stored_unique => exact h.stored_unique
  case pending_nodup =>
    have hn := (hp.map fun p => p.task.handle.index).nodup_iff.1 h.pending_nodup
    rw [List.map_append] at hn
    exact hn.of_append_right
  case pending_stored =>
    intro p hm harm
    rw [harmed] at harm
    exact h.pending_stored p (hsub p hm) harm
  case stored_pending =>
    intro id stored hr harm
    rw [harmed] at harm
    obtain ⟨p, hm, ht⟩ := h.stored_pending id stored hr harm
    rcases List.mem_append.1 (hp.mem_iff.1 hm) with hm | hm
    -- an armed action is not among those let go of
    · have hstop := hd p hm
      rw [ht, harm] at hstop
      cases hstop
    · exact ⟨p, hm, ht⟩

/-- Records may go and actions may be stopped, as long as every record that goes has its action
stopped and no action is stopped but those of records. -/
theorem Coupled.retire {r r' : Registry} (h : r.Coupled)
    (hs : ∃ stopped, r'.scheduler = { r.scheduler with
      actions := { r.scheduler.actions with stopped } })
    (hsub : ∀ (id : SilenceId) (stored : Stored), r'.records[id]? = some stored →
      r.records[id]? = some stored)
    (hstop : ∀ g, r'.isArmed g = true → r.isArmed g = true)
    (hkeep : ∀ (id : SilenceId) (stored : Stored), r.records[id]? = some stored →
      r'.isArmed stored.handle = true → r'.records[id]? = some stored)
    (hother : ∀ g : Handle, (∀ (id : SilenceId) (stored : Stored), r.records[id]? = some stored →
      stored.handle.index ≠ g.index) → r.isArmed g = true → r'.isArmed g = true) :
    r'.Coupled := by
  obtain ⟨stopped, hs⟩ := hs
  have hpending : r'.pending = r.pending := by rw [pending, hs]; rfl
  have hissued : r'.scheduler.actions.issued = r.scheduler.actions.issued := by rw [hs]
  constructor
  case sound =>
    rw [hs]
    exact ⟨h.sound.working, h.sound.commands, h.sound.ordered⟩
  case fresh =>
    intro g hg
    rw [hissued] at hg
    refine hother g ?_ (h.fresh g hg)
    intro id stored hr
    have := h.stored_lt id stored hr
    omega
  case pending_lt =>
    rw [hpending, hissued]
    exact h.pending_lt
  case stored_lt =>
    intro id stored hr
    rw [hissued]
    exact h.stored_lt id stored (hsub id stored hr)
  case stored_endsAt => exact fun id stored hr => h.stored_endsAt id stored (hsub id stored hr)
  case stored_unique =>
    exact fun id id' stored stored' hr hr' =>
      h.stored_unique id id' stored stored' (hsub id stored hr) (hsub id' stored' hr')
  case pending_nodup =>
    rw [hpending]
    exact h.pending_nodup
  case pending_stored =>
    intro p hm harm
    rw [hpending] at hm
    obtain ⟨stored, hr, hh⟩ := h.pending_stored p hm (hstop _ harm)
    exact ⟨stored, hkeep _ stored hr (hh ▸ harm), hh⟩
  case stored_pending =>
    intro id stored hr harm
    rw [hpending]
    exact h.stored_pending id stored (hsub id stored hr) (hstop _ harm)

theorem Coupled.removeRecord {r : Registry} (h : r.Coupled) (id : SilenceId) :
    (r.removeRecord id).Coupled := by
  apply h.retire
  · obtain ⟨stopped, he⟩ := removeRecord_eq r id
    exact ⟨stopped, by rw [he]⟩
  · intro a stored hr
    rw [records_removeRecord, OrderedMap.getElem?_erase] at hr
    split_ifs at hr
    exact hr
  · intro g hg
    exact ((isArmed_removeRecord r id g).1 hg).1
  · intro a stored hr harm
    rw [records_removeRecord, OrderedMap.getElem?_erase]
    split_ifs with ha
    · exact absurd rfl (((isArmed_removeRecord r id _).1 harm).2 stored (ha ▸ hr))
    · exact hr
  · intro g hg harm
    exact (isArmed_removeRecord r id g).2 ⟨harm, hg id⟩

theorem isArmed_close (r : Registry) (g : Handle) :
    (r.stopAll r.handles).isArmed g = true ↔ r.isArmed g = true ∧
      ∀ (id : SilenceId) (stored : Stored), r.records[id]? = some stored →
        stored.handle.index ≠ g.index := by
  rw [isArmed_stopAll]
  refine and_congr_right fun _ => ⟨?_, ?_⟩
  · intro hall id stored hr
    exact hall _ (mem_handles.2 ⟨id, stored, hr, rfl⟩)
  · rintro hall _ hg
    obtain ⟨id, stored, hr, rfl⟩ := mem_handles.1 hg
    exact hall id stored hr

theorem Coupled.close {r : Registry} (h : r.Coupled) : (r.stopAll r.handles).Coupled := by
  obtain ⟨stopped, he⟩ := stopAll_eq r r.handles
  have hrecords : (r.stopAll r.handles).records = r.records := by rw [he]
  apply h.retire
  · exact ⟨stopped, by rw [he]⟩
  · simp [hrecords]
  · intro g hg
    exact ((isArmed_close r g).1 hg).1
  · intro id stored hr _
    rwa [hrecords]
  · intro g hg harm
    exact (isArmed_close r g).2 ⟨harm, hg⟩

theorem Coupled.clear {r : Registry} (h : r.Coupled) :
    { r.stopAll r.handles with records := ∅ }.Coupled := by
  obtain ⟨stopped, he⟩ := stopAll_eq r r.handles
  apply h.retire
  · exact ⟨stopped, by rw [he]⟩
  · intro id stored hr
    exact absurd hr (by simp)
  · intro g hg
    exact ((isArmed_close r g).1 hg).1
  · intro id stored hr harm
    exact absurd rfl (((isArmed_close r _).1 harm).2 id stored hr)
  · intro g hg harm
    exact (isArmed_close r g).2 ⟨harm, hg⟩

/-- A silence is stored together with an action that was not there before. -/
theorem Coupled.store {r : Registry} (h : r.Coupled) {s : Silence} (hs : r.records[s.id]? = none)
    (now : Instant) : (r.store now s).1.Coupled := by
  have hl := Phase.listens_of_working h.sound.working
  have hpending := pending_store hl now s
  have harmed := isArmed_store hl now s
  have hissued : (r.store now s).1.scheduler.actions.issued = r.scheduler.actions.issued + 1 := by
    rw [scheduler_store hl]
  have hstored {id : SilenceId} {stored : Stored}
      (hr : (r.store now s).1.records[id]? = some stored) :
      id = s.id ∧ stored = ⟨s, r.nextHandle s.endsAt⟩ ∨ r.records[id]? = some stored := by
    rw [records_store, OrderedMap.getElem?_insert] at hr
    split_ifs at hr with hid
    · exact Or.inl ⟨hid.symm, (Option.some.inj hr).symm⟩
    · exact Or.inr hr
  have hkept {id : SilenceId} {stored : Stored} (hr : r.records[id]? = some stored) :
      (r.store now s).1.records[id]? = some stored := by
    rw [records_store, OrderedMap.getElem?_insert, if_neg, hr]
    rintro rfl
    rw [hs] at hr
    cases hr
  constructor
  case sound =>
    rw [scheduler_store hl]
    exact h.sound.send _ _ _
  case fresh =>
    intro g hg
    rw [hissued] at hg
    rw [harmed]
    exact h.fresh g (by omega)
  case pending_lt =>
    intro p hm
    rw [hissued]
    rw [hpending] at hm
    rcases List.mem_append.1 hm with hm | hm
    · exact Nat.lt_succ_of_lt (h.pending_lt p hm)
    · rw [List.mem_singleton.1 hm]
      exact Nat.lt_succ_self _
  case stored_lt =>
    intro id stored hr
    rw [hissued]
    rcases hstored hr with ⟨-, rfl⟩ | hr
    · exact Nat.lt_succ_self _
    · exact Nat.lt_succ_of_lt (h.stored_lt id stored hr)
  case stored_endsAt =>
    intro id stored hr
    rcases hstored hr with ⟨-, rfl⟩ | hr
    · rfl
    · exact h.stored_endsAt id stored hr
  case stored_unique =>
    -- the new action has a number that no record has had
    intro id id' stored stored' hr hr' heq
    rcases hstored hr with ⟨rfl, rfl⟩ | hr <;> rcases hstored hr' with ⟨rfl, rfl⟩ | hr'
    · rfl
    · exact absurd heq (Nat.ne_of_gt (h.stored_lt id' stored' hr'))
    · exact absurd heq (Nat.ne_of_lt (h.stored_lt id stored hr))
    · exact h.stored_unique id id' stored stored' hr hr' heq
  case pending_nodup =>
    rw [hpending, List.map_append, List.nodup_append]
    refine ⟨h.pending_nodup, by simp, ?_⟩
    intro i hi j hj
    obtain ⟨p, hm, rfl⟩ := List.mem_map.1 hi
    rw [List.mem_singleton.1 hj]
    exact Nat.ne_of_lt (h.pending_lt p hm)
  case pending_stored =>
    intro p hm harm
    rw [harmed] at harm
    rw [hpending] at hm
    rcases List.mem_append.1 hm with hm | hm
    · obtain ⟨stored, hr, hh⟩ := h.pending_stored p hm harm
      exact ⟨stored, hkept hr, hh⟩
    · rw [List.mem_singleton.1 hm, records_store, OrderedMap.getElem?_insert, if_pos rfl]
      exact ⟨_, rfl, rfl⟩
  case stored_pending =>
    intro id stored hr harm
    rw [harmed] at harm
    rw [hpending]
    rcases hstored hr with ⟨rfl, rfl⟩ | hr
    · exact ⟨_, List.mem_append_right _ (List.mem_singleton_self _), rfl⟩
    · obtain ⟨p, hm, ht⟩ := h.stored_pending id stored hr harm
      exact ⟨p, List.mem_append_left _ hm, ht⟩

theorem Coupled.put {r : Registry} (h : r.Coupled) (now : Instant) (s : Silence) :
    (r.put now s).Coupled := by
  apply (h.removeRecord s.id).store
  simp

theorem Coupled.effect {now : Instant} {r r' : Registry} {call : Call} (h : r.Coupled)
    (he : r.Effect now call r') : r'.Coupled := by
  cases he with
  | none => exact h
  | put hw lastId => exact (h.with_lastId lastId).put now _
  | remove _ _ id => exact h.removeRecord id
  | close => exact h.close
  | clear => exact h.clear

theorem mem_pending_of_delivering {r : Registry} {asOf : Int} {turn : Turn} {task : Task}
    (hp : r.scheduler.phase = .delivering asOf turn task) : ⟨turn.due, task⟩ ∈ r.pending := by
  simp [pending, Scheduler.pending, hp, Phase.pending]

/-- What the worker has in hand is the task of a record, or it is stopped. -/
theorem Coupled.not_isArmed_of_not_isCurrent {r : Registry} (h : r.Coupled) {asOf : Int}
    {turn : Turn} {task : Task} (hp : r.scheduler.phase = .delivering asOf turn task)
    (hc : ¬r.IsCurrent task) : r.isArmed task.handle = false := by
  rw [Bool.eq_false_iff]
  intro harm
  obtain ⟨stored, hr, hh⟩ := h.pending_stored _ (mem_pending_of_delivering hp) harm
  exact hc ⟨stored, hr, by simp [Handle.same, hh], harm⟩

theorem Coupled.stored_of_isCurrent {r : Registry} (h : r.Coupled) {asOf : Int} {turn : Turn}
    {task : Task} (hp : r.scheduler.phase = .delivering asOf turn task) (hc : r.IsCurrent task) :
    ∃ stored, r.records[task.id]? = some stored ∧ stored.handle = task.handle ∧
      r.isArmed task.handle = true := by
  obtain ⟨-, -, -, harm⟩ := hc
  obtain ⟨stored, hr, hh⟩ := h.pending_stored _ (mem_pending_of_delivering hp) harm
  exact ⟨stored, hr, hh, harm⟩

/-- Once its action is stopped, the worker may go on with its sweep. -/
theorem Coupled.sweepOn {r : Registry} (h : r.Coupled) {asOf : Int} {turn : Turn} {task : Task}
    (hp : r.scheduler.phase = .delivering asOf turn task)
    (hs : r.isArmed task.handle = false) : (r.sweepOn asOf).Coupled := by
  have hperm : r.pending.Perm ([⟨turn.due, task⟩] ++ (r.sweepOn asOf).pending) := by
    simp [pending, Scheduler.pending, Registry.sweepOn, hp, Phase.pending]
  exact h.let_go ⟨rfl, h.sound.commands, h.sound.ordered⟩ rfl hperm (by simpa using hs)

theorem Coupled.work {now : Instant} {r r' : Registry} {log : Log} (h : r.Coupled)
    (hw : r.Work now r' log) : r'.Coupled := by
  cases hw with
  | advance hs =>
    obtain ⟨dropped, hperm, hstop⟩ := hs.pending_perm h.sound
    exact h.let_go (hs.sound h.sound) hs.actions_eq hperm hstop
  | @expire asOf turn task hp hc =>
    refine (h.removeRecord task.id).sweepOn ((phase_removeRecord r task.id).trans hp) ?_
    obtain ⟨stored, hr, hh, -⟩ := h.stored_of_isCurrent hp hc
    rw [Bool.eq_false_iff]
    intro harm
    exact ((isArmed_removeRecord r task.id _).1 harm).2 stored hr (by rw [hh])
  | pass hp hc => exact h.sweepOn hp (h.not_isArmed_of_not_isCurrent hp hc)

theorem Coupled.step {r r' : Registry} {m : Moment} (h : r.Coupled) (hs : r.Step r' m) :
    r'.Coupled := by
  rcases answers_or_work_of_step hs with ⟨client, call, -, ha⟩ | ⟨-, hw⟩
  · exact h.effect (effect_of_answers ha)
  · exact h.work hw

end Registry

theorem Run.coupled {history : History} {r : Registry} (run : Run history r) : r.Coupled := by
  induction run with
  | nil => exact Registry.coupled_empty
  | snoc _ step ih => exact ih.step step

namespace Registry

theorem mem_tasks {r : Registry} {task : Task} :
    task ∈ r.tasks ↔ ∃ stored, r.records[task.id]? = some stored ∧ stored.handle = task.handle := by
  obtain ⟨id, handle⟩ := task
  simp [tasks]

theorem nodup_tasks (r : Registry) : r.tasks.Nodup := by
  have hkeys : (r.tasks.map Task.id).Nodup := by
    have : r.tasks.map Task.id = r.records.keys := by
      rw [tasks, List.map_map, ← Std.ExtTreeMap.map_fst_toList_eq_keys]
      rfl
    rw [this]
    exact Std.ExtTreeMap.nodup_keys
  exact hkeys.of_map

theorem Coupled.nodup_pending_tasks {r : Registry} (h : r.Coupled) :
    (r.pending.map Pending.task).Nodup := by
  have hn := h.pending_nodup
  rw [← Function.comp_def (fun t : Task => t.handle.index) Pending.task, ← List.map_map] at hn
  exact hn.of_map

/-- The tasks that are pending with an armed action are those of the records. -/
theorem Coupled.armed_perm {r : Registry} (h : r.Coupled) :
    ((r.pending.map Pending.task).filter fun t => r.isArmed t.handle).Perm
      (r.tasks.filter fun t => r.isArmed t.handle) := by
  rw [List.perm_ext_iff_of_nodup (h.nodup_pending_tasks.filter _) ((nodup_tasks r).filter _)]
  intro task
  rw [List.mem_filter, List.mem_filter, mem_tasks]
  refine and_congr_left fun harm => ⟨?_, ?_⟩
  · intro hm
    obtain ⟨p, hp, rfl⟩ := List.mem_map.1 hm
    exact h.pending_stored p hp harm
  · rintro ⟨stored, hr, hh⟩
    obtain ⟨p, hp, ht⟩ := h.stored_pending _ stored hr (hh ▸ harm)
    exact List.mem_map.2 ⟨p, hp, by rw [ht, hh]⟩

end Registry

/-- In every state of every run the armed actions that are pending and the records whose action is
armed correspond one to one, with the same handle, under the id of the record, for the end of the
silence. What is pending for no record is stopped, and no two records share an action. -/
theorem armed_pending_perm_armed_records {history : History} {r : Registry} (run : Run history r) :
    ((r.pending.map Pending.task).filter fun t => r.isArmed t.handle).Perm
        (r.tasks.filter fun t => r.isArmed t.handle) ∧
      ((r.pending.map Pending.task).filter fun t => r.isArmed t.handle).Nodup ∧
      (∀ (id : SilenceId) (stored : Stored), r.records[id]? = some stored →
        stored.handle.endsAt = stored.silence.endsAt) ∧
      (∀ p ∈ r.pending, (∀ (id : SilenceId) (stored : Stored), r.records[id]? = some stored →
        stored.handle.same p.task.handle = false) → r.isArmed p.task.handle = false) ∧
      ∀ (id id' : SilenceId) (stored stored' : Stored), r.records[id]? = some stored →
        r.records[id']? = some stored' → stored.handle.same stored'.handle = true → id = id' := by
  have h := run.coupled
  refine ⟨h.armed_perm, h.nodup_pending_tasks.filter _, h.stored_endsAt, ?_, ?_⟩
  · intro p hp hnone
    rw [Bool.eq_false_iff]
    intro harm
    obtain ⟨stored, hr, hh⟩ := h.pending_stored p hp harm
    have hsame := hnone _ stored hr
    simp [Handle.same, hh] at hsame
  · intro id id' stored stored' hr hr' hsame
    exact h.stored_unique id id' stored stored' hr hr' (by simpa [Handle.same] using hsame)

/-- A silence that was updated has one armed action, and the one before is stopped. -/
theorem armed_pending_of_updated_silence :
    ∃ (history : History) (r : Registry), Run history r ∧ r.pending.length = 2 ∧
      (r.tasks.filter fun t => r.isArmed t.handle).length = 1 ∧
      ((r.pending.map Pending.task).filter fun t => r.isArmed t.handle).Perm
        (r.tasks.filter fun t => r.isArmed t.handle) := by
  have run := (Run.nil.add 0 default (.new default "ops" default)).update 1 default
    ((Silence.new default "ops" default).withId ⟨1⟩)
  exact ⟨_, _, run, rfl, rfl, (armed_pending_perm_armed_records run).1⟩

end AlertSilences
