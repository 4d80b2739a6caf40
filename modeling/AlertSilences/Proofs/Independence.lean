import AlertSilences.Proofs.HighWater

/-! What is done under one id leaves the others alone. Actions of all ids stand in one queue and
share one table of what is stopped, so this rests on no two records having one action, and on
every pending action being pending for the id of the record that has it. Calls under different ids
that each name theirs can be made in either order. -/

namespace AlertSilences

/-- Of the armed entries none goes as another is queued, even if stopped ones are pruned. -/
theorem Queue.mem_entries_push {q : Queue} (ho : q.Ordered) {actions : Actions} (due : Int)
    (task : Task) {e : Entry} (ha : actions.isArmed e.2.handle = true) :
    e ∈ (q.push actions due task).entries ↔ e = (⟨due, q.arrivals⟩, task) ∨ e ∈ q.entries := by
  rw [← List.mem_cons, ← (entries_enter ho due task).mem_iff, push]
  rcases entries_prune actions (q.enter due task) with heq | heq
  · rw [heq]
  · rw [heq, List.mem_filter]
    exact and_iff_left ha

/-- With something in hand the worker takes no step of its own. -/
theorem Scheduler.Advance.phase_ne_delivering {now : Int} {s s' : Scheduler} {log : Log}
    (h : s.Advance now s' log) (asOf : Int) (turn : Turn) (task : Task) :
    s.phase ≠ .delivering asOf turn task := by
  intro hp
  cases h <;> simp_all

namespace Registry

/-- Whatever is pending with the action of a record is pending for the id of that record. -/
def Owned (r : Registry) : Prop :=
  ∀ p ∈ r.pending, ∀ (id : SilenceId) (stored : Stored), r.records[id]? = some stored →
    stored.handle.index = p.task.handle.index → id = p.task.id

theorem owned_empty : empty.Owned := by simp [Owned, pending_empty]

/-- Fewer records and less that is pending make no new owners. -/
theorem Owned.mono {r r' : Registry} (h : r.Owned) (hp : ∀ p ∈ r'.pending, p ∈ r.pending)
    (hr : ∀ (id : SilenceId) (stored : Stored), r'.records[id]? = some stored →
      r.records[id]? = some stored) : r'.Owned :=
  fun p hm id stored hs => h p (hp p hm) id stored (hr id stored hs)

theorem Owned.removeRecord {r : Registry} (h : r.Owned) (id : SilenceId) :
    (r.removeRecord id).Owned := by
  refine h.mono (by simp [pending_removeRecord]) fun other stored hr => ?_
  rw [records_removeRecord, OrderedMap.getElem?_erase] at hr
  split_ifs at hr
  exact hr

theorem Owned.put {r : Registry} (h : r.Owned) (hc : r.Coupled) (now : Instant) (s : Silence) :
    (r.put now s).Owned := by
  intro p hp id stored hr heq
  rw [pending_put (Phase.listens_of_working hc.sound.working), List.mem_append,
    List.mem_singleton] at hp
  rw [records_put, OrderedMap.getElem?_insert] at hr
  -- the new action has a number that neither a record nor anything pending has had
  split_ifs at hr with hid
  · obtain rfl := Option.some.inj hr
    rcases hp with hp | rfl
    · exact absurd heq (Nat.ne_of_gt (hc.pending_lt p hp))
    · exact hid.symm
  · rcases hp with hp | rfl
    · exact h p hp id stored hr heq
    · exact absurd heq (Nat.ne_of_lt (hc.stored_lt id stored hr))

theorem Owned.effect {now : Instant} {r r' : Registry} {call : Call} (h : r.Owned)
    (hc : r.Coupled) (he : r.Effect now call r') : r'.Owned := by
  have hstop : (r.stopAll r.handles).Owned := by
    obtain ⟨stopped, heq⟩ := stopAll_eq r r.handles
    rw [heq]
    exact h
  cases he with
  | none => exact h
  | put hw lastId =>
    have hr : { r with lastId }.Owned := h
    exact hr.put (hc.with_lastId lastId) now _
  | remove _ _ id => exact h.removeRecord id
  | close => exact hstop
  | clear => exact hstop.mono (fun _ hp => hp) (by simp)

/-- The worker goes on with its sweep, and what it had in hand is pending no more. -/
theorem pending_of_delivering {r : Registry} {asOf : Int} {turn : Turn} {task : Task}
    (hp : r.scheduler.phase = .delivering asOf turn task) :
    r.pending = ⟨turn.due, task⟩ :: (r.sweepOn asOf).pending := by
  simp [pending, Scheduler.pending, sweepOn, hp, Phase.pending]

theorem Owned.work {now : Instant} {r r' : Registry} {log : Log} (h : r.Owned) (hc : r.Coupled)
    (hw : r.Work now r' log) : r'.Owned := by
  cases hw with
  | advance ha =>
    obtain ⟨dropped, hperm, -⟩ := ha.pending_perm hc.sound
    exact h.mono (fun p hp => hperm.mem_iff.2 (List.mem_append_right _ hp)) fun _ _ hr => hr
  | @expire _ _ task hp =>
    refine (h.removeRecord task.id).mono (fun p hm => ?_) fun _ _ hr => hr
    rw [pending_of_delivering ((phase_removeRecord r task.id).trans hp)]
    exact List.mem_cons_of_mem _ hm
  | pass hp =>
    refine h.mono (fun p hm => ?_) fun _ _ hr => hr
    rw [pending_of_delivering hp]
    exact List.mem_cons_of_mem _ hm

end Registry

theorem Run.owned {history : History} {r : Registry} (run : Run history r) : r.Owned := by
  induction run with
  | nil => exact Registry.owned_empty
  | snoc run step ih =>
    rcases Registry.answers_or_work_of_step step with ⟨client, call, -, ha⟩ | ⟨-, hw⟩
    · exact ih.effect run.coupled (Registry.effect_of_answers ha)
    · exact ih.work run.coupled hw

namespace Registry

/-- `r'` differs from `r` in nothing that belongs to another id than `id`: every other record is
the same, with the same action, and that is armed if it was, has the same end, is pending as it
was and has the same place in the queue. -/
structure ChangesOnly (id : SilenceId) (r r' : Registry) : Prop where
  records : ∀ other : SilenceId, other ≠ id → r'.records[other]? = r.records[other]?
  armed : ∀ (other : SilenceId) (stored : Stored), other ≠ id →
    r.records[other]? = some stored → r'.isArmed stored.handle = r.isArmed stored.handle
  pending : ∀ (other : SilenceId) (stored : Stored) (p : Pending), other ≠ id →
    r.records[other]? = some stored → p.task.handle.same stored.handle = true →
    (p ∈ r'.pending ↔ p ∈ r.pending)
  queue : r'.scheduler.queue = r.scheduler.queue

theorem ChangesOnly.refl (id : SilenceId) (r : Registry) : r.ChangesOnly id r :=
  ⟨fun _ _ => rfl, fun _ _ _ _ => rfl, fun _ _ _ _ _ _ => Iff.rfl, rfl⟩

theorem changesOnly_removeRecord {r : Registry} (hc : r.Coupled) (id : SilenceId) :
    r.ChangesOnly id (r.removeRecord id) where
  records other hne := by
    rw [records_removeRecord, OrderedMap.getElem?_erase, if_neg (Ne.symm hne)]
  armed other stored hne hr := hc.isArmed_removeRecord_of_ne hr (Ne.symm hne)
  pending other stored p _ _ _ := by rw [pending_removeRecord]
  queue := by
    obtain ⟨stopped, he⟩ := removeRecord_eq r id
    rw [he]

theorem queue_put {r : Registry} (h : r.scheduler.phase.listens = true) (now : Instant)
    (s : Silence) : (r.put now s).scheduler.queue = r.scheduler.queue := by
  obtain ⟨stopped, he⟩ := removeRecord_eq r s.id
  rw [put, scheduler_store (by rwa [phase_removeRecord]), he]

theorem changesOnly_put {r : Registry} (hc : r.Coupled) (lastId : SilenceId) (now : Instant)
    (s : Silence) : r.ChangesOnly s.id ({ r with lastId }.put now s) := by
  set before : Registry := { r with lastId }
  have hb : before.Coupled := hc.with_lastId lastId
  have hl := Phase.listens_of_working hb.sound.working
  refine ⟨fun other hne => ?_, fun other stored hne hr => ?_, fun other stored p _ hr hs => ?_,
    queue_put hl now s⟩
  · rw [records_put, OrderedMap.getElem?_insert, if_neg (Ne.symm hne)]
  · rw [isArmed_put hl]
    exact hb.isArmed_removeRecord_of_ne hr (Ne.symm hne)
  · rw [pending_put hl, List.mem_append, List.mem_singleton]
    refine or_iff_left ?_
    rintro rfl
    have hsame : r.scheduler.actions.issued = stored.handle.index := by
      simpa [Handle.same, nextHandle] using hs
    exact Nat.ne_of_gt (hc.stored_lt other stored hr) hsame

/-- Of what is pending only what the worker had in hand goes as it moves on. -/
theorem ChangesOnly.sweepOn {r q : Registry} {asOf : Int} {turn : Turn} {task : Task}
    (h : r.ChangesOnly task.id q) (ho : r.Owned)
    (hr : r.scheduler.phase = .delivering asOf turn task)
    (hq : q.scheduler.phase = .delivering asOf turn task) :
    r.ChangesOnly task.id (q.sweepOn asOf) := by
  refine ⟨h.records, h.armed, fun other stored p hne hs hsame => ?_, h.queue⟩
  rw [← h.pending other stored p hne hs hsame, pending_of_delivering hq, List.mem_cons]
  refine (or_iff_right ?_).symm
  rintro rfl
  have heq := Handle.same_iff.1 hsame
  exact hne (ho _ (mem_pending_of_delivering hr) other stored hs heq.symm)

/-- Whatever action it is called with, the removal of a record at its end keeps to its id. -/
theorem changesOnly_expire {r : Registry} (hc : r.Coupled) (id : SilenceId) (handle : Handle) :
    r.ChangesOnly id (r.expire id handle).1 := by
  by_cases h : r.IsCurrent ⟨id, handle⟩
  · have he := expire_of_isCurrent h
    dsimp only at he
    rw [he]
    exact changesOnly_removeRecord hc id
  · rcases expire_of_not_isCurrent h with he | he
    all_goals
      dsimp only at he
      rw [he]
      exact .refl id r

theorem changesOnly_of_step? {now : Instant} {r r' : Registry} {log : Log} (hc : r.Coupled)
    (ho : r.Owned) {asOf : Int} {turn : Turn} {task : Task}
    (hp : r.scheduler.phase = .delivering asOf turn task) (h : r.step? now = some (r', log)) :
    r.ChangesOnly task.id r' := by
  cases work_of_step? h with
  | advance ha => exact absurd hp (ha.phase_ne_delivering asOf turn task)
  | expire hp' =>
    obtain ⟨rfl, rfl, rfl⟩ := Phase.delivering.inj (hp.symm.trans hp')
    exact (changesOnly_removeRecord hc _).sweepOn ho hp ((phase_removeRecord r _).trans hp)
  | pass hp' =>
    obtain ⟨rfl, rfl, rfl⟩ := Phase.delivering.inj (hp.symm.trans hp')
    exact (ChangesOnly.refl _ r).sweepOn ho hp hp

/-- `r'` has the records of `r`, armed as they were, and as far as they are armed the queue has what
it had for those under another id than `id`. -/
structure QueuesOnly (id : SilenceId) (r r' : Registry) : Prop where
  records : r'.records = r.records
  armed : ∀ h : Handle, r'.isArmed h = r.isArmed h
  entries : ∀ (other : SilenceId) (stored : Stored) (e : Entry), other ≠ id →
    r.records[other]? = some stored → r.isArmed stored.handle = true →
    e.2.handle.same stored.handle = true →
    (e ∈ r'.scheduler.queue.entries ↔ e ∈ r.scheduler.queue.entries)

theorem queuesOnly_of_step? {now : Instant} {r r' : Registry} {log : Log} (hc : r.Coupled)
    (ho : r.Owned) {due : Int} {task : Task} (hp : r.scheduler.phase = .received (.arm due task))
    (h : r.step? now = some (r', log)) : r.QueuesOnly task.id r' := by
  have hstep : r.step? now = some ({ r with scheduler := { r.scheduler with
      queue := r.scheduler.queue.push r.scheduler.actions due task, phase := .checking } }, []) := by
    simp only [step?, hp, Scheduler.step?]
  obtain ⟨rfl, -⟩ := Prod.mk.inj (Option.some.inj (hstep.symm.trans h))
  refine ⟨rfl, fun _ => rfl, fun other stored e hne hr harm hs => ?_⟩
  have hsame := Handle.same_iff.1 hs
  rw [Queue.mem_entries_push hc.sound.ordered due task
    ((Actions.isArmed_of_same hs r.scheduler.actions).trans harm)]
  refine or_iff_right ?_
  rintro rfl
  -- the command was pending, so if its action were the record's the ids would be the same
  refine hne (ho ⟨due, task⟩ ?_ other stored hr hsame.symm)
  simp [pending, Scheduler.pending, hp, Phase.pending, Command.pending]

/-- What can be seen of a record: the silence, and whether it will go by itself. -/
def shown? (r : Registry) (id : SilenceId) : Option (Silence × Bool) :=
  (r.records[id]?).map fun stored => (stored.silence, r.isArmed stored.handle)

/-- The actions that are pending and armed, as ids and ends. -/
def liveActions (r : Registry) : List (SilenceId × Instant) :=
  ((r.pending.map Pending.task).filter fun t => r.isArmed t.handle).map fun t =>
    (t.id, t.handle.endsAt)

theorem shown?_put {r : Registry} (hc : r.Coupled) (now : Instant) (s : Silence)
    (id : SilenceId) :
    (r.put now s).shown? id = if s.id = id then some (s, true) else r.shown? id := by
  have hl := Phase.listens_of_working hc.sound.working
  rw [shown?, records_put, OrderedMap.getElem?_insert]
  split_ifs with hid
  · have hfresh : (r.put now s).isArmed (r.nextHandle s.endsAt) = true := by
      rw [isArmed_put hl]
      exact (hc.removeRecord s.id).fresh _ (by rw [issued_removeRecord]; exact Nat.le_refl _)
    simp [hfresh]
  · cases hr : r.records[id]? with
    | none => simp [shown?, hr]
    | some stored =>
      simp only [shown?, hr, Option.map_some, isArmed_put hl,
        hc.isArmed_removeRecord_of_ne hr hid]

theorem shown?_removeRecord {r : Registry} (hc : r.Coupled) (id other : SilenceId) :
    (r.removeRecord id).shown? other = if id = other then none else r.shown? other := by
  rw [shown?, records_removeRecord, OrderedMap.getElem?_erase]
  split_ifs with hid
  · rfl
  · cases hr : r.records[other]? with
    | none => simp [shown?, hr]
    | some stored =>
      simp only [shown?, hr, Option.map_some, hc.isArmed_removeRecord_of_ne hr hid]

/-- The live actions are those of the armed records, each for the end of its silence. -/
theorem mem_liveActions {r : Registry} (hc : r.Coupled) {id : SilenceId} {endsAt : Instant} :
    (id, endsAt) ∈ r.liveActions ↔ ∃ s, r.shown? id = some (s, true) ∧ s.endsAt = endsAt := by
  rw [liveActions, (hc.armed_perm.map _).mem_iff]
  constructor
  · intro hm
    obtain ⟨task, ht, heq⟩ := List.mem_map.1 hm
    obtain ⟨rfl, rfl⟩ := Prod.mk.inj heq
    obtain ⟨hmem, harm⟩ := List.mem_filter.1 ht
    obtain ⟨stored, hr, hh⟩ := mem_tasks.1 hmem
    refine ⟨stored.silence, ?_, ?_⟩
    · rw [shown?, hr, Option.map_some, hh, harm]
    · rw [← hh, hc.stored_endsAt _ stored hr]
  · rintro ⟨s, hs, rfl⟩
    obtain ⟨stored, hr, heq⟩ := Option.map_eq_some_iff.1 hs
    obtain ⟨rfl, harm⟩ := Prod.mk.inj heq
    refine List.mem_map.2 ⟨⟨id, stored.handle⟩, List.mem_filter.2 ⟨?_, harm⟩, ?_⟩
    · exact mem_tasks.2 ⟨stored, hr, rfl⟩
    · rw [hc.stored_endsAt id stored hr]

theorem nodup_liveActions {r : Registry} (hc : r.Coupled) : r.liveActions.Nodup := by
  rw [liveActions, (hc.armed_perm.map _).nodup_iff]
  refine List.Nodup.map_on (fun a ha b hb heq => ?_) ((nodup_tasks r).filter _)
  obtain ⟨stored, hr, hh⟩ := mem_tasks.1 (List.mem_of_mem_filter ha)
  obtain ⟨stored', hr', hh'⟩ := mem_tasks.1 (List.mem_of_mem_filter hb)
  obtain ⟨hid, -⟩ := Prod.mk.inj heq
  obtain rfl := Option.some.inj (hr.symm.trans (hid ▸ hr'))
  obtain ⟨id, handle⟩ := a
  obtain ⟨id', handle'⟩ := b
  dsimp only at hid hh hh'
  rw [hid, ← hh, ← hh']

/-- Registries that show the same have the same live actions. -/
theorem liveActions_perm {r q : Registry} (hr : r.Coupled) (hq : q.Coupled)
    (h : ∀ id, r.shown? id = q.shown? id) : r.liveActions.Perm q.liveActions := by
  rw [List.perm_ext_iff_of_nodup (nodup_liveActions hr) (nodup_liveActions hq)]
  rintro ⟨id, endsAt⟩
  rw [mem_liveActions hr, mem_liveActions hq, h]

end Registry

/-- The id that a call has written or deleted under, for a call that names it. -/
def Call.edited? : Call → Option SilenceId
  | .add s (.ok id) => if s.id = .unset then none else some id
  | .update s (.ok ()) => some s.id
  | .delete id (.ok ()) => some id
  | _ => none

namespace Registry

theorem changesOnly_add {now : Instant} {s : Silence} {r r' : Registry} {id : SilenceId}
    {log : Log} (hc : r.Coupled) (h : r.add now s = ⟨.ok id, r', log⟩) : r.ChangesOnly id r' := by
  have hanswer := answer_add now s r
  have hregistry := registry_add now s r
  rw [h] at hanswer hregistry
  cases ha : r.assignId s with
  | error e =>
    rw [ha] at hanswer
    cases hanswer
  | ok assigned =>
    rw [ha] at hanswer hregistry
    obtain rfl := Except.ok.inj hanswer
    rw [show r' = _ from hregistry]
    exact changesOnly_put hc assigned.2 now { s with id := assigned.1 }

theorem changesOnly_update {now : Instant} {s : Silence} {r r' : Registry} {log : Log}
    (hc : r.Coupled) (h : r.update now s = ⟨.ok (), r', log⟩) : r.ChangesOnly s.id r' := by
  have hregistry := registry_update now s r
  rw [h] at hregistry
  rw [show r' = _ from hregistry]
  split_ifs
  · exact changesOnly_put hc r.lastId now s
  · exact .refl s.id r

theorem changesOnly_delete {id : SilenceId} {r r' : Registry} {log : Log} (hc : r.Coupled)
    (h : r.delete id = ⟨.ok (), r', log⟩) : r.ChangesOnly id r' := by
  have hregistry := registry_delete id r
  rw [h] at hregistry
  rw [show r' = _ from hregistry]
  exact changesOnly_removeRecord hc id

/-- What a call leaves to be seen under the id that it names depends on the call alone. -/
theorem shown?_of_answers {now : Instant} {r r' : Registry} {log : Log} {call : Call}
    {id : SilenceId} (hc : r.Coupled) (h : r.Answers now r' log call)
    (he : call.edited? = some id) (other : SilenceId) :
    r'.shown? other = if id = other then call.written?.map fun s => (s, true)
      else r.shown? other := by
  cases call with
  | add s answer =>
    have hregistry := registry_add now s r
    have hanswer := answer_add now s r
    rw [show r.add now s = _ from h] at hregistry hanswer
    subst hregistry hanswer
    cases ha : r.assignId s with
    | error e => simp [ha, Call.edited?, Except.map] at he
    | ok assigned =>
      obtain rfl : assigned.1 = id := by
        simp only [ha, Except.map, Call.edited?, Option.ite_none_left_eq_some,
          Option.some.injEq] at he
        exact he.2
      have hb : { r with lastId := assigned.2 }.Coupled := hc.with_lastId _
      exact shown?_put hb now { s with id := assigned.1 } other
  | update s answer =>
    have hregistry := registry_update now s r
    have hanswer := answer_update now s r
    rw [show r.update now s = _ from h] at hregistry hanswer
    subst hregistry hanswer
    cases hthere : (r.records[s.id]?).isSome with
    | false => simp [hthere, Call.edited?] at he
    | true =>
      obtain rfl : s.id = id := by simpa [hthere, Call.edited?] using he
      exact shown?_put hc now s other
  | delete target answer =>
    have hregistry := registry_delete target r
    rw [show r.delete target = _ from h] at hregistry
    subst hregistry
    cases answer with
    | error e => cases he
    | ok done =>
      obtain rfl := Option.some.inj he
      exact shown?_removeRecord hc target other
  | _ => cases he

@[simp] theorem isSome_shown? (r : Registry) (id : SilenceId) :
    (r.shown? id).isSome = (r.records[id]?).isSome := Option.isSome_map

/-- A call that names its id has the same answer wherever there is a record under it or not as
before. -/
theorem exists_answers_of_edited {now : Instant} {a b : Registry} {log : Log} {call : Call}
    {id : SilenceId} (h : a.Answers now b log call) (he : call.edited? = some id) (r : Registry)
    (hsame : (r.records[id]?).isSome = (a.records[id]?).isSome) (now' : Instant) :
    ∃ r' log', r.Answers now' r' log' call := by
  cases call with
  | add s answer =>
    obtain rfl : (a.add now s).answer = answer := congrArg Outcome.answer h
    have hset : s.id ≠ .unset := by
      intro hunset
      cases ha : (a.add now s).answer <;> simp [ha, Call.edited?, hunset] at he
    refine ⟨(r.add now' s).registry, (r.add now' s).log, ?_⟩
    rw [(add_of_set now hset a).1, ← (add_of_set now' hset r).1]
    rfl
  | update s answer =>
    obtain rfl : (a.update now s).answer = answer := congrArg Outcome.answer h
    obtain rfl : s.id = id := by
      cases ha : (a.update now s).answer with
      | error e => simp [ha, Call.edited?] at he
      | ok done => simpa [ha, Call.edited?] using he
    refine ⟨(r.update now' s).registry, (r.update now' s).log, ?_⟩
    rw [answer_update, ← hsame, ← answer_update now' s r]
    rfl
  | delete target answer =>
    obtain rfl : (a.delete target).answer = answer := congrArg Outcome.answer h
    obtain rfl : target = id := by
      cases ha : (a.delete target).answer with
      | error e => simp [ha, Call.edited?] at he
      | ok done => simpa [ha, Call.edited?] using he
    refine ⟨(r.delete target).registry, (r.delete target).log, ?_⟩
    rw [answer_delete, ← hsame, ← answer_delete target r]
    rfl
  | _ => cases he

/-- Two calls that name different ids can be made in the other order, at any times, with the same
answers; the silences, the highest id and the live actions are the same after them. -/
theorem exists_answers_swapped {r a b : Registry} (hc : r.Coupled) {c d : Call}
    {k l : SilenceId} (hk : c.edited? = some k) (hl : d.edited? = some l) (hne : k ≠ l)
    {now₁ now₂ : Instant} {log₁ log₂ : Log} (first : r.Answers now₁ a log₁ c)
    (second : a.Answers now₂ b log₂ d) (now₃ now₄ : Instant) :
    ∃ (a' b' : Registry) (log₃ log₄ : Log), r.Answers now₃ a' log₃ d ∧
      a'.Answers now₄ b' log₄ c ∧ b'.ledger = b.ledger ∧ b'.liveActions.Perm b.liveActions := by
  have ha : a.Coupled := hc.effect (effect_of_answers first)
  have hb : b.Coupled := ha.effect (effect_of_answers second)
  have hsame : (r.records[l]?).isSome = (a.records[l]?).isSome := by
    rw [← isSome_shown?, ← isSome_shown?, shown?_of_answers hc first hk, if_neg hne]
  obtain ⟨a', log₃, first'⟩ := exists_answers_of_edited second hl r hsame now₃
  have ha' : a'.Coupled := hc.effect (effect_of_answers first')
  have hsame' : (a'.records[k]?).isSome = (r.records[k]?).isSome := by
    rw [← isSome_shown?, ← isSome_shown?, shown?_of_answers hc first' hl, if_neg hne.symm]
  obtain ⟨b', log₄, second'⟩ := exists_answers_of_edited first hk a' hsame' now₄
  have hb' : b'.Coupled := ha'.effect (effect_of_answers second')
  have hshown (id : SilenceId) : b'.shown? id = b.shown? id := by
    rw [shown?_of_answers ha' second' hk, shown?_of_answers hc first' hl,
      shown?_of_answers ha second hl, shown?_of_answers hc first hk]
    split_ifs with hid hid'
    · exact absurd (hid.trans hid'.symm) hne
    all_goals rfl
  refine ⟨a', b', log₃, log₄, first', second', ledger_eq (fun id => ?_) ?_,
    liveActions_perm hb' hb hshown⟩
  · have hsilence (q : Registry) : (q.records[id]?).map Stored.silence =
        (q.shown? id).map Prod.fst := by
      rw [shown?, Option.map_map]
      rfl
    rw [getElem?_ledger, hsilence, hsilence, hshown]
  · rw [lastId_of_answers 0 second', lastId_of_answers 0 first']
    change _ = b.lastId.value.toNat
    rw [lastId_of_answers 0 second, lastId_of_answers 0 first, Nat.max_left_comm]

end Registry

/-- Additions, updates and deletions that succeed, and removals at the end whatever action they are
called with, change nothing that belongs to another id; nor does the queueing of an action, apart
from stopped ones. And of two calls that each name another id either may come first. -/
theorem operations_keep_to_their_id {history : History} {r : Registry} (run : Run history r) :
    (∀ (now : Instant) (s : Silence) (id : SilenceId) (r' : Registry) (log : Log),
      r.add now s = ⟨.ok id, r', log⟩ → r.ChangesOnly id r') ∧
    (∀ (now : Instant) (s : Silence) (r' : Registry) (log : Log),
      r.update now s = ⟨.ok (), r', log⟩ → r.ChangesOnly s.id r') ∧
    (∀ (id : SilenceId) (r' : Registry) (log : Log),
      r.delete id = ⟨.ok (), r', log⟩ → r.ChangesOnly id r') ∧
    (∀ (id : SilenceId) (handle : Handle), r.ChangesOnly id (r.expire id handle).1) ∧
    (∀ (now : Instant) (r' : Registry) (log : Log), r.step? now = some (r', log) →
      (∀ (asOf : Int) (turn : Turn) (task : Task),
        r.scheduler.phase = .delivering asOf turn task → r.ChangesOnly task.id r') ∧
      ∀ (due : Int) (task : Task),
        r.scheduler.phase = .received (.arm due task) → r.QueuesOnly task.id r') ∧
    ∀ (c d : Call) (k l : SilenceId) (now₁ now₂ : Instant) (a b : Registry) (log₁ log₂ : Log),
      c.edited? = some k → d.edited? = some l → k ≠ l → r.Answers now₁ a log₁ c →
      a.Answers now₂ b log₂ d → ∀ now₃ now₄ : Instant,
      ∃ (a' b' : Registry) (log₃ log₄ : Log), r.Answers now₃ a' log₃ d ∧
        a'.Answers now₄ b' log₄ c ∧ b'.ledger = b.ledger ∧
        b'.liveActions.Perm b.liveActions := by
  have hc := run.coupled
  have ho := run.owned
  refine ⟨fun _ _ _ _ _ => Registry.changesOnly_add hc,
    fun _ _ _ _ => Registry.changesOnly_update hc, fun _ _ _ => Registry.changesOnly_delete hc,
    Registry.changesOnly_expire hc, fun now r' log hstep => ⟨?_, ?_⟩, ?_⟩
  · intro asOf turn task hp
    exact Registry.changesOnly_of_step? hc ho hp hstep
  · intro due task hp
    exact Registry.queuesOnly_of_step? hc ho hp hstep
  · intro c d k l now₁ now₂ a b log₁ log₂ hk hl hne first second
    exact Registry.exists_answers_swapped hc hk hl hne first second

/-- Two silences are stored. One is updated and a third is added under an id beyond the counter,
or the other way round. -/
theorem operations_keep_to_their_id_among_three_silences :
    let x : Silence := .new default "ops" default
    ∃ (history : History) (r a b a' b' : Registry) (log₁ log₂ log₃ log₄ : Log), Run history r ∧
      r.records.keys = [⟨1⟩, ⟨2⟩] ∧ r.ChangesOnly ⟨1⟩ a ∧
      r.Answers default a log₁ (.update (x.withId ⟨1⟩) (.ok ())) ∧
      a.Answers default b log₂ (.add (x.withId ⟨7⟩) (.ok ⟨7⟩)) ∧
      r.Answers default a' log₃ (.add (x.withId ⟨7⟩) (.ok ⟨7⟩)) ∧
      a'.Answers default b' log₄ (.update (x.withId ⟨1⟩) (.ok ())) ∧
      b.lastId = ⟨7⟩ ∧ b.liveActions.length = 3 ∧ b.pending.length = 4 ∧
      b'.ledger = b.ledger ∧ b'.liveActions.Perm b.liveActions := by
  intro x
  obtain ⟨history, r, run, hkeys, hupdated, hafter⟩ : ∃ history r, Run history r ∧
      r.records.keys = [⟨1⟩, ⟨2⟩] ∧ (r.update default (x.withId ⟨1⟩)).answer = .ok () ∧
      let b := ((r.update default (x.withId ⟨1⟩)).registry.add default (x.withId ⟨7⟩)).registry
      b.lastId = ⟨7⟩ ∧ b.liveActions.length = 3 ∧ b.pending.length = 4 :=
    ⟨_, _, (Run.nil.add 0 default x).add 1 default x, by decide +kernel⟩
  obtain ⟨hlast, hlive, hpending⟩ := hafter
  have first := r.answers_update default (x.withId ⟨1⟩)
  rw [hupdated] at first
  generalize (r.update default (x.withId ⟨1⟩)).registry = a at *
  have hadded : (a.add default (x.withId ⟨7⟩)).answer = .ok ⟨7⟩ :=
    (Registry.add_of_set default (by decide) a).1
  have second := a.answers_add default (x.withId ⟨7⟩)
  rw [hadded] at second
  obtain ⟨-, hupdate, -, -, -, hswap⟩ := operations_keep_to_their_id run
  obtain ⟨a', b', log₃, log₄, first', second', hledger, hperm⟩ :=
    hswap _ _ ⟨1⟩ ⟨7⟩ _ _ a _ _ _ rfl rfl (by decide) first second default default
  exact ⟨history, r, a, _, a', b', _, _, log₃, log₄, run, hkeys, hupdate _ _ _ _ first, first,
    second, first', second', hlast, hlive, hpending, hledger, hperm⟩

end AlertSilences
