import AlertSilences.Proofs.CatchUp

/-! A close freezes what is stored. No action of a record is armed after it, a stopped action is
never armed again, and the worker removes nothing but by an armed one. So what was stored stays
until a client writes under its id or takes it away. A write arms an action that was not there
before, and its number is that of the write; it can remove what was written and nothing else. -/

namespace AlertSilences

/-- Whether a client takes away what is stored under an id. -/
def Call.drops (id : SilenceId) : Call → Bool
  | .delete other _ => other = id
  | .clear _ => true
  | _ => false

def Move.drops (id : SilenceId) : Move → Bool
  | .call _ c => c.drops id
  | .work => false

/-- Nothing is written under an id. -/
def History.Spares (id : SilenceId) (history : History) : Prop :=
  ∀ m ∈ history, ∀ s, m.move.written? = some s → s.id ≠ id

namespace Registry

/-- Stops actions one after another and counts those that it has disarmed. -/
def stopEach : List Handle → Registry → Nat × Registry
  | [], r => (0, r)
  | h :: rest, r =>
    let (disarmed, scheduler) := r.scheduler.stop h
    let (count, r) := stopEach rest { r with scheduler }
    (if disarmed then count + 1 else count, r)

/-- If no two handles name one action, all that were armed before are disarmed on the way. -/
theorem stopEach_eq {hs : List Handle} (hn : (hs.map Handle.index).Nodup) (r : Registry) :
    stopEach hs r = (hs.countP r.isArmed, r.stopAll hs) := by
  induction hs generalizing r with
  | nil => rfl
  | cons h rest ih =>
    rw [List.map_cons, List.nodup_cons] at hn
    have hrest : rest.countP (r.stopAction h).isArmed = rest.countP r.isArmed := by
      refine List.countP_congr fun g hg => ?_
      rw [isArmed_stopAction]
      refine and_iff_left ?_
      rintro heq
      exact hn.1 (heq ▸ List.mem_map_of_mem hg)
    have hstep : stopEach (h :: rest) r =
        (if r.isArmed h then (stopEach rest (r.stopAction h)).1 + 1
          else (stopEach rest (r.stopAction h)).1, (stopEach rest (r.stopAction h)).2) := rfl
    rw [hstep, ih hn.2, hrest, stopAll_cons, List.countP_cons]
    split_ifs <;> rfl

theorem stopAction_comm (r : Registry) (g h : Handle) :
    (r.stopAction g).stopAction h = (r.stopAction h).stopAction g := by
  have : (r.scheduler.actions.stopped.insert g.index).insert h.index =
      (r.scheduler.actions.stopped.insert h.index).insert g.index := by
    ext i
    simp only [Std.ExtTreeSet.mem_insert]
    exact or_left_comm
  simp only [stopAction, Scheduler.stop, Actions.stop, Actions.disarm, this]

/-- Actions may be stopped in any order. -/
theorem stopAll_perm {hs hs' : List Handle} (h : hs.Perm hs') (r : Registry) :
    r.stopAll hs = r.stopAll hs' :=
  h.foldl_eq' (fun g _ h _ r => stopAction_comm r g h) r

theorem stopAll_of_stopped {r : Registry} {hs : List Handle}
    (h : ∀ g ∈ hs, r.isArmed g = false) : r.stopAll hs = r := by
  induction hs with
  | nil => rfl
  | cons g hs ih =>
    obtain ⟨hg, hs'⟩ := List.forall_mem_cons.1 h
    have hstop : r.stopAction g = r := by
      simp only [stopAction, Scheduler.stop, Actions.stop, Actions.disarm_of_isArmed_eq_false hg]
    rw [stopAll_cons, hstop]
    exact ih hs'

theorem handles_eq_tasks (r : Registry) : r.handles = r.tasks.map Task.handle := by
  rw [handles, tasks, OrderedMap.values_eq_map_snd, List.map_map, List.map_map]
  rfl

theorem Coupled.nodup_handles {r : Registry} (h : r.Coupled) :
    (r.handles.map Handle.index).Nodup := by
  rw [handles_eq_tasks, List.map_map]
  refine List.Nodup.map_on (fun a ha b hb heq => ?_) (nodup_tasks r)
  obtain ⟨stored, hr, hh⟩ := mem_tasks.1 ha
  obtain ⟨stored', hr', hh'⟩ := mem_tasks.1 hb
  obtain ⟨id, handle⟩ := a
  obtain ⟨id', handle'⟩ := b
  dsimp only [Function.comp_apply] at hr hr' hh hh' heq
  obtain rfl := h.stored_unique id id' stored stored' hr hr' (by rw [hh, hh', heq])
  obtain rfl := Option.some.inj (hr.symm.trans hr')
  rw [← hh, ← hh']

/-- What a close keeps, what it tells, and that another one has nothing left to do. -/
structure Closes (r closed : Registry) (log : Log) : Prop where
  records : closed.records = r.records
  lastId : closed.lastId = r.lastId
  log_eq : log = [.closed (r.tasks.countP fun t => r.isArmed t.handle) r.size]
  each : ∀ handles : List Handle, handles.Perm r.handles →
    stopEach handles r = (r.tasks.countP fun t => r.isArmed t.handle, closed)
  stopped : ∀ (id : SilenceId) (stored : Stored), r.records[id]? = some stored →
    closed.isArmed stored.handle = false
  again : closed.close = ⟨.ok (), closed, [.closed 0 r.size]⟩

theorem closes_close {r : Registry} (hc : r.Coupled) :
    r.Closes r.close.registry r.close.log := by
  obtain ⟨stopped, he⟩ := stopAll_eq r r.handles
  have hrecords : (r.stopAll r.handles).records = r.records := by rw [he]
  have hlastId : (r.stopAll r.handles).lastId = r.lastId := by rw [he]
  have hcount : r.handles.countP r.isArmed = r.tasks.countP fun t => r.isArmed t.handle := by
    rw [handles_eq_tasks, List.countP_map]
    rfl
  have hstop : ∀ (id : SilenceId) (stored : Stored), r.records[id]? = some stored →
      (r.stopAll r.handles).isArmed stored.handle = false := by
    intro id stored hr
    rw [Bool.eq_false_iff]
    exact fun harm => ((isArmed_close r _).1 harm).2 id stored hr rfl
  refine ⟨hrecords, hlastId, ?_, fun handles hperm => ?_, hstop, ?_⟩
  · rw [← hcount]
    rfl
  · have hn := (hperm.map Handle.index).nodup_iff.2 hc.nodup_handles
    rw [stopEach_eq hn, hperm.countP_eq, hcount, stopAll_perm hperm]
    rfl
  · change (r.stopAll r.handles).close = _
    generalize hq : r.stopAll r.handles = q at hrecords hstop
    have hhandles : ∀ g ∈ q.handles, q.isArmed g = false := by
      intro g hg
      obtain ⟨id, stored, hr, rfl⟩ := mem_handles.1 hg
      exact hstop id stored (hrecords ▸ hr)
    have hnone : q.handles.countP q.isArmed = 0 := by
      rw [List.countP_eq_zero]
      exact fun g hg => by rw [hhandles g hg]; exact Bool.false_ne_true
    have hlog : q.close = ⟨.ok (), q.stopAll q.handles,
        [.closed (q.handles.countP q.isArmed) q.size]⟩ := rfl
    rw [hlog, stopAll_of_stopped hhandles, hnone, size, hrecords]
    rw [← hq]
    rfl

/-- A stopped action stays stopped. -/
theorem Effect.isArmed_imp {now : Instant} {r r' : Registry} {call : Call}
    (h : r.Effect now call r') (hl : r.scheduler.phase.listens = true) {g : Handle}
    (hg : r'.isArmed g = true) : r.isArmed g = true := by
  cases h with
  | none => exact hg
  | @put s _ lastId =>
    have hl' : { r with lastId }.scheduler.phase.listens = true := hl
    rw [isArmed_put hl', isArmed_removeRecord] at hg
    exact hg.1
  | remove _ _ id => exact ((isArmed_removeRecord r id g).1 hg).1
  | close => exact ((isArmed_close r g).1 hg).1
  | clear => exact ((isArmed_close r g).1 hg).1

theorem Work.isArmed_imp {now : Instant} {r r' : Registry} {log : Log} (h : r.Work now r' log)
    {g : Handle} (hg : r'.isArmed g = true) : r.isArmed g = true := by
  cases h with
  | advance ha =>
    rw [isArmed, Scheduler.isArmed, ha.actions_eq] at hg
    exact hg
  | @expire _ _ task => exact ((isArmed_removeRecord r task.id g).1 hg).1
  | pass => exact hg

theorem Step.isArmed_imp {r r' : Registry} {m : Moment} (h : r.Step r' m) (hc : r.Coupled)
    {g : Handle} (hg : r'.isArmed g = true) : r.isArmed g = true := by
  rcases answers_or_work_of_step h with ⟨client, call, -, ha⟩ | ⟨-, hw⟩
  · exact (effect_of_answers ha).isArmed_imp (Phase.listens_of_working hc.sound.working) hg
  · exact hw.isArmed_imp hg

/-- A call that writes nothing under an id leaves what is there, unless it takes it away. -/
theorem getElem?_of_answers {now : Instant} {r r' : Registry} {log : Log} {call : Call}
    {id : SilenceId} (h : r.Answers now r' log call)
    (hw : ∀ s, call.written? = some s → s.id ≠ id) :
    r'.records[id]? = if call.drops id then none else r.records[id]? := by
  cases call with
  | add s answer =>
    have hregistry := registry_add now s r
    have hanswer := answer_add now s r
    rw [show r.add now s = _ from h] at hregistry hanswer
    subst hregistry hanswer
    cases ha : r.assignId s with
    | error e => rfl
    | ok assigned =>
      rw [ha] at hw
      have hne := hw { s with id := assigned.1 } rfl
      change (put now { s with id := assigned.1 } _).records[id]? = r.records[id]?
      rw [records_put, OrderedMap.getElem?_insert, if_neg hne]
  | update s answer =>
    have hregistry := registry_update now s r
    have hanswer := answer_update now s r
    rw [show r.update now s = _ from h] at hregistry hanswer
    subst hregistry hanswer
    cases hthere : (r.records[s.id]?).isSome with
    | false => rfl
    | true =>
      rw [hthere] at hw
      change (put now s r).records[id]? = r.records[id]?
      rw [records_put, OrderedMap.getElem?_insert, if_neg (hw s rfl)]
  | delete other answer =>
    have hregistry := registry_delete other r
    rw [show r.delete other = _ from h] at hregistry
    subst hregistry
    rw [records_removeRecord, OrderedMap.getElem?_erase]
    simp only [Call.drops, decide_eq_true_eq]
  | close =>
    obtain rfl : r.stopAll r.handles = r' := congrArg Outcome.registry h
    obtain ⟨stopped, he⟩ := stopAll_eq r r.handles
    rw [he]
    rfl
  | clear answer =>
    obtain rfl : { r.stopAll r.handles with records := ∅ } = r' := congrArg Outcome.registry h
    simp [Call.drops]
  | _ =>
    obtain ⟨-, rfl, -⟩ := h
    rfl

/-- The worker leaves a record alone whose action is stopped. -/
theorem getElem?_of_work {now : Instant} {r r' : Registry} {log : Log} (h : r.Work now r' log)
    {id : SilenceId} (hs : ∀ stored, r.records[id]? = some stored →
      r.isArmed stored.handle = false) : r'.records[id]? = r.records[id]? := by
  cases h with
  | advance => rfl
  | pass => rfl
  | @expire _ _ task hp hc =>
    change (r.removeRecord task.id).records[id]? = r.records[id]?
    rw [records_removeRecord, OrderedMap.getElem?_erase]
    split_ifs with hid
    · obtain ⟨stored, hr, hsame, harm⟩ := hc
      have hstop := hs stored (hid ▸ hr)
      rw [show r.isArmed stored.handle = r.isArmed task.handle from
        Actions.isArmed_of_same hsame _, harm] at hstop
      cases hstop
    · rfl

theorem getElem?_of_step {r r' : Registry} {m : Moment} (h : r.Step r' m) {id : SilenceId}
    (hw : ∀ s, m.move.written? = some s → s.id ≠ id)
    (hs : ∀ stored, r.records[id]? = some stored → r.isArmed stored.handle = false) :
    r'.records[id]? = if m.move.drops id then none else r.records[id]? := by
  rcases answers_or_work_of_step h with ⟨client, call, hm, ha⟩ | ⟨hm, hwork⟩
  · rw [hm] at hw ⊢
    exact getElem?_of_answers ha hw
  · rw [hm]
    exact getElem?_of_work hwork hs

end Registry

/-- What was stored at a close stays, until a client takes it away or writes under its id, and its
action stays stopped. -/
theorem Run.frozen {history later : History} {r q : Registry} {m : Moment} {client : Nat}
    (run : Run history r) (closing : m.move = .call client .close)
    (run' : Run (later ++ m :: history) q) {id : SilenceId} {stored : Stored}
    (hr : r.records[id]? = some stored) (hw : later.Spares id) :
    q.records[id]? = (if later.any (·.move.drops id) then none else some stored) ∧
      q.isArmed stored.handle = false := by
  induction later generalizing q with
  | nil =>
    obtain _ | ⟨before, step⟩ := run'
    obtain rfl := run.unique before
    have hclose : q = r.close.registry := by
      rw [Registry.Step, closing] at step
      exact (congrArg Outcome.registry step).symm
    obtain ⟨hrecords, -, -, -, hstop, -⟩ := Registry.closes_close run.coupled
    rw [hclose]
    exact ⟨(congrArg (·[id]?) hrecords).trans hr, hstop id stored hr⟩
  | cons latest later ih =>
    obtain _ | ⟨before, step⟩ := run'
    obtain ⟨hlatest, hw⟩ := List.forall_mem_cons.1 hw
    obtain ⟨hrecord, hstop⟩ := ih before hw
    refine ⟨?_, ?_⟩
    · rw [Registry.getElem?_of_step step hlatest, hrecord, List.any_cons]
      · cases latest.move.drops id <;> cases later.any (·.move.drops id) <;> rfl
      · intro other ho
        rw [hrecord] at ho
        split_ifs at ho
        obtain rfl := Option.some.inj ho
        exact hstop
    · rw [Bool.eq_false_iff] at hstop ⊢
      exact fun hg => hstop (Registry.Step.isArmed_imp step before.coupled hg)

namespace History

/-- A version has the number of an earlier write. -/
theorem number_lt_writes {history : History} {id : SilenceId} {version : Version}
    (h : history.latest? id = some version) : version.number < history.writes := by
  induction history generalizing version with
  | nil => cases h
  | cons m past ih =>
    have hbefore (h : (latest? id past).map
        (fun v => { v with closed := v.closed || m.move.closes }) = some version) :
        version.number < writes past := by
      obtain ⟨v, hv, rfl⟩ := Option.map_eq_some_iff.1 h
      exact @ih v hv
    rw [latest?] at h
    cases hw : m.move.written? with
    | none =>
      rw [writes_of_not_written hw]
      simp only [hw] at h
      exact hbefore h
    | some s =>
      rw [writes_of_written hw]
      simp only [hw] at h
      split_ifs at h
      · obtain rfl := Option.some.inj h
        exact Nat.lt_succ_self _
      · exact Nat.lt_succ_of_lt (hbefore h)

theorem writes_le_append (later past : History) : past.writes ≤ History.writes (later ++ past) := by
  rw [writes, writes, List.countP_append]
  exact Nat.le_add_left _ _

/-- The number of a version tells which write it was. -/
theorem silence_of_number_eq {later past : History} {m : Moment} {s : Silence}
    (hm : m.move.written? = some s) {id : SilenceId} {version : Version}
    (h : latest? id (later ++ m :: past) = some version) (hn : version.number = past.writes) :
    version.silence = s := by
  induction later generalizing version with
  | nil =>
    have hbefore (h : (latest? id past).map
        (fun v => { v with closed := v.closed || m.move.closes }) = some version) :
        version.number < past.writes := by
      obtain ⟨v, hv, rfl⟩ := Option.map_eq_some_iff.1 h
      exact @number_lt_writes past id v hv
    simp only [List.nil_append, latest?, hm] at h
    split_ifs at h
    · obtain rfl := Option.some.inj h
      rfl
    · exact absurd hn (Nat.ne_of_lt (hbefore h))
  | cons latest later ih =>
    have hbefore (h : (latest? id (later ++ m :: past)).map
        (fun v => { v with closed := v.closed || latest.move.closes }) = some version) :
        version.silence = s := by
      obtain ⟨v, hv, rfl⟩ := Option.map_eq_some_iff.1 h
      exact @ih v hv hn
    have hlater : past.writes < writes (later ++ m :: past) :=
      Nat.lt_of_lt_of_le (by rw [writes_of_written hm]; exact Nat.lt_succ_self _)
        (writes_le_append later (m :: past))
    rw [List.cons_append, latest?] at h
    split at h
    · split_ifs at h
      · obtain rfl := Option.some.inj h
        exact absurd hn (Nat.ne_of_gt hlater)
      · exact hbefore h
    · exact hbefore h

end History

namespace Registry

theorem records_of_written {r r' : Registry} {m : Moment} {s : Silence} (h : r.Step r' m)
    (hw : m.move.written? = some s) :
    r'.records = r.records.insert s.id ⟨s, r.nextHandle s.endsAt⟩ := by
  rcases answers_or_work_of_step h with ⟨client, call, hm, ha⟩ | ⟨hm, -⟩
  · rw [hm] at hw
    have hw : call.written? = some s := hw
    cases effect_of_answers ha with
    | none hnone => cases hw.symm.trans hnone
    | remove hnone => cases hw.symm.trans hnone
    | clear hnone => cases hw.symm.trans hnone
    | close hclose =>
      rw [hclose] at hw
      cases hw
    | put hput lastId =>
      obtain rfl := Option.some.inj (hw.symm.trans hput)
      rw [records_put]
      rfl
  · rw [hm] at hw
    cases hw

/-- A write has stored a silence together with an action that was not there before; it is armed and
on its way to the worker. -/
structure Arms (s : Silence) (handle : Handle) (before after : Registry) : Prop where
  stored : after.records[s.id]? = some ⟨s, handle⟩
  endsAt : handle.endsAt = s.endsAt
  fresh : before.scheduler.actions.issued ≤ handle.index
  armed : after.isArmed handle = true
  pending : ∃ p ∈ after.pending, p.task = ⟨s.id, handle⟩

theorem arms_of_step {history : History} {r r' : Registry} {m : Moment} {s : Silence}
    (run : Run history r) (step : r.Step r' m) (hm : m.move.written? = some s) :
    r.Arms s ⟨history.writes, s.endsAt⟩ r' := by
  have hissued := run.versioned.issued
  have run' := run.snoc step
  have hstored : r'.records[s.id]? = some ⟨s, ⟨history.writes, s.endsAt⟩⟩ := by
    rw [records_of_written step hm, OrderedMap.getElem?_insert, if_pos rfl, ← hissued]
    rfl
  have harm : r'.isArmed ⟨history.writes, s.endsAt⟩ = true := by
    have hlatest := run'.versioned.latest s.id _ hstored
    have hwritten : History.latest? s.id (m :: history) = some ⟨s, history.writes, false⟩ := by
      simp only [History.latest?, hm, if_true]
    rw [hwritten] at hlatest
    simpa using congrArg Version.closed (Option.some.inj hlatest)
  exact ⟨hstored, rfl, Nat.le_of_eq hissued, harm,
    run'.coupled.stored_pending s.id _ hstored harm⟩

end Registry

/-- The action of a write removes what was written, or nothing. -/
theorem Run.removed_by_write {later past : History} {q q' : Registry} {m : Moment} {s : Silence}
    (run : Run (later ++ m :: past) q) (hm : m.move.written? = some s) {now : Instant}
    {log : Log} (step : q.step? now = some (q', log)) {asOf : Int} {turn : Turn} {task : Task}
    (hp : q.scheduler.phase = .delivering asOf turn task)
    (hs : task.handle.same ⟨past.writes, s.endsAt⟩ = true) :
    q'.records = q.records ∨ q.records[s.id]? = some ⟨s, ⟨past.writes, s.endsAt⟩⟩ ∧
      q'.records = q.records.erase s.id := by
  have hindex : task.handle.index = past.writes := Handle.same_iff.1 hs
  cases Registry.work_of_step? step with
  | advance => exact Or.inl rfl
  | pass => exact Or.inl rfl
  | expire hp' hc =>
    obtain ⟨rfl, rfl, rfl⟩ := Phase.delivering.inj (hp.symm.trans hp')
    obtain ⟨⟨silence, handle⟩, hr, hh, -⟩ := run.coupled.stored_of_isCurrent hp hc
    have hlatest := run.versioned.latest task.id _ hr
    have hends := run.coupled.stored_endsAt task.id _ hr
    dsimp only at hh hlatest hends
    obtain rfl := History.silence_of_number_eq hm hlatest (hh ▸ hindex)
    have hid := History.id_of_latest? hlatest
    dsimp only at hid
    have hhandle : handle = ⟨past.writes, silence.endsAt⟩ := by
      rw [← hindex, ← hends, hh]
    rw [hhandle, ← hid] at hr
    refine Or.inr ⟨hr, ?_⟩
    change (q.removeRecord task.id).records = q.records.erase silence.id
    rw [Registry.records_removeRecord, hid]

/-- A record whose action is armed is gone once the worker has caught up after its end. -/
theorem Run.settled_removes {history : History} {r : Registry} (run : Run history r)
    {now : Instant} (clock : history.UpTo now) {id : SilenceId} {stored : Stored}
    (hr : r.records[id]? = some stored) (harm : r.isArmed stored.handle = true)
    (hle : stored.silence.endsAt ≤ now) : (r.settled now).1.records[id]? = none := by
  obtain ⟨work, hwork, run', hcaught⟩ := run.settled now
  have clock' : History.UpTo now (work ++ history) :=
    List.forall_mem_append.2 ⟨fun m hm => (hwork m hm).1 ▸ Instant.le_refl _, clock⟩
  have hswept := run.swept (fun m hm => (hwork m hm).2) clock' run'
  rw [hswept.records_eq run'.coupled (run'.timed clock') hcaught,
    Std.ExtTreeMap.getElem?_filter', hr]
  simp [harm, hle, Option.filter_some]

namespace Registry

/-- Deleting and clearing take away what is stored, stop its actions and tell what was there. -/
structure Disposes (r : Registry) : Prop where
  delete_answer : ∀ id : SilenceId, (r.delete id).answer =
    if (r.records[id]?).isSome then .ok () else .error (.notFound id)
  delete_records : ∀ id : SilenceId, (r.delete id).registry.records = r.records.erase id
  delete_stops : ∀ (id : SilenceId) (stored : Stored), r.records[id]? = some stored →
    (r.delete id).registry.isArmed stored.handle = false
  delete_lastId : ∀ id : SilenceId, (r.delete id).registry.lastId = r.lastId
  clear_answer : r.clear.answer = .ok r.size
  clear_records : r.clear.registry.records = ∅
  clear_stops : ∀ (id : SilenceId) (stored : Stored), r.records[id]? = some stored →
    r.clear.registry.isArmed stored.handle = false
  clear_lastId : r.clear.registry.lastId = r.lastId

theorem disposes (r : Registry) : r.Disposes where
  delete_answer id := answer_delete id r
  delete_records id := by rw [registry_delete, records_removeRecord]
  delete_stops id stored hr := by
    rw [registry_delete, Bool.eq_false_iff, ne_eq, isArmed_removeRecord]
    exact fun h => h.2 stored hr rfl
  delete_lastId id := by rw [registry_delete, lastId_removeRecord]
  clear_answer := rfl
  clear_records := rfl
  clear_stops id stored hr := by
    rw [Bool.eq_false_iff]
    exact fun h => ((isArmed_close r _).1 h).2 id stored hr rfl
  clear_lastId := by
    obtain ⟨stopped, he⟩ := stopAll_eq r r.handles
    change (r.stopAll r.handles).lastId = r.lastId
    rw [he]

end Registry

/-- A close keeps records and highest id, tells how many actions it has disarmed and leaves nothing
for another one. What is stored then never goes by itself, as long as nothing is written under its
id. A later write arms an action that was not there before; that removes what was written once the
worker has caught up after its end, and it never removes anything else. Deleting and clearing work
as ever. -/
theorem close_freezes_records {history later : History} {r q : Registry} {m : Moment}
    {client : Nat} (run : Run history r) (closing : m.move = .call client .close)
    (run' : Run (later ++ m :: history) q) :
    r.Closes r.close.registry r.close.log ∧
    (∀ (id : SilenceId) (stored : Stored), r.records[id]? = some stored → later.Spares id →
      q.records[id]? = (if later.any (·.move.drops id) then none else some stored) ∧
      ∀ (now : Instant) (q' : Registry) (log : Log), q.step? now = some (q', log) →
        q'.records[id]? = q.records[id]?) ∧
    (∀ (after before : History) (w : Moment) (s : Silence) (p p' : Registry),
      later = after ++ w :: before → w.move.written? = some s →
      Run (before ++ m :: history) p → p.Step p' w →
      ∃ handle : Handle, p.Arms s handle p' ∧
        (∀ now : Instant, History.UpTo now (w :: (before ++ m :: history)) → s.endsAt ≤ now →
          (p'.settled now).1.records[s.id]? = none) ∧
        ∀ (now : Instant) (q' : Registry) (log : Log) (asOf : Int) (turn : Turn) (task : Task),
          q.step? now = some (q', log) → q.scheduler.phase = .delivering asOf turn task →
          task.handle.same handle = true →
          q'.records = q.records ∨ q.records[s.id]? = some ⟨s, handle⟩ ∧
            q'.records = q.records.erase s.id) ∧
    q.Disposes := by
  refine ⟨Registry.closes_close run.coupled, fun id stored hr hw => ?_, ?_, q.disposes⟩
  · obtain ⟨hrecord, hstop⟩ := run.frozen closing run' hr hw
    refine ⟨hrecord, fun now q' log step => ?_⟩
    refine Registry.getElem?_of_work (Registry.work_of_step? step) fun other ho => ?_
    rw [hrecord] at ho
    split_ifs at ho
    obtain rfl := Option.some.inj ho
    exact hstop
  · rintro after before w s p p' rfl hw runp step
    have harms := Registry.arms_of_step runp step hw
    refine ⟨_, harms, fun now clock hle => ?_, fun now q' log asOf turn task hstep hp hs => ?_⟩
    · exact (runp.snoc step).settled_removes clock harms.stored harms.armed hle
    · rw [List.append_assoc] at run'
      exact run'.removed_by_write hw hstep hp hs

/-- Of two silences that are past their end the worker has one in hand as the registry is closed.
The other is updated and goes; the first stays. -/
theorem close_freezes_records_but_one_updated :
    ∃ (history later : History) (m : Moment) (r q : Registry), Run history r ∧
      m.move = .call 1 .close ∧ Run (later ++ m :: history) q ∧
      (∃ asOf turn task, r.scheduler.phase = .delivering asOf turn task ∧ task.id = ⟨1⟩) ∧
      r.close.log = [.closed 2 2] ∧ r.Closes r.close.registry r.close.log ∧
      q.records[(⟨2⟩ : SilenceId)]? = none ∧
      ∃ stored, r.records[(⟨1⟩ : SilenceId)]? = some stored ∧
        stored.silence.endsAt ≤ default ∧ q.records[(⟨1⟩ : SilenceId)]? = some stored := by
  let x : Silence := .new default "ops" default
  obtain ⟨_, -, run⟩ := ((Run.nil.add 0 default x).add 0 default x).settle default 4
  obtain ⟨work, hwork, run'⟩ :=
    ((run.close 1 default).update 0 default (x.withId ⟨2⟩)).settle default 20
  generalize hq : (settle _ 20 _).1 = q at run'
  generalize hr : (settle _ 4 _).1 = r at run run' hq
  have hfacts : r.close.log = [.closed 2 2] ∧ q.records[(⟨2⟩ : SilenceId)]? = none ∧
      r.scheduler.phase = .delivering 0 ⟨0, 0⟩ ⟨⟨1⟩, ⟨0, default⟩⟩ ∧
      r.records[(⟨1⟩ : SilenceId)]? = some ⟨x.withId ⟨1⟩, ⟨0, default⟩⟩ ∧
      (r.close.registry.update default (x.withId ⟨2⟩)).answer = .ok () := by
    rw [← hq, ← hr]
    refine ⟨?_, ?_, ?_, ?_, ?_⟩ <;> cbv
  obtain ⟨hlog, hgone, hphase, hstored, hanswer⟩ := hfacts
  rw [hanswer, List.append_cons] at run'
  generalize (r.close.registry.update default (x.withId ⟨2⟩)).log = log at run'
  set update : Moment := ⟨default, .call 0 (.update (x.withId ⟨2⟩) (.ok ())), log⟩
  have hmoves : ∀ m ∈ work, m.move = .work := fun m hm => (hwork m hm).2
  have hspares : History.Spares ⟨1⟩ (work ++ [update]) := by
    intro m hm s hs
    rcases List.mem_append.1 hm with hm | hm
    · rw [hmoves m hm] at hs
      cases hs
    · rw [List.mem_singleton.1 hm] at hs
      cases hs
      decide
  have hstays : (work ++ [update]).any (·.move.drops ⟨1⟩) = false := by
    have hnone : work.any (·.move.drops ⟨1⟩) = false := by
      rw [List.any_eq_false]
      intro m hm
      rw [hmoves m hm]
      exact Bool.false_ne_true
    rw [List.any_append, hnone]
    rfl
  obtain ⟨hcloses, hfrozen, -, -⟩ := close_freezes_records run rfl run'
  obtain ⟨hkept, -⟩ := hfrozen ⟨1⟩ _ hstored hspares
  rw [hstays] at hkept
  exact ⟨_, _, _, r, q, run, rfl, run', ⟨_, _, _, hphase, rfl⟩, hlog, hcloses, hgone, _, hstored,
    Instant.le_refl _, hkept⟩

end AlertSilences
