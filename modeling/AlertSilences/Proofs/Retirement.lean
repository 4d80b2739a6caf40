import AlertSilences.Proofs.Closing
import AlertSilences.Proofs.Expiry.Handling
import Std.Data.TreeMap.Iterator

/-! Every action is retired at most once, and the books balance. Of the actions issued so far each
is armed and belongs to a record, or there was one stop call that disarmed it: at its own end, as
its silence was replaced, deleted or cleared away, or by a close that has counted it. -/

namespace AlertSilences

inductive Cause
  | expired
  | replaced
  | deleted
  | cleared
  | closed
deriving DecidableEq

namespace Registry

/-- As a record ends, the action in hand is stopped, provided that it is the one of the record. If
that was armed the record goes, and its action is stopped once more. -/
def ending (r : Registry) (task : Task) : List (Order Cause) :=
  match r.records[task.id]? with
  | none => []
  | some stored =>
    if stored.handle.same task.handle then
      .stop .expired task.handle ::
        if r.isArmed task.handle then [.stop .expired stored.handle] else []
    else []

def orders (r : Registry) : Move → List (Order Cause)
  | .call _ (.add s (.ok id)) =>
    .issue s.endsAt :: (r.records[id]?.toList.map fun previous => .stop .replaced previous.handle)
  | .call _ (.update s (.ok ())) =>
    (r.records[s.id]?.toList.map fun previous => .stop .replaced previous.handle) ++
      [.issue s.endsAt]
  | .call _ (.delete id _) =>
    r.records[id]?.toList.map fun stored => .stop .deleted stored.handle
  | .call _ .close => r.handles.map (.stop .closed)
  | .call _ (.clear _) => r.handles.map (.stop .cleared)
  | .call _ _ => []
  | .work =>
    match r.scheduler.phase with
    | .delivering _ _ task => r.ending task
    | _ => []

/-- What a move does to the actions, the latest first. -/
def touches (r : Registry) (move : Move) : List (Touch Cause) :=
  (r.scheduler.actions.carryAll (r.orders move)).1

theorem carryAll_stops (cause : Cause) (hs : List Handle) (r : Registry) :
    (r.scheduler.actions.carryAll (hs.map (.stop cause))).2 = (r.stopAll hs).scheduler.actions ∧
      (r.scheduler.actions.carryAll (hs.map (.stop cause))).1.countP Touch.retires =
        (stopEach hs r).1 := by
  induction hs generalizing r with
  | nil => exact ⟨rfl, rfl⟩
  | cons h hs ih =>
    obtain ⟨hactions, hcount⟩ := ih (r.stopAction h)
    refine ⟨hactions, ?_⟩
    have hanswer : Touch.retires (.stopped cause h (r.scheduler.actions.stop h).1) =
        (r.scheduler.stop h).1 := rfl
    have heach : (stopEach (h :: hs) r).1 = if (r.scheduler.stop h).1 then
        (stopEach hs (r.stopAction h)).1 + 1 else (stopEach hs (r.stopAction h)).1 := by
      rfl
    rw [heach, ← hcount]
    simp only [List.map_cons, Actions.carryAll, List.countP_append, Actions.carry,
      List.countP_singleton, hanswer]
    split_ifs <;> rfl

theorem actions_store (now : Instant) (s : Silence) (r : Registry) :
    (r.store now s).1.scheduler.actions = (r.scheduler.actions.issue s.endsAt).2 := by
  simp only [store, Scheduler.arm_eq, Scheduler.send]
  split_ifs <;> rfl

theorem actions_removeRecord (r : Registry) (id : SilenceId) (cause : Cause) :
    (r.removeRecord id).scheduler.actions = (r.scheduler.actions.carryAll
      (r.records[id]?.toList.map fun stored => .stop cause stored.handle)).2 := by
  unfold removeRecord
  cases r.records[id]? <;> rfl

theorem actions_put (now : Instant) (s : Silence) (r : Registry) :
    (r.put now s).scheduler.actions = (r.scheduler.actions.carryAll
      (r.records[s.id]?.toList.map (fun stored => .stop Cause.replaced stored.handle) ++
        [.issue s.endsAt])).2 := by
  rw [put, actions_store, actions_removeRecord r s.id .replaced]
  cases r.records[s.id]? <;> rfl

theorem actions_expire (r : Registry) (task : Task) :
    (r.expire task.id task.handle).1.scheduler.actions =
      (r.scheduler.actions.carryAll (r.ending task)).2 := by
  unfold expire ending
  cases hr : r.records[task.id]? with
  | none => rfl
  | some stored =>
    cases hs : stored.handle.same task.handle with
    | false => simp only [hs, Bool.false_eq_true, if_false]; rfl
    | true =>
      have hfirst : (r.scheduler.stop task.handle).1 = r.isArmed task.handle := rfl
      simp only [hs, if_true, hfirst]
      cases r.isArmed task.handle with
      | false => rfl
      | true => simp only [if_true, removeRecord, hr]; rfl

theorem actions_of_answers {now : Instant} {r r' : Registry} {log : Log} {call : Call}
    (h : r.Answers now r' log call) (client : Nat) :
    r'.scheduler.actions = (r.scheduler.actions.carryAll (r.orders (.call client call))).2 := by
  cases call with
  | add s answer =>
    have hr := registry_add now s r
    have ha := answer_add now s r
    rw [show r.add now s = _ from h] at hr ha
    subst hr ha
    cases r.assignId s with
    | error e => rfl
    | ok assigned =>
      obtain ⟨id, lastId⟩ := assigned
      change (put now { s with id } { r with lastId }).scheduler.actions =
        (r.scheduler.actions.carryAll (.issue s.endsAt ::
          (r.records[id]?.toList.map fun previous => .stop Cause.replaced previous.handle))).2
      rw [actions_put]
      cases r.records[id]? <;> rfl
  | update s answer =>
    have hr := registry_update now s r
    have ha := answer_update now s r
    rw [show r.update now s = _ from h] at hr ha
    subst hr ha
    split_ifs
    · exact actions_put now s r
    · rfl
  | delete id answer =>
    have hr := registry_delete id r
    rw [show r.delete id = _ from h] at hr
    subst hr
    exact actions_removeRecord r id .deleted
  | close =>
    obtain rfl : r.stopAll r.handles = r' := congrArg Outcome.registry h
    exact (carryAll_stops .closed r.handles r).1.symm
  | clear answer =>
    obtain rfl : { r.stopAll r.handles with records := ∅ } = r' := congrArg Outcome.registry h
    exact (carryAll_stops .cleared r.handles r).1.symm
  | _ =>
    obtain ⟨-, rfl, -⟩ := h
    rfl

@[simp] theorem actions_resume (s : Scheduler) : s.resume.actions = s.actions := by
  unfold Scheduler.resume
  split <;> rfl

theorem actions_of_step? {now : Instant} {r r' : Registry} {log : Log}
    (h : r.step? now = some (r', log)) :
    r'.scheduler.actions = (r.scheduler.actions.carryAll (r.orders .work)).2 := by
  unfold step? at h
  split at h
  · rename_i asOf turn task hp
    have hresume : (r.expire task.id task.handle).1.scheduler.resume = r'.scheduler :=
      congrArg (·.1.scheduler) (Option.some.inj h)
    rw [← hresume, actions_resume, actions_expire]
    simp only [orders, hp]
  · rename_i hp
    split at h
    · cases h
    · rename_i s log hs
      cases h
      rw [(Scheduler.advance_of_step? hs).actions_eq, orders]
      split
      · exact absurd ‹_› (hp _ _ _)
      · rfl

/-- The orders of a move are all that it does to the actions. -/
theorem actions_of_step {r r' : Registry} {m : Moment} (h : r.Step r' m) :
    r'.scheduler.actions = (r.scheduler.actions.carryAll (r.orders m.move)).2 := by
  unfold Step at h
  cases hm : m.move with
  | call client call =>
    rw [hm] at h
    exact actions_of_answers h client
  | work =>
    rw [hm] at h
    exact actions_of_step? h

/-- What a move has to do with a record whose action it stops. -/
def Stops (r : Registry) (move : Move) (id : SilenceId) (stored : Stored) : Cause → Prop
  | .expired => move = .work ∧ ∃ asOf turn task, r.scheduler.phase = .delivering asOf turn task ∧
      task.id = id ∧ stored.handle.same task.handle = true
  | .replaced => ∃ s, move.written? = some s ∧ s.id = id
  | .deleted => ∃ client answer, move = .call client (.delete id answer)
  | .cleared => ∃ client count, move = .call client (.clear count)
  | .closed => ∃ client, move = .call client .close

theorem stored_of_mem {cause reason : Cause} {handle : Handle} {there : Option Stored}
    (h : .stop reason handle ∈ there.toList.map fun stored => Order.stop cause stored.handle) :
    ∃ stored, there = some stored ∧ stored.handle.same handle = true ∧ reason = cause := by
  obtain ⟨stored, hmem, heq⟩ := List.mem_map.1 h
  obtain ⟨rfl, rfl⟩ := Order.stop.inj heq
  exact ⟨stored, Option.mem_toList.1 hmem, Handle.same_iff.2 rfl, rfl⟩

theorem stored_of_mem_handles {r : Registry} {cause reason : Cause} {handle : Handle}
    (h : .stop reason handle ∈ r.handles.map (Order.stop cause)) :
    ∃ (id : SilenceId) (stored : Stored), r.records[id]? = some stored ∧
      stored.handle.same handle = true ∧ reason = cause := by
  obtain ⟨g, hmem, heq⟩ := List.mem_map.1 h
  obtain ⟨rfl, rfl⟩ := Order.stop.inj heq
  obtain ⟨id, stored, hr, rfl⟩ := mem_handles.1 hmem
  exact ⟨id, stored, hr, Handle.same_iff.2 rfl, rfl⟩

theorem stored_of_mem_ending {r : Registry} {task : Task} {cause : Cause} {handle : Handle}
    (h : .stop cause handle ∈ r.ending task) :
    ∃ stored, r.records[task.id]? = some stored ∧ stored.handle.same handle = true ∧
      stored.handle.same task.handle = true ∧ cause = .expired := by
  unfold ending at h
  split at h
  · cases h
  · rename_i stored hr
    split_ifs at h with hs
    · rcases List.mem_cons.1 h with heq | h
      · obtain ⟨rfl, rfl⟩ := Order.stop.inj heq
        exact ⟨stored, hr, hs, hs, rfl⟩
      · obtain ⟨rfl, rfl⟩ := Order.stop.inj (List.mem_singleton.1 h)
        exact ⟨stored, hr, Handle.same_iff.2 rfl, hs, rfl⟩
    · obtain ⟨rfl, rfl⟩ := Order.stop.inj (List.mem_singleton.1 h)
      exact ⟨stored, hr, hs, hs, rfl⟩
    · cases h

/-- Only actions of records are stopped. -/
theorem stops_of_mem_orders {r : Registry} {move : Move} {cause : Cause} {handle : Handle}
    (h : .stop cause handle ∈ r.orders move) :
    ∃ id stored, r.records[id]? = some stored ∧ stored.handle.same handle = true ∧
      r.Stops move id stored cause := by
  unfold orders at h
  split at h
  · rename_i s id
    obtain heq | h := List.mem_cons.1 h
    · cases heq
    · obtain ⟨stored, hr, hs, rfl⟩ := stored_of_mem h
      exact ⟨id, stored, hr, hs, { s with id }, rfl, rfl⟩
  · rename_i s
    obtain h | heq := List.mem_append.1 h
    · obtain ⟨stored, hr, hs, rfl⟩ := stored_of_mem h
      exact ⟨s.id, stored, hr, hs, s, rfl, rfl⟩
    · cases List.mem_singleton.1 heq
  · rename_i client id answer
    obtain ⟨stored, hr, hs, rfl⟩ := stored_of_mem h
    exact ⟨id, stored, hr, hs, client, answer, rfl⟩
  · rename_i client
    obtain ⟨id, stored, hr, hs, rfl⟩ := stored_of_mem_handles h
    exact ⟨id, stored, hr, hs, client, rfl⟩
  · rename_i client count
    obtain ⟨id, stored, hr, hs, rfl⟩ := stored_of_mem_handles h
    exact ⟨id, stored, hr, hs, client, count, rfl⟩
  · cases h
  · split at h
    · rename_i asOf turn task hp
      obtain ⟨stored, hr, hs, hsame, rfl⟩ := stored_of_mem_ending h
      exact ⟨task.id, stored, hr, hs, rfl, asOf, turn, task, hp, rfl, hsame⟩
    · cases h

/-- What becomes of a record whose action is retired. -/
def Retires (r : Registry) (m : Moment) (r' : Registry) (id : SilenceId) : Cause → Prop
  | .expired => m.move = .work ∧ r'.records = r.records.erase id ∧ m.log = [.expired id]
  | .replaced => ∃ s, m.move.written? = some s ∧ s.id = id ∧
      r'.records = r.records.insert id ⟨s, r.nextHandle s.endsAt⟩
  | .deleted => (∃ client, m.move = .call client (.delete id (.ok ()))) ∧
      r'.records = r.records.erase id
  | .cleared => (∃ client, m.move = .call client (.clear r.size)) ∧ r'.records = ∅
  | .closed => (∃ client, m.move = .call client .close) ∧ r'.records = r.records ∧
      m.log = [.closed ((r.touches m.move).countP Touch.retires) r.size]

theorem Stops.retires {r r' : Registry} {m : Moment} {id : SilenceId} {stored : Stored}
    {cause : Cause} (h : r.Stops m.move id stored cause) (hc : r.Coupled) (step : r.Step r' m)
    (hr : r.records[id]? = some stored) (harm : r.isArmed stored.handle = true) :
    r.Retires m r' id cause := by
  have hstep := step
  unfold Step at hstep
  cases cause with
  | expired =>
    obtain ⟨hm, asOf, turn, task, hp, rfl, hs⟩ := h
    have hcurrent : r.IsCurrent task :=
      ⟨stored, hr, hs, (Actions.isArmed_of_same hs r.scheduler.actions).symm.trans harm⟩
    simp only [hm, step?, hp, expire_of_isCurrent hcurrent] at hstep
    obtain ⟨rfl, hlog⟩ := Prod.mk.inj (Option.some.inj hstep)
    exact ⟨hm, records_removeRecord r task.id, hlog.symm⟩
  | replaced =>
    obtain ⟨s, hw, rfl⟩ := h
    exact ⟨s, hw, rfl, records_of_written step hw⟩
  | deleted =>
    obtain ⟨client, answer, hm⟩ := h
    have hregistry := registry_delete id r
    have hanswer := answer_delete id r
    simp only [hm] at hstep
    rw [show r.delete id = _ from hstep] at hregistry hanswer
    rw [hr] at hanswer
    obtain rfl : answer = .ok () := hanswer
    exact ⟨⟨client, hm⟩, (congrArg Registry.records hregistry).trans (records_removeRecord r id)⟩
  | cleared =>
    obtain ⟨client, count, hm⟩ := h
    simp only [hm] at hstep
    have hcount : r.size = count := Except.ok.inj (congrArg Outcome.answer hstep)
    have hrecords : ∅ = r'.records := congrArg (·.registry.records) hstep
    exact ⟨⟨client, hcount ▸ hm⟩, hrecords.symm⟩
  | closed =>
    obtain ⟨client, hm⟩ := h
    simp only [hm] at hstep
    have hcloses : r.Closes r' m.log := by
      have h := closes_close hc
      rw [show r.close = _ from hstep] at h
      exact h
    refine ⟨⟨client, hm⟩, hcloses.records, ?_⟩
    have hcount := (carryAll_stops .closed r.handles r).2
    rw [hcloses.each r.handles (List.Perm.refl _)] at hcount
    rw [hcloses.log_eq, touches, hm]
    exact congrArg (fun count => [LogLine.closed count r.size]) hcount.symm

theorem known_of_mem_orders {r : Registry} {move : Move} (hc : r.Coupled) :
    ∀ order ∈ r.orders move, order.Known r.scheduler.actions := by
  intro order h
  cases order with
  | issue endsAt => trivial
  | stop cause handle =>
    obtain ⟨id, stored, hr, hs, -⟩ := stops_of_mem_orders h
    exact (Handle.same_iff.1 hs).symm.trans_lt (hc.stored_lt id stored hr)

/-- Every armed action is that of a record. -/
def Held (r : Registry) : Prop :=
  ∀ handle : Handle, handle.index < r.scheduler.actions.issued → r.isArmed handle = true →
    ∃ (id : SilenceId) (stored : Stored), r.records[id]? = some stored ∧
      stored.handle.index = handle.index

theorem Held.removeRecord {r : Registry} (h : r.Held) (id : SilenceId) :
    (r.removeRecord id).Held := by
  intro handle hi harm
  rw [issued_removeRecord] at hi
  rw [isArmed_removeRecord] at harm
  obtain ⟨other, stored, hr, hs⟩ := h handle hi harm.1
  refine ⟨other, stored, ?_, hs⟩
  rw [records_removeRecord, OrderedMap.getElem?_erase, if_neg, hr]
  rintro rfl
  exact harm.2 stored hr hs

theorem Held.put {r : Registry} (h : r.Held) (hl : r.scheduler.phase.listens = true) (now : Instant)
    (s : Silence) : (r.put now s).Held := by
  intro handle hi harm
  rw [issued_put hl] at hi
  rw [isArmed_put hl] at harm
  rcases Nat.lt_succ_iff_lt_or_eq.1 hi with hi | hi
  · obtain ⟨other, stored, hr, hs⟩ := h.removeRecord s.id handle
      (by rwa [issued_removeRecord]) harm
    rw [records_removeRecord, OrderedMap.getElem?_erase] at hr
    split_ifs at hr with hne
    exact ⟨other, stored, by rw [records_put, OrderedMap.getElem?_insert, if_neg hne, hr], hs⟩
  · exact ⟨s.id, _, by rw [records_put, OrderedMap.getElem?_insert, if_pos rfl], hi.symm⟩

/-- Once all records have their actions stopped there is no armed action left. -/
theorem Held.stopAll {r r' : Registry} (h : r.Held)
    (hs : r'.scheduler = (r.stopAll r.handles).scheduler) : r'.Held := by
  obtain ⟨stopped, he⟩ := stopAll_eq r r.handles
  intro handle hi harm
  rw [hs, he] at hi
  rw [isArmed, hs] at harm
  obtain ⟨harm, hnone⟩ := (isArmed_close r handle).1 harm
  obtain ⟨id, stored, hr, hindex⟩ := h handle hi harm
  exact absurd hindex (hnone id stored hr)

theorem Held.effect {now : Instant} {r r' : Registry} {call : Call} (h : r.Held)
    (hl : r.scheduler.phase.listens = true) (he : r.Effect now call r') : r'.Held := by
  cases he with
  | none => exact h
  | put hw lastId => exact Held.put (r := { r with lastId }) h hl now _
  | remove _ _ id => exact h.removeRecord id
  | close => exact h.stopAll rfl
  | clear => exact h.stopAll rfl

theorem Held.work {now : Instant} {r r' : Registry} {log : Log} (h : r.Held)
    (hw : r.Work now r' log) : r'.Held := by
  cases hw with
  | advance ha =>
    intro handle hi harm
    rw [ha.actions_eq] at hi
    rw [isArmed, Scheduler.isArmed, ha.actions_eq] at harm
    exact h handle hi harm
  | @expire _ _ task => exact h.removeRecord task.id
  | pass => exact h

theorem Held.step {r r' : Registry} {m : Moment} (h : r.Held) (hc : r.Coupled)
    (step : r.Step r' m) : r'.Held := by
  rcases answers_or_work_of_step step with ⟨client, call, -, ha⟩ | ⟨-, hw⟩
  · exact h.effect (Phase.listens_of_working hc.sound.working) (effect_of_answers ha)
  · exact h.work hw

/-- The armed actions are counted by their records. -/
theorem Held.card_armed {r : Registry} (h : r.Held) (hc : r.Coupled) :
    r.scheduler.actions.armed.card = r.tasks.countP fun task => r.isArmed task.handle := by
  have hnodup : ((r.tasks.filter fun task => r.isArmed task.handle).map
      (·.handle.index)).Nodup := by
    have hn := hc.nodup_handles
    rw [handles_eq_tasks, List.map_map] at hn
    exact hn.sublist (List.filter_sublist.map _)
  have harmed : r.scheduler.actions.armed = ((r.tasks.filter fun task => r.isArmed task.handle).map
      (·.handle.index)).toFinset := by
    ext index
    rw [Actions.mem_armed, List.mem_toFinset, List.mem_map]
    constructor
    · rintro ⟨hi, harm⟩
      obtain ⟨id, stored, hr, hs⟩ := h ⟨index, default⟩ hi harm
      refine ⟨⟨id, stored.handle⟩, List.mem_filter.2 ⟨mem_tasks.2 ⟨stored, hr, rfl⟩, ?_⟩, hs⟩
      exact (Actions.isArmed_of_same (Handle.same_iff.2 hs) r.scheduler.actions).trans harm
    · rintro ⟨task, hmem, rfl⟩
      obtain ⟨hmem, harm⟩ := List.mem_filter.1 hmem
      obtain ⟨stored, hr, hh⟩ := mem_tasks.1 hmem
      exact ⟨hh ▸ hc.stored_lt _ stored hr, harm⟩
  rw [harmed, List.toFinset_card_of_nodup hnodup, List.length_map, List.countP_eq_length_filter]

end Registry

/-- A run with all that it did to actions, the latest first. -/
inductive Journal : History → List (Touch Cause) → Registry → Prop
  | nil : Journal [] [] .empty
  | snoc {history touches r r' m} (journal : Journal history touches r) (step : r.Step r' m) :
    Journal (m :: history) (r.touches m.move ++ touches) r'

/-- In some step of a run the action of a record was retired, and the record fared as its cause
says. -/
inductive Retired (handle : Handle) (cause : Cause) : History → List (Touch Cause) → Prop
  | intro (later : History) (newer : List (Touch Cause)) {m before r r' past id stored}
    (journal : Journal before past r) (step : r.Step r' m)
    (told : cause ∈ (r.touches m.move).filterMap (Touch.retirement? handle))
    (there : r.records[id]? = some stored) (same : stored.handle.same handle = true)
    (retires : r.Retires m r' id cause) :
    Retired handle cause (later ++ m :: before) (newer ++ (r.touches m.move ++ past))

theorem Run.exists_journal {history : History} {r : Registry} (run : Run history r) :
    ∃ touches, Journal history touches r := by
  induction run with
  | nil => exact ⟨[], .nil⟩
  | snoc _ step ih =>
    obtain ⟨touches, journal⟩ := ih
    exact ⟨_, journal.snoc step⟩

namespace Journal

variable {history : History} {touches : List (Touch Cause)} {r : Registry}

theorem run (journal : Journal history touches r) : Run history r := by
  induction journal with
  | nil => exact .nil
  | snoc _ step ih => exact ih.snoc step

theorem handling (journal : Journal history touches r) :
    Handling touches r.scheduler.actions := by
  induction journal with
  | nil => exact .nil
  | snoc journal step ih =>
    rw [Registry.actions_of_step step]
    exact ih.carryAll (Registry.known_of_mem_orders journal.run.coupled)

theorem held (journal : Journal history touches r) : r.Held := by
  induction journal with
  | nil => exact fun handle hi => absurd hi (Nat.not_lt_zero _)
  | snoc journal step ih => exact ih.step journal.run.coupled step

theorem call (journal : Journal history touches r) (client : Nat) {now : Instant} {r' : Registry}
    {log : Log} {call : Call} (h : r.Answers now r' log call) :
    Journal (⟨now, .call client call, log⟩ :: history)
      (r.touches (.call client call) ++ touches) r' := journal.snoc h

/-- What was retired was retired in some step, and nothing else is on record for it then. -/
theorem retired (journal : Journal history touches r) {handle : Handle} {cause : Cause}
    (h : cause ∈ touches.filterMap (Touch.retirement? handle)) :
    Retired handle cause history touches := by
  induction journal with
  | nil => cases h
  | @snoc history touches r r' m journal step ih =>
    rw [List.filterMap_append, List.mem_append] at h
    rcases h with h | h
    · obtain ⟨touch, hmem, hcause⟩ := List.mem_filterMap.1 h
      cases touch with
      | issued => cases hcause
      | stopped reason clone answer =>
        simp only [Touch.retirement?, Bool.and_eq_true] at hcause
        split_ifs at hcause with hboth
        obtain rfl := Option.some.inj hcause
        obtain ⟨hanswer, hsame⟩ := hboth
        obtain ⟨horder, harm⟩ := Actions.of_mem_carryAll hmem
        obtain ⟨id, stored, hr, hs, hstops⟩ := Registry.stops_of_mem_orders horder
        have harm : r.isArmed stored.handle = true :=
          (Actions.isArmed_of_same hs r.scheduler.actions).trans (harm hanswer)
        exact .intro [] [] journal step h hr
          (Handle.same_iff.2 ((Handle.same_iff.1 hs).trans (Handle.same_iff.1 hsame)))
          (hstops.retires journal.run.coupled step hr harm)
    · cases ih h with
      | intro later newer journal' step' told there same retires =>
        have hintro := Retired.intro (m :: later) (r.touches m.move ++ newer) journal' step' told
          there same retires
        simpa only [List.cons_append, List.append_assoc] using hintro

end Journal

/-- Of all stop calls on an action, through whatever clones, the first tells that it was armed, no
other does, and nothing arms it again. In a run of a registry as many actions were issued as
silences were written. Each of them is armed, and then it is that of a record, or it was retired for
one cause: at its end, as the worker removed its record, as its silence was replaced, deleted or
cleared away, or by a close that has counted it. -/
theorem actions_retire_once :
    (∀ (ρ : Type) (touches : List (Touch ρ)) (t : Actions), Handling touches t →
      ∀ handle : Handle,
        (touches.filterMap (Touch.retirement? handle)).length =
          (if t.isArmed handle then 0 else 1) ∧
        ∀ (later earlier : List (Touch ρ)) (reason : ρ) (clone : Handle) (answer : Bool),
          touches = later ++ .stopped reason clone answer :: earlier → clone.same handle = true →
          t.isArmed handle = false ∧ later.filterMap (Touch.retirement? handle) = []) ∧
    (∀ (history : History) (r : Registry), Run history r →
      ∃ touches : List (Touch Cause), Journal history touches r) ∧
    ∀ (history : History) (touches : List (Touch Cause)) (r : Registry),
      Journal history touches r →
      Handling touches r.scheduler.actions ∧ touches.countP Touch.issues = history.writes ∧
      history.writes = (r.tasks.countP fun task => r.isArmed task.handle) +
        touches.countP Touch.retires ∧
      ∀ handle : Handle, handle.index < history.writes →
        (r.isArmed handle = true → ∃ (id : SilenceId) (stored : Stored),
          r.records[id]? = some stored ∧ stored.handle.same handle = true) ∧
        (r.isArmed handle = false → ∃ cause,
          touches.filterMap (Touch.retirement? handle) = [cause] ∧
          Retired handle cause history touches) := by
  refine ⟨fun ρ touches t h handle => ⟨h.length_retirements handle, ?_⟩,
    fun history r run => run.exists_journal, fun history touches r journal => ?_⟩
  · rintro later earlier reason clone answer rfl hs
    exact h.not_isArmed_of_stopped hs
  · have hissued := journal.run.versioned.issued
    have handling := journal.handling
    refine ⟨handling, handling.countP_issues.trans hissued, ?_, fun handle hi => ⟨?_, ?_⟩⟩
    · rw [← hissued, ← journal.held.card_armed journal.run.coupled]
      exact handling.issued_eq
    · intro harm
      obtain ⟨id, stored, hr, hs⟩ := journal.held handle (hissued ▸ hi) harm
      exact ⟨id, stored, hr, Handle.same_iff.2 hs⟩
    · intro hstopped
      have hlength := handling.length_retirements handle
      rw [show r.scheduler.actions.isArmed handle = false from hstopped] at hlength
      obtain ⟨cause, hcause⟩ := List.length_eq_one_iff.1 hlength
      exact ⟨cause, hcause, journal.retired (hcause ▸ List.mem_singleton_self cause)⟩

/-- Five actions, each retired for another cause: the first at its end, and the last as the registry
is cleared, when the one before it is stopped in vain. -/
theorem actions_retire_once_for_each_cause :
    ∃ (history : History) (touches : List (Touch Cause)) (r : Registry),
      Journal history touches r ∧ history.writes = 5 ∧ touches.countP Touch.retires = 5 ∧
      ∀ (i : Nat) (cause : Cause),
        [Cause.expired, .replaced, .deleted, .closed, .cleared][i]? = some cause →
          touches.filterMap (Touch.retirement? ⟨i, default⟩) = [cause] ∧
            Retired ⟨i, default⟩ cause history touches := by
  let later : Instant := ⟨1, 0, by decide, by decide, by decide⟩
  let x : Silence := .new default "ops" default
  let y : Silence := .new default "ops" later
  obtain ⟨work, -, run⟩ := (Run.nil.add 0 default x).settle default 4
  obtain ⟨touches, journal⟩ := run.exists_journal
  generalize hr : (settle _ 4 _).1 = r at journal
  have hphase : r.scheduler.phase = .delivering 0 ⟨0, 0⟩ ⟨⟨1⟩, ⟨0, default⟩⟩ := by
    rw [← hr]
    cbv
  let ended : Registry := { (r.expire ⟨1⟩ ⟨0, default⟩).1 with
    scheduler := (r.expire ⟨1⟩ ⟨0, default⟩).1.scheduler.resume }
  have expiry : r.Step ended ⟨default, .work, (r.expire ⟨1⟩ ⟨0, default⟩).2⟩ := by
    simp only [Registry.Step, Registry.step?, hphase]
    rfl
  have journal := journal.snoc expiry
  obtain ⟨history, made, q, journal, hissued, htasks, hmade⟩ :
      ∃ history made q, Journal history (made ++ touches) q ∧ q.scheduler.actions.issued = 5 ∧
        q.tasks = [] ∧ (List.range 5).map (fun i => made.filterMap (Touch.retirement? ⟨i, default⟩)) =
          [Cause.expired, .replaced, .deleted, .closed, .cleared].map fun cause => [cause] := by
    have journal := journal.call 0 (Registry.answers_add default y _)
    have journal := journal.call 0 (Registry.answers_add default y _)
    have journal := journal.call 1 (Registry.answers_update default (y.withId ⟨2⟩) _)
    have journal := journal.call 1 (Registry.answers_delete default ⟨3⟩ _)
    have journal := journal.call 0 (Registry.answers_close default _)
    have journal := journal.call 0 (Registry.answers_add default y _)
    have journal := journal.call 0 (Registry.answers_clear default _)
    simp only [← List.append_assoc] at journal
    subst hr
    refine ⟨_, _, _, journal, ?_, ?_, ?_⟩
    · cbv
    · cbv
    · cbv
  obtain ⟨-, -, hall⟩ := actions_retire_once
  obtain ⟨-, -, hbooks, heach⟩ := hall history (made ++ touches) q journal
  have hwrites : history.writes = 5 := journal.run.versioned.issued.symm.trans hissued
  refine ⟨history, made ++ touches, q, journal, hwrites, ?_, fun i cause hcause => ?_⟩
  · rw [htasks, hwrites] at hbooks
    simpa using hbooks.symm
  · have hi : i < 5 := (List.getElem?_eq_some_iff.1 hcause).1
    have hone : made.filterMap (Touch.retirement? ⟨i, default⟩) = [cause] := by
      have h := congrArg (·[i]?) hmade
      rw [List.getElem?_map, List.getElem?_range hi, List.getElem?_map, hcause] at h
      exact Option.some.inj h
    have hstopped : q.isArmed ⟨i, default⟩ = false := by
      rw [Bool.eq_false_iff]
      intro harm
      obtain ⟨id, stored, hr, -⟩ := (heach ⟨i, default⟩ (hwrites ▸ hi)).1 harm
      have hmem : (⟨id, stored.handle⟩ : Task) ∈ q.tasks := Registry.mem_tasks.2 ⟨stored, hr, rfl⟩
      rw [htasks] at hmem
      cases hmem
    obtain ⟨other, hother, hretired⟩ := (heach ⟨i, default⟩ (hwrites ▸ hi)).2 hstopped
    have hsame := hother
    rw [List.filterMap_append, hone] at hsame
    obtain ⟨rfl, -⟩ := List.cons.inj hsame
    exact ⟨hother, hretired⟩

end AlertSilences
