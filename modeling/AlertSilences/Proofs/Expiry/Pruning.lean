import AlertSilences.Proofs.Expiry.Shift
import AlertSilences.Proofs.Operations

/-! A worker that never prunes its queue, beside the one that does. The two queues differ in
stopped actions only, and what a worker does goes by the armed ones: before it hands anything over
or rests it lets go of the stopped ones that are due, which nobody gets to know of. -/

namespace AlertSilences

namespace Queue

def armed (actions : Actions) (q : Queue) : List Entry :=
  q.entries.filter fun e => actions.isArmed e.2.handle

theorem armed_enter {actions : Actions} {q q' : Queue} (h : q.armed actions = q'.armed actions)
    (ha : q.arrivals = q'.arrivals) (due : Int) (task : Task) :
    (q.enter due task).armed actions = (q'.enter due task).armed actions := by
  let kept (t : Std.ExtTreeMap Turn Task) := t.filter fun _ task => actions.isArmed task.handle
  have hkept : kept q.tasks = kept q'.tasks := by
    rw [← Std.ExtTreeMap.toList_inj, Std.ExtTreeMap.toList_filter, Std.ExtTreeMap.toList_filter]
    exact h
  have : kept (q.enter due task).tasks = kept (q'.enter due task).tasks := by
    apply Std.ExtTreeMap.ext_getElem?
    intro turn
    have hturn := congrArg (·[turn]?) hkept
    simp only [kept, Std.ExtTreeMap.getElem?_filter'] at hturn
    simp only [kept, enter, Std.ExtTreeMap.getElem?_filter', OrderedMap.getElem?_insert, ha]
    split_ifs
    · rfl
    · exact hturn
  rw [← Std.ExtTreeMap.toList_inj, Std.ExtTreeMap.toList_filter,
    Std.ExtTreeMap.toList_filter] at this
  exact this

theorem armed_prune (actions : Actions) (q : Queue) :
    (q.prune actions).armed actions = q.armed actions := by
  unfold armed
  rcases entries_prune actions q with h | h
  · rw [h]
  · rw [h, List.filter_filter]
    simp only [Bool.and_self]

/-- A stopped action goes from the armed entries and stays away. -/
theorem armed_disarm (actions : Actions) (h : Handle) (q : Queue) :
    q.armed (actions.disarm h) = (q.armed actions).filter fun e => h.index ≠ e.2.handle.index := by
  unfold armed
  rw [List.filter_filter]
  congr 1
  funext e
  rw [Bool.eq_iff_iff, Actions.isArmed_disarm, Bool.and_eq_true, decide_eq_true_iff, and_comm]

theorem armed_of_popDue? {q q' : Queue} {now : Int} {e : Entry}
    (h : q.popDue? now = some (e, q')) (actions : Actions) :
    q.armed actions =
      if actions.isArmed e.2.handle then e :: q'.armed actions else q'.armed actions := by
  unfold armed
  rw [(entries_of_popDue? h).1, List.filter_cons]

/-- Whether what is popped next would be handed over. -/
def Ready (actions : Actions) (now : Int) (q : Queue) : Prop :=
  ∀ e q', q.popDue? now = some (e, q') → actions.isArmed e.2.handle = true

theorem Ready.of_armed {q q' : Queue} {actions : Actions} {now : Int} {e : Entry}
    (h : q.popDue? now = some (e, q')) (ha : actions.isArmed e.2.handle = true) :
    q.Ready actions now := by
  intro _ _ h'
  cases h.symm.trans h'
  exact ha

theorem Ready.of_none {q : Queue} {actions : Actions} {now : Int} (h : q.popDue? now = none) :
    q.Ready actions now := by
  intro _ _ h'
  cases h.symm.trans h'

/-- What a queue without stopped actions before it pops is the first armed one, if it is due. -/
theorem Ready.popDue? {actions : Actions} {now : Int} {q : Queue} (h : q.Ready actions now) :
    (q.popDue? now).map Prod.fst = (q.armed actions).head?.filter fun e => e.1.due ≤ now := by
  cases hq : q.popDue? now with
  | none =>
    have hlate : ∀ e ∈ (q.armed actions).head?, now < e.1.due := by
      intro e he
      have hmem := List.mem_of_mem_filter (List.mem_of_head? he)
      exact lt_due_of_popDue?_eq_none hq ⟨e.1.due, e.2⟩ (List.mem_map.2 ⟨e, hmem, rfl⟩)
    cases hhead : (q.armed actions).head? with
    | none => rfl
    | some e =>
      have : ¬e.1.due ≤ now := Int.not_le.2 (hlate e hhead)
      simp [Option.filter, this]
  | some popped =>
    obtain ⟨e, q'⟩ := popped
    rw [armed_of_popDue? hq, if_pos (h e q' hq)]
    simp [Option.filter, (entries_of_popDue? hq).2.1]

end Queue

namespace Scheduler

variable {push push₁ push₂ : Actions → Queue → Int → Task → Queue} {events past : List Event}
  {s s' t t' : Scheduler} {e e' : Event}

/-- A way to queue that may let go of stopped entries, but of nothing else. -/
structure Careful (push : Actions → Queue → Int → Task → Queue) : Prop where
  arrivals : ∀ actions q due task, (push actions q due task).arrivals = q.arrivals + 1
  sublist : ∀ actions q due task,
    (push actions q due task).entries.Sublist (q.enter due task).entries
  armed : ∀ actions q due task,
    (push actions q due task).armed actions = (q.enter due task).armed actions

theorem careful_push : Careful Queue.push where
  arrivals actions q due task := Queue.arrivals_prune actions (q.enter due task)
  sublist actions q due task := Queue.sublist_prune actions (q.enter due task)
  armed actions q due task := Queue.armed_prune actions (q.enter due task)

theorem careful_enter : Careful fun _ => Queue.enter where
  arrivals _ _ _ _ := rfl
  sublist _ _ _ _ := .refl _
  armed _ _ _ _ := rfl

theorem Careful.entries (c : Careful push) {q : Queue} (h : q.Ordered) (actions : Actions)
    (due : Int) (task : Task) :
    (push actions q due task).entries ⊆ (⟨due, q.arrivals⟩, task) :: q.entries := fun _ he =>
  (Queue.entries_enter h due task).subset ((c.sublist actions q due task).subset he)

theorem Careful.ordered (c : Careful push) {q : Queue} (h : q.Ordered) (actions : Actions)
    (due : Int) (task : Task) : (push actions q due task).Ordered := by
  intro e he
  rw [c.arrivals]
  exact Queue.ordered_enter h due task e ((c.sublist actions q due task).subset he)

/-- Two workers that differ in stopped entries only. -/
structure Alike (s t : Scheduler) : Prop where
  actions : s.actions = t.actions
  channel : s.channel = t.channel
  phase : s.phase = t.phase
  arrivals : s.queue.arrivals = t.queue.arrivals
  armed : s.queue.armed s.actions = t.queue.armed t.actions

theorem Alike.refl (s : Scheduler) : Alike s s := ⟨rfl, rfl, rfl, rfl, rfl⟩

theorem Alike.symm (h : Alike s t) : Alike t s :=
  ⟨h.actions.symm, h.channel.symm, h.phase.symm, h.arrivals.symm, h.armed.symm⟩

theorem Alike.quietly (h : Alike s t) (ht : Quietly (stepBy? push) t t') : Alike s t' := by
  induction ht with
  | refl => exact h
  | tail _ hb ih =>
    cases beat_of_happens hb with
    | @skip asOf turn task queue hp hq ha =>
      refine ⟨ih.actions, ih.channel, ih.phase.trans hp, ?_, ?_⟩
      · exact ih.arrivals.trans (Queue.entries_of_popDue? hq).2.2.symm
      · rw [ih.armed, Queue.armed_of_popDue? hq]
        exact if_neg (Bool.eq_false_iff.1 ha)

/-- Two workers that are alike stay alike if the same happens to both. -/
theorem Alike.beat (c₁ : Careful push₁) (c₂ : Careful push₂) (h : Alike s t)
    (hs : Beat push₁ s (some e) s') (ht : Beat push₂ t (some e) t') : Alike s' t' := by
  obtain ⟨actions, channel, queue, phase⟩ := s
  obtain ⟨_, _, queue', _⟩ := t
  obtain ⟨rfl, rfl, rfl, ha, harmed⟩ := h
  cases hs with
  | issue =>
    cases ht
    exact ⟨rfl, rfl, rfl, ha, harmed⟩
  | send c =>
    cases ht
    unfold send
    split_ifs
    · exact ⟨rfl, rfl, rfl, ha, harmed⟩
    · exact ⟨rfl, rfl, rfl, ha, harmed⟩
  | stop g =>
    cases ht
    refine ⟨rfl, rfl, rfl, ha, ?_⟩
    change queue.armed (actions.disarm g) = queue'.armed (actions.disarm g)
    rw [Queue.armed_disarm, Queue.armed_disarm, harmed]
  | timeOut =>
    cases ht
    exact ⟨rfl, rfl, rfl, ha, harmed⟩
  | resume hp =>
    cases ht with
    | resume hp' =>
      cases hp.symm.trans hp'
      exact ⟨rfl, rfl, rfl, ha, harmed⟩
  | receive _ hc =>
    cases ht with
    | receive _ hc' =>
      cases hc.symm.trans hc'
      exact ⟨rfl, rfl, rfl, ha, harmed⟩
  | @queue due task hp =>
    cases ht with
    | queue hp' =>
      cases hp.symm.trans hp'
      refine ⟨rfl, rfl, rfl, ?_, ?_⟩
      · exact (c₁.arrivals ..).trans ((congrArg (· + 1) ha).trans (c₂.arrivals ..).symm)
      · exact (c₁.armed ..).trans ((Queue.armed_enter harmed ha due task).trans (c₂.armed ..).symm)
  | halt =>
    cases ht
    exact ⟨rfl, rfl, rfl, ha, harmed⟩
  | look =>
    cases ht
    exact ⟨rfl, rfl, rfl, ha, harmed⟩
  | hand hp hq harm =>
    cases ht with
    | hand hp' hq' harm' =>
      cases hp.symm.trans hp'
      refine ⟨rfl, rfl, rfl, ?_, ?_⟩
      · exact (Queue.entries_of_popDue? hq).2.2.trans
          (ha.trans (Queue.entries_of_popDue? hq').2.2.symm)
      · have hfirst := Queue.armed_of_popDue? hq actions
        have hfirst' := Queue.armed_of_popDue? hq' actions
        have heq := (hfirst.trans (if_pos harm)).symm.trans
          (harmed.trans (hfirst'.trans (if_pos harm')))
        exact (List.cons.inj heq).2
  | rest =>
    cases ht
    exact ⟨rfl, rfl, rfl, ha, harmed⟩

/-- After the same events two workers are alike. -/
theorem Shift.alike (c₁ : Careful push₁) (c₂ : Careful push₂)
    (shift : Shift (stepBy? push₁) events s) :
    ∀ {t}, Shift (stepBy? push₂) events t → Alike s t := by
  induction shift with
  | nil =>
    intro t shift'
    exact (Alike.refl _).quietly shift'.of_nil
  | unseen _ h ih =>
    intro t shift'
    exact ((ih shift').symm.quietly (.single h)).symm
  | seen _ h ih =>
    intro t shift'
    obtain ⟨before, after, hpast, hlast, hrest⟩ := shift'.exists_last
    have := (ih hpast).beat c₁ c₂ (beat_of_happens h) (beat_of_happens hlast)
    exact this.quietly hrest

/-- In a sweep a worker lets go of the stopped actions before it hands over or rests. -/
theorem exists_ready (push : Actions → Queue → Int → Task → Queue) {asOf : Int}
    (hp : s.phase = .sweeping asOf) :
    ∃ s', Quietly (stepBy? push) s s' ∧ s'.phase = .sweeping asOf ∧
      s'.queue.Ready s'.actions asOf := by
  induction hn : s.queue.entries.length generalizing s with
  | zero =>
    refine ⟨s, .refl, hp, fun e q' hq => ?_⟩
    rw [(Queue.entries_of_popDue? hq).1] at hn
    cases hn
  | succ n ih =>
    by_cases hready : s.queue.Ready s.actions asOf
    · exact ⟨s, .refl, hp, hready⟩
    · obtain ⟨e, q', hq, ha⟩ : ∃ e q', s.queue.popDue? asOf = some (e, q') ∧
          s.isArmed e.2.handle = false := by simpa [Queue.Ready, isArmed] using hready
      have hskip : Happens (stepBy? push) s none { s with queue := q', phase := .sweeping asOf } :=
        happens_of_beat (.skip hp hq ha)
      rw [(Queue.entries_of_popDue? hq).1] at hn
      obtain ⟨s', hquiet, h⟩ := @ih { s with queue := q', phase := .sweeping asOf } rfl
        (Nat.succ.inj hn)
      exact ⟨s', .head hskip hquiet, h⟩

/-- Two workers that are alike would hand over the same. -/
theorem Alike.popDue? (h : Alike s t) {asOf : Int} (hs : s.queue.Ready s.actions asOf)
    (ht : t.queue.Ready t.actions asOf) :
    (s.queue.popDue? asOf).map Prod.fst = (t.queue.popDue? asOf).map Prod.fst := by
  rw [hs.popDue?, ht.popDue?, h.armed]

/-- What has happened to a worker can happen to one that is alike. -/
theorem Shift.exists_next (h : Alike s t) (shift : Shift (stepBy? push₂) past t)
    (hs : Beat push₁ s (some e) s') : ∃ t', Shift (stepBy? push₂) (e :: past) t' := by
  have hphase := h.phase
  cases hs with
  | issue endsAt => exact ⟨_, shift.seen (.issue endsAt)⟩
  | send c => exact ⟨_, shift.seen (.send c)⟩
  | stop g => exact ⟨_, shift.seen (.stop g)⟩
  | timeOut hp => exact ⟨_, shift.seen (.timeOut (hphase ▸ hp))⟩
  | resume hp => exact ⟨_, shift.seen (.resume (hphase ▸ hp))⟩
  | receive hp hc =>
    exact ⟨_, shift.seen (happens_of_beat (.receive (hphase ▸ hp) (h.channel ▸ hc)))⟩
  | queue hp => exact ⟨_, shift.seen (happens_of_beat (.queue (hphase ▸ hp)))⟩
  | halt hp => exact ⟨_, shift.seen (happens_of_beat (.halt (hphase ▸ hp)))⟩
  | look clock hp => exact ⟨_, shift.seen (happens_of_beat (.look clock (hphase ▸ hp)))⟩
  | @hand asOf turn task queue hp hq ha =>
    obtain ⟨t₁, hquiet, hp₁, hready⟩ := exists_ready push₂ (hphase ▸ hp)
    have hpop := (h.quietly hquiet).popDue? (Queue.Ready.of_armed hq ha) hready
    rw [hq] at hpop
    obtain ⟨⟨_, queue'⟩, hq₁, rfl⟩ := Option.map_eq_some_iff.1 hpop.symm
    have ha₁ : t₁.isArmed task.handle = true := hready _ _ hq₁
    exact ⟨_, (shift.quietly hquiet).seen (happens_of_beat (.hand hp₁ hq₁ ha₁))⟩
  | @rest asOf hp hq =>
    obtain ⟨t₁, hquiet, hp₁, hready⟩ := exists_ready push₂ (hphase ▸ hp)
    have hpop := (h.quietly hquiet).popDue? (Queue.Ready.of_none hq) hready
    rw [hq] at hpop
    have hq₁ : t₁.queue.popDue? asOf = none := Option.map_eq_none_iff.1 hpop.symm
    exact ⟨_, (shift.quietly hquiet).seen (happens_of_beat (.rest hp₁ hq₁))⟩

theorem Shift.exists_beside (c₁ : Careful push₁) (c₂ : Careful push₂)
    (shift : Shift (stepBy? push₁) events s) : ∃ t, Shift (stepBy? push₂) events t := by
  induction shift with
  | nil => exact ⟨_, .nil⟩
  | unseen _ _ ih => exact ih
  | seen shift h ih =>
    obtain ⟨t, shift'⟩ := ih
    exact shift'.exists_next (shift.alike c₁ c₂ shift') (beat_of_happens h)

/-- What a worker does of itself: nobody else has a say in which of these comes next. -/
def Event.own : Event → Bool
  | .queued | .handed .. | .rested | .halted => true
  | _ => false

/-- What two workers that are alike do next of themselves is the same. -/
theorem Alike.own_eq (h : Alike s t) (hs : Beat push₁ s (some e) s')
    (ht : Beat push₂ t (some e') t') (he : e.own = true) (he' : e'.own = true) : e = e' := by
  have hphase := h.phase
  cases hs with
  | issue | send | stop | timeOut | resume | receive | look => cases he
  | queue hp =>
    cases ht with
    | queue => rfl
    | halt hp' | hand hp' | rest hp' => cases hp.symm.trans (hphase.trans hp')
    | issue | send | stop | timeOut | resume | receive | look => cases he'
  | halt hp =>
    cases ht with
    | halt => rfl
    | queue hp' | hand hp' | rest hp' => cases hp.symm.trans (hphase.trans hp')
    | issue | send | stop | timeOut | resume | receive | look => cases he'
  | hand hp hq ha =>
    cases ht with
    | hand hp' hq' ha' =>
      cases hp.symm.trans (hphase.trans hp')
      have hpop := h.popDue? (Queue.Ready.of_armed hq ha) (Queue.Ready.of_armed hq' ha')
      rw [hq, hq'] at hpop
      cases hpop
      rfl
    | rest hp' hq' =>
      cases hp.symm.trans (hphase.trans hp')
      have hpop := h.popDue? (Queue.Ready.of_armed hq ha) (Queue.Ready.of_none hq')
      rw [hq, hq'] at hpop
      cases hpop
    | queue hp' | halt hp' => cases hp.symm.trans (hphase.trans hp')
    | issue | send | stop | timeOut | resume | receive | look => cases he'
  | rest hp hq =>
    cases ht with
    | rest => rfl
    | hand hp' hq' ha' =>
      cases hp.symm.trans (hphase.trans hp')
      have hpop := h.popDue? (Queue.Ready.of_none hq) (Queue.Ready.of_armed hq' ha')
      rw [hq, hq'] at hpop
      cases hpop
    | queue hp' | halt hp' => cases hp.symm.trans (hphase.trans hp')
    | issue | send | stop | timeOut | resume | receive | look => cases he'

def stepUnpruned? : Int → Scheduler → Option (Scheduler × Log) := stepBy? fun _ => Queue.enter

/-- Nobody can tell whether a worker prunes its queue. The same can happen to both kinds, so that
they hand over the same in the same sweeps; at every moment they do the same with the same armed
entries before them; and what comes next of themselves is the same for both. A pruning lets go of
stopped entries only. -/
theorem Shift.pruning_unobserved :
    (∀ events, (∃ s, Shift step? events s) ↔ ∃ t, Shift stepUnpruned? events t) ∧
    (∀ events s t, Shift step? events s → Shift stepUnpruned? events t →
      s.phase = t.phase ∧ s.actions = t.actions ∧
        s.queue.armed s.actions = t.queue.armed t.actions) ∧
    (∀ past e e' s t, Shift step? (e :: past) s → Shift stepUnpruned? (e' :: past) t →
      e.own = true → e'.own = true → e = e') ∧
    ∀ actions q, (Queue.prune actions q).entries.Sublist q.entries ∧
      ∀ e ∈ q.entries, actions.isArmed e.2.handle = true → e ∈ (q.prune actions).entries := by
  rw [← stepBy?_push]
  refine ⟨fun events => ⟨?_, ?_⟩, ?_, ?_, fun actions q => ⟨Queue.sublist_prune actions q, ?_⟩⟩
  · rintro ⟨s, shift⟩
    exact shift.exists_beside careful_push careful_enter
  · rintro ⟨t, shift⟩
    exact shift.exists_beside careful_enter careful_push
  · intro events s t shift shift'
    have h := shift.alike careful_push careful_enter shift'
    exact ⟨h.phase, h.actions, h.armed⟩
  · intro past e e' s t shift shift' he he'
    obtain ⟨before, _, hpast, hlast, -⟩ := shift.exists_last
    obtain ⟨before', _, hpast', hlast', -⟩ := shift'.exists_last
    have h := hpast.alike careful_push careful_enter hpast'
    exact h.own_eq (beat_of_happens hlast) (beat_of_happens hlast') he he'
  · intro e he ha
    have hmem : e ∈ q.armed actions := List.mem_filter.2 ⟨he, ha⟩
    rw [← Queue.armed_prune] at hmem
    exact List.mem_of_mem_filter hmem

/-- The queue that was given one task `count` times, due at 1. -/
def queuedUp (push : Queue → Int → Task → Queue) (task : Task) : Nat → Queue
  | 0 => .empty
  | count + 1 => push (queuedUp push task count) 1 task

/-- However it is queued, no other task is there. -/
theorem Careful.queuedUp (c : Careful push) (actions : Actions) (task : Task) (count : Nat) :
    let q := Scheduler.queuedUp (push actions) task count
    q.Ordered ∧ ∀ e ∈ q.entries, e.1.due = 1 ∧ e.2 = task := by
  induction count with
  | zero =>
    have hnone : Queue.empty.entries = [] := rfl
    refine ⟨fun e he => ?_, fun e he => ?_⟩ <;> cases hnone ▸ he
  | succ count ih =>
    obtain ⟨hordered, hentries⟩ := ih
    refine ⟨c.ordered hordered actions 1 task, fun e he => ?_⟩
    rcases List.mem_cons.1 (c.entries hordered actions 1 task he) with rfl | he
    · exact ⟨rfl, rfl⟩
    · exact hentries e he

theorem pruneAt_queuedUp_enter (task : Task) (count : Nat) :
    (queuedUp Queue.enter task count).pruneAt = minPruneLength := by
  induction count with
  | zero => rfl
  | succ count ih => exact ih

theorem size_queuedUp_enter (task : Task) (count : Nat) :
    (queuedUp Queue.enter task count).size = count := by
  rw [Queue.size, ← Std.ExtTreeMap.length_toList]
  induction count with
  | zero => rfl
  | succ count ih =>
    have hordered := (careful_enter.queuedUp .none task count).1
    exact (Queue.entries_enter hordered 1 task).length_eq.trans (congrArg (· + 1) ih)

theorem queuedUp_push_of_lt (actions : Actions) (task : Task) {count : Nat}
    (h : count < minPruneLength) :
    queuedUp (Queue.push actions) task count = queuedUp Queue.enter task count := by
  induction count with
  | zero => rfl
  | succ count ih =>
    have hshort : (queuedUp Queue.enter task (count + 1)).size <
        (queuedUp Queue.enter task (count + 1)).pruneAt := by
      rw [size_queuedUp_enter, pruneAt_queuedUp_enter]
      exact h
    rw [queuedUp, ih (Nat.lt_of_succ_lt h), Queue.push, Queue.prune]
    exact if_pos hshort

/-- Once the queue is long enough the stopped actions are gone. -/
theorem entries_queuedUp_push {actions : Actions} {task : Task}
    (h : actions.isArmed task.handle = false) :
    (queuedUp (Queue.push actions) task minPruneLength).entries = [] := by
  have hlong : ¬(queuedUp Queue.enter task minPruneLength).size <
      (queuedUp Queue.enter task minPruneLength).pruneAt := by
    rw [size_queuedUp_enter, pruneAt_queuedUp_enter]
    exact Nat.lt_irrefl _
  have hpush : queuedUp (Queue.push actions) task minPruneLength =
      (queuedUp Queue.enter task minPruneLength).prune actions := by
    change Queue.push actions (queuedUp (Queue.push actions) task 255) 1 task = _
    rw [queuedUp_push_of_lt actions task (by decide)]
    rfl
  rw [hpush, Queue.prune, if_neg hlong, Queue.entries, Std.ExtTreeMap.toList_filter,
    List.filter_eq_nil_iff]
  intro e he
  rw [((careful_enter.queuedUp actions task minPruneLength).2 e he).2, h]
  exact Bool.false_ne_true

/-- One action after the other is armed, all of them stopped and none of them due. -/
def backlog (task : Task) : Nat → List Event
  | 0 => [.stopped task.handle]
  | count + 1 => .rested :: .looked 0 :: .queued :: .received (.arm 1 task) ::
      .sent (.arm 1 task) :: backlog task count

def backlogged (push : Actions → Queue → Int → Task → Queue) (task : Task) (count : Nat) :
    Scheduler :=
  { new.start with
    actions := Actions.none.disarm task.handle
    queue := queuedUp (push (Actions.none.disarm task.handle)) task count }

theorem Careful.backlogged_popDue? (c : Careful push) (task : Task) (count : Nat) :
    (backlogged push task count).queue.popDue? 0 = none :=
  Queue.popDue?_eq_none fun e he => ((c.queuedUp _ task count).2 e he).1 ▸ Int.one_pos

theorem Shift.of_backlog (c : Careful push) (task : Task) (count : Nat) :
    Shift (stepBy? push) (backlog task count) (backlogged push task count) := by
  induction count with
  | zero => exact Shift.nil.seen (.stop task.handle)
  | succ count ih =>
    have sent := ih.seen (.send (.arm 1 task))
    have received := sent.seen (happens_of_beat (.receive rfl rfl))
    have queued := received.seen (happens_of_beat (.queue rfl))
    have looked := queued.seen (happens_of_beat (.look 0 rfl))
    exact looked.seen (happens_of_beat (.rest rfl (c.backlogged_popDue? task (count + 1))))

/-- One worker has dropped 256 stopped actions, and the other still has them all. -/
theorem Shift.pruning_unobserved_of_backlog :
    let task : Task := ⟨⟨1⟩, ⟨0, default⟩⟩
    ∃ past s t, Shift step? (.rested :: past) s ∧ Shift stepUnpruned? (.rested :: past) t ∧
      s.queue.size = 0 ∧ t.queue.size = 256 ∧ s.phase = t.phase ∧
      s.queue.armed s.actions = t.queue.armed t.actions ∧
      (∀ e t', Shift stepUnpruned? (e :: past) t' → e.own = true → .rested = e) ∧
      (∃ t', Shift stepUnpruned? (.timedOut :: .rested :: past) t') ∧
      (⟨5, 0⟩, task) ∈ ({ Queue.empty.enter 5 task with pruneAt := 0 }.prune .none).entries := by
  intro task
  have hstopped : (Actions.none.disarm task.handle).isArmed task.handle = false := by
    rw [Bool.eq_false_iff, ne_eq, Actions.isArmed_disarm]
    exact fun h => h.2 rfl
  have hempty := entries_queuedUp_push hstopped
  have pruned : Shift step? (backlog task minPruneLength)
      (backlogged Queue.push task minPruneLength) := by
    rw [← stepBy?_push]
    exact .of_backlog careful_push task minPruneLength
  have unpruned : Shift stepUnpruned? (backlog task minPruneLength)
      (backlogged (fun _ => Queue.enter) task minPruneLength) :=
    .of_backlog careful_enter task minPruneLength
  obtain ⟨hsame, halike, hown, hprune⟩ := Shift.pruning_unobserved
  obtain ⟨hphase, -, harmed⟩ := halike _ _ _ pruned unpruned
  refine ⟨_, _, _, pruned, unpruned, ?_, size_queuedUp_enter task 256, hphase, harmed, ?_, ?_, ?_⟩
  · exact Std.ExtTreeMap.length_toList.symm.trans (congrArg List.length hempty)
  · intro e t' shift' he
    exact hown _ _ e _ t' pruned shift' rfl he
  · exact (hsame _).1 ⟨_, pruned.seen (.timeOut rfl)⟩
  · refine (hprune .none _).2 _ ?_ (by simp [Actions.isArmed, Actions.none])
    have hempty := (careful_enter.queuedUp .none task 0).1
    exact (Queue.entries_enter hempty 5 task).symm.subset List.mem_cons_self

end Scheduler

end AlertSilences
