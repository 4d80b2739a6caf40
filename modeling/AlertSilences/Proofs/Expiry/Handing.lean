import AlertSilences.Proofs.Expiry.Shift
import AlertSilences.Proofs.Operations
import Mathlib.Tactic

/-! What a worker hands over in a shift. Its queue numbers the actions in the order in which the
commands for them were received. An action with a number is queued at most once, and if it is
handed over it is queued no more. -/

namespace AlertSilences

theorem Queue.ordered_of_numbered {q : Queue} {queued : List Pending}
    (hl : queued.length = q.arrivals)
    (h : ∀ e ∈ q.entries, queued[e.1.arrival]? = some ⟨e.1.due, e.2⟩) : q.Ordered := by
  intro e he
  obtain ⟨hlt, -⟩ := List.getElem?_eq_some_iff.1 (h e he)
  rwa [← hl]

/-- The command that the worker has received and not yet followed. -/
def Phase.inHand : Phase → List Pending
  | .received command => command.pending
  | _ => []

def Phase.asOf? : Phase → Option Int
  | .sweeping asOf | .delivering asOf _ _ => some asOf
  | _ => none

namespace Scheduler

def Event.arms : Event → List Pending
  | .received command => command.pending
  | _ => []

def Event.handed? : Event → Option Entry
  | .handed turn task => some (turn, task)
  | _ => none

def Event.clock? : Event → Option Int
  | .looked clock => some clock
  | _ => none

/-- The actions that were to be armed, in the order in which the worker received the commands. -/
def arms : List Event → List Pending
  | [] => []
  | e :: past => arms past ++ e.arms

/-- What was handed over, the latest first. -/
def handOvers (events : List Event) : List Entry := events.filterMap Event.handed?

def lastLook? (events : List Event) : Option Int := events.findSome? Event.clock?

/-- What was handed over since then. -/
def handedSince (events : List Event) : List Entry :=
  handOvers (events.takeWhile fun e => e.clock?.isNone)

/-- Every action stands under its place among those that were queued, and no two under one. -/
structure Numbered (queued : List Pending) (known : List Entry) : Prop where
  placed : ∀ e ∈ known, queued[e.1.arrival]? = some ⟨e.1.due, e.2⟩
  nodup : (known.map fun e => e.1.arrival).Nodup

theorem Numbered.of_subperm {queued : List Pending} {known known' : List Entry}
    (h : Numbered queued known) (hs : known'.Subperm known) : Numbered queued known' := by
  refine ⟨fun e he => h.placed e (hs.subset he), ?_⟩
  obtain ⟨l, hp, hl⟩ := hs
  exact (hp.map _).nodup_iff.1 (h.nodup.sublist (hl.map _))

theorem Numbered.enter {queued : List Pending} {known : List Entry} (h : Numbered queued known)
    (due : Int) (task : Task) :
    Numbered (queued ++ [⟨due, task⟩]) ((⟨due, queued.length⟩, task) :: known) := by
  have hlt : ∀ e ∈ known, e.1.arrival < queued.length :=
    fun e he => (List.getElem?_eq_some_iff.1 (h.placed e he)).1
  constructor
  · intro e he
    rcases List.mem_cons.1 he with rfl | he
    · exact List.getElem?_concat_length
    · rw [List.getElem?_append_left (hlt e he)]
      exact h.placed e he
  · refine List.nodup_cons.2 ⟨?_, h.nodup⟩
    intro hmem
    obtain ⟨e, he, heq⟩ := List.mem_map.1 hmem
    exact Nat.ne_of_lt (hlt e he) heq

/-- No action is known more often than it was queued. -/
theorem Numbered.subperm {queued : List Pending} {known : List Entry} (h : Numbered queued known) :
    (known.map fun e => (⟨e.1.due, e.2⟩ : Pending)).Subperm queued := by
  let place (e : Entry) : Pending × Nat := (⟨e.1.due, e.2⟩, e.1.arrival)
  have hnodup : (known.map place).Nodup := by
    apply List.Nodup.of_map Prod.snd
    rw [List.map_map]
    exact h.nodup
  have hsub : known.map place ⊆ queued.zipIdx := by
    intro p hp
    obtain ⟨e, he, rfl⟩ := List.mem_map.1 hp
    exact List.mk_mem_zipIdx_iff_getElem?.2 (h.placed e he)
  obtain ⟨l, hp, hl⟩ := List.subperm_of_subset hnodup hsub
  refine ⟨l.map Prod.fst, ?_, ?_⟩
  · have := hp.map Prod.fst
    rwa [List.map_map] at this
  · have := hl.map Prod.fst
    rwa [List.zipIdx_map_fst] at this

/-- The books of a queue: `queued` are the commands that were followed so far. -/
structure Tally (queued : List Pending) (events : List Event) (s : Scheduler) : Prop where
  received : arms events = queued ++ s.phase.inHand
  arrivals : queued.length = s.queue.arrivals
  numbered : Numbered queued (s.queue.entries ++ handOvers events)

variable {events : List Event} {s s' : Scheduler} {e : Option Event} {queued : List Pending}

theorem Tally.ordered (h : Tally queued events s) : s.queue.Ordered :=
  Queue.ordered_of_numbered h.arrivals fun e he =>
    h.numbered.placed e (List.mem_append_left _ he)

@[simp] theorem phase_send (s : Scheduler) (c : Command) : (s.send c).phase = s.phase := by
  unfold send
  split_ifs <;> rfl

@[simp] theorem queue_send (s : Scheduler) (c : Command) : (s.send c).queue = s.queue := by
  unfold send
  split_ifs <;> rfl

@[simp] theorem actions_send (s : Scheduler) (c : Command) : (s.send c).actions = s.actions := by
  unfold send
  split_ifs <;> rfl

/-- As long as nothing is received, queued or handed over the books stay as they are. -/
theorem Tally.quiet {e : Event} (h : Tally queued events s) (ha : e.arms = [])
    (hh : e.handed? = none) (hi : s'.phase.inHand = s.phase.inHand) (hq : s'.queue = s.queue) :
    Tally queued (e :: events) s' := by
  refine ⟨?_, ?_, ?_⟩
  · rw [arms, ha, List.append_nil, hi, h.received]
  · rw [hq, h.arrivals]
  · rw [hq, handOvers, List.filterMap_cons_none hh]
    exact h.numbered

/-- Whatever happens the books can be kept. -/
theorem exists_tally_of_beat (h : Beat Queue.push s e s') (ht : Tally queued events s) :
    ∃ queued', Tally queued' (e.toList ++ events) s' := by
  cases h with
  | issue => exact ⟨queued, ht.quiet rfl rfl rfl rfl⟩
  | send c => exact ⟨queued, ht.quiet rfl rfl (by rw [phase_send]) (queue_send s c)⟩
  | stop => exact ⟨queued, ht.quiet rfl rfl rfl rfl⟩
  | timeOut hp => exact ⟨queued, ht.quiet rfl rfl (by rw [hp]; rfl) rfl⟩
  | resume hp => exact ⟨queued, ht.quiet rfl rfl (by rw [hp]; rfl) rfl⟩
  | @receive command channel hp =>
    refine ⟨queued, ?_, ht.arrivals, ht.numbered⟩
    simpa [arms, Event.arms, Phase.inHand, hp] using ht.received
  | @queue due task hp =>
    refine ⟨queued ++ [⟨due, task⟩], ?_, ?_, ?_⟩
    · simpa [arms, Event.arms, Phase.inHand, Command.pending, hp] using ht.received
    · rw [List.length_append, ht.arrivals]
      exact (Queue.arrivals_prune s.actions (s.queue.enter due task)).symm
    · have hnew := ht.numbered.enter due task
      rw [ht.arrivals] at hnew
      refine hnew.of_subperm ?_
      have henter := (Queue.entries_enter ht.ordered due task).append_right (handOvers events)
      refine List.Subperm.trans (List.Sublist.subperm ?_) henter.subperm
      exact (Queue.sublist_prune s.actions (s.queue.enter due task)).append_right _
  | halt hp => exact ⟨queued, ht.quiet rfl rfl (by rw [hp]; rfl) rfl⟩
  | look clock hp => exact ⟨queued, ht.quiet rfl rfl (by rw [hp]; rfl) rfl⟩
  | @hand asOf turn task queue hp hq =>
    obtain ⟨hl, -, ha⟩ := Queue.entries_of_popDue? hq
    refine ⟨queued, ?_, ht.arrivals.trans ha.symm, ht.numbered.of_subperm ?_⟩
    · simpa [arms, Event.arms, Phase.inHand, hp] using ht.received
    · rw [hl]
      exact List.perm_middle.subperm
  | rest hp => exact ⟨queued, ht.quiet rfl rfl (by rw [hp]; rfl) rfl⟩
  | @skip asOf turn task queue hp hq =>
    obtain ⟨hl, -, ha⟩ := Queue.entries_of_popDue? hq
    refine ⟨queued, ?_, ht.arrivals.trans ha.symm, ht.numbered.of_subperm ?_⟩
    · simpa [Phase.inHand, hp] using ht.received
    · rw [hl]
      exact (List.sublist_cons_self _ _).subperm

theorem Tally.start : Tally [] [] new.start := by
  have hnone : new.start.queue.entries ++ handOvers [] = [] := rfl
  refine ⟨rfl, rfl, ?_⟩
  rw [hnone]
  exact ⟨by simp, List.nodup_nil⟩

theorem Shift.exists_tally (shift : Shift step? events s) : ∃ queued, Tally queued events s :=
  shift.keeps ⟨[], Tally.start⟩ fun h ⟨_, ht⟩ => exists_tally_of_beat (beat_of_happens_step? h) ht

/-- A sweep goes by the last look at the clock, and what it has handed over goes before all that
it has not. -/
def InOrder (events : List Event) (s : Scheduler) : Prop :=
  ∀ asOf, s.phase.asOf? = some asOf → lastLook? events = some asOf ∧
    ∀ e ∈ handedSince events, ∀ e' ∈ s.queue.entries, e.1.Before e'.1

theorem InOrder.beat (h : Beat Queue.push s e s') (hi : InOrder events s) :
    InOrder (e.toList ++ events) s' := by
  intro asOf ha
  cases h with
  | issue => exact hi asOf ha
  | send c =>
    rw [queue_send]
    exact hi asOf (phase_send s c ▸ ha)
  | stop => exact hi asOf ha
  | timeOut => cases ha
  | resume hp => exact hi asOf (by rw [hp]; exact ha)
  | receive => cases ha
  | queue => cases ha
  | halt => cases ha
  | look clock => exact ⟨ha, fun _ he => nomatch he⟩
  | @hand _ turn task queue hp hq =>
    obtain ⟨hlook, hbefore⟩ := hi asOf (by rw [hp]; exact ha)
    refine ⟨hlook, fun e he e' he' => ?_⟩
    rcases List.mem_cons.1 he with rfl | he
    · exact Queue.before_of_popDue? hq e' he'
    · refine hbefore e he e' ?_
      rw [(Queue.entries_of_popDue? hq).1]
      exact List.mem_cons_of_mem _ he'
  | rest => cases ha
  | skip hp hq =>
    obtain ⟨hlook, hbefore⟩ := hi asOf (by rw [hp]; exact ha)
    refine ⟨hlook, fun e he e' he' => hbefore e he e' ?_⟩
    rw [(Queue.entries_of_popDue? hq).1]
    exact List.mem_cons_of_mem _ he'

theorem Shift.inOrder (shift : Shift step? events s) : InOrder events s :=
  shift.keeps (fun _ ha => nomatch ha) fun h hi => hi.beat (beat_of_happens_step? h)

/-- An action that was stopped stays stopped. -/
theorem Shift.isArmed_of_stopped (shift : Shift step? events s) :
    ∀ h, .stopped h ∈ events → s.isArmed h = false := by
  refine shift.keeps (fun _ hmem => nomatch hmem) ?_
  intro events s e s' hb hi h hmem
  cases beat_of_happens_step? hb with
  | send c =>
    rw [isArmed, actions_send]
    exact hi h (by simpa using hmem)
  | stop g =>
    rw [Bool.eq_false_iff]
    intro harmed
    obtain ⟨hs, hne⟩ := (Actions.isArmed_disarm s.actions g h).1 harmed
    rcases List.mem_cons.1 hmem with heq | hmem
    · cases heq
      exact hne rfl
    · exact Bool.eq_false_iff.1 (hi h hmem) hs
  | _ => exact hi h (by simpa using hmem)

/-- A worker that was told to stop does nothing more. -/
theorem Shift.stops_of_shutdown (shift : Shift step? events s)
    (h : .received .shutdown ∈ events) : s.phase = .received .shutdown ∨ s.phase = .stopped := by
  revert h
  refine shift.keeps (fun hmem => nomatch hmem) ?_
  intro events s e s' hb hi hmem
  cases beat_of_happens_step? hb with
  | issue => exact hi (by simpa using hmem)
  | send c =>
    rw [phase_send]
    exact hi (by simpa using hmem)
  | stop => exact hi (by simpa using hmem)
  | halt => exact Or.inr rfl
  | @receive command channel hp =>
    rcases List.mem_cons.1 hmem with heq | hmem
    · cases heq
      exact Or.inl rfl
    · rcases hi hmem with hp' | hp' <;> rw [hp] at hp' <;> cases hp'
  | timeOut hp | resume hp | queue hp | look _ hp | hand hp | rest hp | skip hp =>
    rcases hi (by simpa using hmem) with hp' | hp' <;> rw [hp] at hp' <;> cases hp'

/-- What is handed over was due and armed, and it has just left the queue. -/
theorem Shift.exists_sweep {past : List Event} {turn : Turn} {task : Task}
    (shift : Shift step? (.handed turn task :: past) s) :
    ∃ before asOf, Shift step? past before ∧ before.phase = .sweeping asOf ∧
      before.queue.popDue? asOf = some ((turn, task), s.queue) ∧
      before.isArmed task.handle = true := by
  obtain ⟨before, after, hpast, hlast, hrest⟩ := shift.exists_last
  cases beat_of_happens_step? hlast with
  | @hand asOf _ _ queue hp hq ha =>
    rcases hrest.cases_head with rfl | ⟨next, hnext, -⟩
    · exact ⟨before, asOf, hpast, hp, hq, ha⟩
    · -- the action is still in the hands of the owner
      cases beat_of_happens_step? hnext with
      | skip hp => cases hp

/-- What holds of an action that is handed over after all of `past`, with `left` in the queue. -/
structure Timely (past : List Event) (turn : Turn) (task : Task) (left : Queue) : Prop where
  commanded : (arms past)[turn.arrival]? = some ⟨turn.due, task⟩
  due : ∃ clock, lastLook? past = some clock ∧ turn.due ≤ clock
  armed : ∀ h, .stopped h ∈ past → h.same task.handle = false
  unclosed : .received .shutdown ∉ past
  first : ∀ e ∈ left.entries, turn.Before e.1
  inOrder : ∀ e ∈ handedSince past, e.1.Before turn

theorem Shift.timely {past : List Event} {turn : Turn} {task : Task}
    (shift : Shift step? (.handed turn task :: past) s) : Timely past turn task s.queue := by
  obtain ⟨before, asOf, shift, hp, hq, ha⟩ := shift.exists_sweep
  obtain ⟨hl, hdue, -⟩ := Queue.entries_of_popDue? hq
  have hmem : (turn, task) ∈ before.queue.entries := hl ▸ List.mem_cons_self
  obtain ⟨hlook, hbefore⟩ := shift.inOrder asOf (by rw [hp]; rfl)
  refine ⟨?_, ⟨asOf, hlook, hdue⟩, ?_, ?_, Queue.before_of_popDue? hq, ?_⟩
  · obtain ⟨queued, ht⟩ := shift.exists_tally
    have hreceived : arms past = queued := by
      simpa [hp, Phase.inHand] using ht.received
    rw [hreceived]
    exact ht.numbered.placed _ (List.mem_append_left _ hmem)
  · intro h hstopped
    rw [Bool.eq_false_iff]
    intro hsame
    have hnot := shift.isArmed_of_stopped h hstopped
    rw [isArmed, Actions.isArmed_of_same hsame] at hnot
    exact Bool.eq_false_iff.1 hnot ha
  · intro hshutdown
    rcases shift.stops_of_shutdown hshutdown with h | h <;> rw [hp] at h <;> cases h
  · exact fun e he => hbefore e he _ hmem

/-- Whatever happens around a worker, it hands every action over at most once, for the command
with its number; only when the clock has shown a time at which it is due; only while it is armed
and no shutdown was received; and before all that is still queued, so that one sweep goes by the
times and, where these are equal, by the order of the commands. -/
theorem Shift.handed_once_in_turn {events : List Event} {s : Scheduler}
    (shift : Shift step? events s) :
    ((handOvers events).map fun e => e.1.arrival).Nodup ∧
    ((handOvers events).map fun e => (⟨e.1.due, e.2⟩ : Pending)).Subperm (arms events) ∧
    ∀ (later : List Event) (turn : Turn) (task : Task) (past : List Event),
      events = later ++ .handed turn task :: past →
      (∃ s', Shift step? (.handed turn task :: past) s') ∧
      ∀ s', Shift step? (.handed turn task :: past) s' → Timely past turn task s'.queue := by
  obtain ⟨queued, ht⟩ := shift.exists_tally
  have hnumbered : Numbered queued (handOvers events) :=
    ht.numbered.of_subperm (List.sublist_append_right _ _).subperm
  refine ⟨hnumbered.nodup, ?_, ?_⟩
  · rw [ht.received]
    exact hnumbered.subperm.trans (List.sublist_append_left _ _).subperm
  · rintro later turn task past rfl
    exact ⟨shift.of_append, fun s' shift' => shift'.timely⟩

/-- The action that was armed second is due first, and stopped by its owner once it has it. -/
theorem Shift.handed_once_in_turn_of_two :
    let task (i : Nat) : Task := ⟨⟨.ofNat i⟩, ⟨i, default⟩⟩
    ∃ past s, Shift step? (.handed ⟨5, 0⟩ (task 0) :: past) s ∧
      arms past = [⟨5, task 0⟩, ⟨3, task 1⟩] ∧ handedSince past = [(⟨3, 1⟩, task 1)] ∧
      .stopped (task 1).handle ∈ past ∧
      ((handOvers (.handed ⟨5, 0⟩ (task 0) :: past)).map fun e => e.1.arrival).Nodup ∧
      Timely past ⟨5, 0⟩ (task 0) s.queue := by
  intro task
  obtain ⟨past, s, shift, hpast⟩ : ∃ past s, Shift step? (.handed ⟨5, 0⟩ (task 0) :: past) s ∧
      past = [.returned, .stopped (task 1).handle, .handed ⟨3, 1⟩ (task 1), .looked 6, .queued,
        .received (.arm 3 (task 1)), .sent (.arm 3 (task 1)), .rested, .looked 0, .queued,
        .received (.arm 5 (task 0)), .sent (.arm 5 (task 0))] := by
    have start : Shift step? [] new.start := .nil
    have first := (start.seen (.send (.arm 5 (task 0)))).worked 0 4
    have second := ((first.seen (.send (.arm 3 (task 1)))).worked 6 4).seen (.stop (task 1).handle)
    have done := second.worked 6 2
    rw [show (workOnto step? 6 2 _ _).1 = _ by cbv] at done
    exact ⟨_, _, done, rfl⟩
  obtain ⟨hnodup, -, htimely⟩ := shift.handed_once_in_turn
  refine ⟨past, s, shift, ?_, ?_, ?_, hnodup, (htimely [] _ _ past rfl).2 s shift⟩ <;> subst hpast
  · rfl
  · rfl
  · simp
end Scheduler

end AlertSilences
