import AlertSilences.Expiry.Scheduler
import AlertSilences.Proofs.OrderedMap
import Mathlib.Data.List.Perm.Basic

/-! The actions that a worker still has before it: commands on their way, entries of the
queue, and the one it has in hand. A step of the worker moves them on. It lets go of a
stopped one, and of an armed one only by handing it over. -/

namespace AlertSilences

/-- An action that the worker is not done with, and when it is due. -/
structure Pending where
  due : Int
  task : Task
deriving DecidableEq

def Command.pending : Command → List Pending
  | .arm due task => [⟨due, task⟩]
  | .shutdown => []

def Phase.pending : Phase → List Pending
  | .received command => command.pending
  | .delivering _ turn task => [⟨turn.due, task⟩]
  | _ => []

/-- Phases of a worker that has begun and was not told to stop. -/
def Phase.working : Phase → Bool
  | .waiting | .received (.arm ..) | .checking | .sweeping _ | .delivering .. => true
  | _ => false

theorem Phase.listens_of_working {p : Phase} (h : p.working = true) : p.listens = true := by
  cases p <;> first | rfl | cases h

/-- The order of the queue: by the time, then by the arrival. -/
def Turn.Before (a b : Turn) : Prop := a.due < b.due ∨ a.due = b.due ∧ a.arrival < b.arrival

theorem Turn.before_of_lt {a b : Turn} (h : compare a b = .lt) : a.Before b := by
  change (compare a.due b.due).then (compare a.arrival b.arrival) = .lt at h
  rcases Ordering.then_eq_lt.1 h with h | ⟨h, h'⟩
  · exact Or.inl (Int.compare_eq_lt.1 h)
  · exact Or.inr ⟨Int.compare_eq_eq.1 h, Nat.compare_eq_lt.1 h'⟩

theorem Turn.due_le_of_lt {a b : Turn} (h : compare a b = .lt) : a.due ≤ b.due := by
  rcases before_of_lt h with h | ⟨h, -⟩
  · exact Int.le_of_lt h
  · exact Int.le_of_eq h

namespace Queue

def pending (q : Queue) : List Pending := q.entries.map fun e => ⟨e.1.due, e.2⟩

/-- Every entry arrived before the one that comes next. -/
def Ordered (q : Queue) : Prop := ∀ e ∈ q.entries, e.1.arrival < q.arrivals

theorem entries_enter {q : Queue} (h : q.Ordered) (due : Int) (task : Task) :
    (q.enter due task).entries.Perm ((⟨due, q.arrivals⟩, task) :: q.entries) := by
  apply OrderedMap.toList_insert_perm
  rw [Option.eq_none_iff_forall_ne_some]
  intro other hother
  have := h _ (Std.ExtTreeMap.mem_toList_iff_getElem?_eq_some.2 hother)
  exact Nat.lt_irrefl _ this

theorem pending_enter {q : Queue} (h : q.Ordered) (due : Int) (task : Task) :
    (q.enter due task).pending.Perm (⟨due, task⟩ :: q.pending) :=
  (entries_enter h due task).map _

theorem ordered_enter {q : Queue} (h : q.Ordered) (due : Int) (task : Task) :
    (q.enter due task).Ordered := by
  intro e he
  change _ < q.arrivals + 1
  rcases List.mem_cons.1 ((entries_enter h due task).subset he) with rfl | he
  · exact Nat.lt_succ_self _
  · exact Nat.lt_succ_of_lt (h e he)

/-- Pruning keeps all entries or just the armed ones. -/
theorem entries_prune (actions : Actions) (q : Queue) :
    (q.prune actions).entries = q.entries ∨
      (q.prune actions).entries = q.entries.filter fun e => actions.isArmed e.2.handle := by
  unfold prune
  split_ifs
  · exact Or.inl rfl
  · exact Or.inr Std.ExtTreeMap.toList_filter

theorem sublist_prune (actions : Actions) (q : Queue) :
    (q.prune actions).entries.Sublist q.entries := by
  rcases entries_prune actions q with h | h
  · rw [h]
  · rw [h]
    exact List.filter_sublist

@[simp] theorem arrivals_prune (actions : Actions) (q : Queue) :
    (q.prune actions).arrivals = q.arrivals := by
  unfold prune
  split_ifs <;> rfl

theorem ordered_prune {q : Queue} (h : q.Ordered) (actions : Actions) :
    (q.prune actions).Ordered := by
  intro e he
  rw [arrivals_prune]
  exact h e ((sublist_prune actions q).subset he)

/-- What a pruning drops is stopped. -/
theorem pending_prune (actions : Actions) (q : Queue) :
    ∃ dropped, q.pending.Perm (dropped ++ (q.prune actions).pending) ∧
      ∀ p ∈ dropped, actions.isArmed p.task.handle = false := by
  rcases entries_prune actions q with heq | heq
  · exact ⟨[], by simp [pending, heq], by simp⟩
  · refine ⟨(q.entries.filter fun e => !actions.isArmed e.2.handle).map fun e => ⟨e.1.due, e.2⟩, ?_, ?_⟩
    · rw [pending, pending, heq, ← List.map_append]
      exact ((List.filter_append_perm _ _).symm.trans List.perm_append_comm).map _
    · intro p hp
      obtain ⟨e, he, rfl⟩ := List.mem_map.1 hp
      simpa using (List.mem_filter.1 he).2

/-- An action that is popped was the first of the queue, and it was due. -/
theorem entries_of_popDue? {q q' : Queue} {now : Int} {e : Entry}
    (h : q.popDue? now = some (e, q')) :
    q.entries = e :: q'.entries ∧ e.1.due ≤ now ∧ q'.arrivals = q.arrivals := by
  rw [popDue?, OrderedMap.minEntry?_eq_head?] at h
  cases hl : q.tasks.toList with
  | nil => simp [hl] at h
  | cons first rest =>
    simp only [hl, List.head?_cons, Option.ite_none_right_eq_some, Option.some.injEq,
      Prod.mk.injEq] at h
    obtain ⟨hdue, rfl, rfl⟩ := h
    refine ⟨?_, hdue, rfl⟩
    rw [entries, hl, entries, OrderedMap.toList_erase_head hl]

/-- If nothing is popped, nothing is due. -/
theorem lt_due_of_popDue?_eq_none {q : Queue} {now : Int} (h : q.popDue? now = none) :
    ∀ p ∈ q.pending, now < p.due := by
  rw [popDue?, OrderedMap.minEntry?_eq_head?] at h
  intro p hp
  obtain ⟨e, he, rfl⟩ := List.mem_map.1 hp
  have ho := q.tasks.ordered_keys_toList
  rw [entries] at he
  cases hl : q.tasks.toList with
  | nil => simp [hl] at he
  | cons first rest =>
    rw [hl] at he ho h
    have hfirst : now < first.1.due := by simpa using h
    rcases List.mem_cons.1 he with rfl | he
    · exact hfirst
    · exact Int.lt_of_lt_of_le hfirst (Turn.due_le_of_lt ((List.pairwise_cons.1 ho).1 e he))

/-- Nothing is popped before it is due. -/
theorem popDue?_eq_none {q : Queue} {now : Int} (h : ∀ e ∈ q.entries, now < e.1.due) :
    q.popDue? now = none := by
  rw [Option.eq_none_iff_forall_ne_some]
  rintro ⟨e, q'⟩ hq
  obtain ⟨hl, hdue, -⟩ := entries_of_popDue? hq
  have hlater := h e (hl ▸ List.mem_cons_self)
  omega

theorem ordered_of_popDue? {q q' : Queue} {now : Int} {e : Entry} (ho : q.Ordered)
    (h : q.popDue? now = some (e, q')) : q'.Ordered := by
  obtain ⟨hl, -, ha⟩ := entries_of_popDue? h
  intro a ha'
  rw [ha]
  exact ho a (hl ▸ List.mem_cons_of_mem _ ha')

end Queue

namespace Scheduler

def pending (s : Scheduler) : List Pending :=
  s.phase.pending ++ s.queue.pending ++ s.channel.toList.flatMap Command.pending

inductive Advance (now : Int) (s : Scheduler) : Scheduler → Log → Prop
  | receive {command channel} (hp : s.phase = .waiting)
      (hc : s.channel.receive? = some (command, channel)) :
      Advance now s { s with channel, phase := .received command } []
  | wake (hp : s.phase = .waiting) (hc : s.channel.receive? = none)
      (hq : (s.queue.popDue? now).isSome) : Advance now s { s with phase := .checking } []
  | push {due task} (hp : s.phase = .received (.arm due task)) :
      Advance now s { s with queue := s.queue.push s.actions due task, phase := .checking } []
  | halt (hp : s.phase = .received .shutdown) :
      Advance now s { s with phase := .stopped } [.workerStopped]
  | look (hp : s.phase = .checking) : Advance now s { s with phase := .sweeping now } []
  | rest {asOf} (hp : s.phase = .sweeping asOf) (hq : s.queue.popDue? asOf = none) :
      Advance now s { s with phase := .waiting } []
  | hand {asOf turn task queue} (hp : s.phase = .sweeping asOf)
      (hq : s.queue.popDue? asOf = some ((turn, task), queue))
      (ha : s.isArmed task.handle = true) :
      Advance now s { s with queue, phase := .delivering asOf turn task } []
  | skip {asOf turn task queue} (hp : s.phase = .sweeping asOf)
      (hq : s.queue.popDue? asOf = some ((turn, task), queue))
      (ha : s.isArmed task.handle = false) :
      Advance now s { s with queue, phase := .sweeping asOf } []

theorem advance_of_step? {now : Int} {s s' : Scheduler} {log : Log}
    (h : s.step? now = some (s', log)) : s.Advance now s' log := by
  unfold step? at h
  split at h
  case h_1 hp =>
    split at h
    · rename_i hc
      cases h
      exact .receive hp hc
    · rename_i hc
      split_ifs at h with hq
      cases h
      exact .wake hp hc hq
  case h_2 hp => cases h; exact .push hp
  case h_3 hp => cases h; exact .look hp
  case h_4 hp => cases h; exact .halt hp
  case h_5 asOf hp =>
    split at h
    · rename_i hq
      cases h
      exact .rest hp hq
    · rename_i turn task queue hq
      cases h
      split_ifs with ha
      · exact .hand hp hq ha
      · exact .skip hp hq (Bool.eq_false_iff.2 ha)
  case h_6 => cases h

/-- A worker at work on commands that are all actions to arm. -/
structure Sound (s : Scheduler) : Prop where
  working : s.phase.working = true
  commands : ∀ c ∈ s.channel.toList, c ≠ .shutdown
  ordered : s.queue.Ordered

theorem Sound.send {s : Scheduler} (h : s.Sound) (actions : Actions) (due : Int) (task : Task) :
    { s with actions, channel := s.channel.send (.arm due task) }.Sound := by
  refine ⟨h.working, ?_, h.ordered⟩
  intro c hc
  rw [Channel.toList_send] at hc
  rcases List.mem_append.1 hc with hc | hc
  · exact h.commands c hc
  · rw [List.mem_singleton.1 hc]
    exact nofun

theorem Advance.sound {now : Int} {s s' : Scheduler} {log : Log} (h : s.Advance now s' log)
    (hs : s.Sound) : s'.Sound := by
  cases h with
  | @receive command channel hp hc =>
    have hl := Channel.toList_of_receive? hc
    have hcmd : command ≠ .shutdown := hs.commands _ (hl ▸ List.mem_cons_self)
    refine ⟨?_, fun c h => hs.commands c (hl ▸ List.mem_cons_of_mem _ h), hs.ordered⟩
    cases command with
    | arm due task => rfl
    | shutdown => exact absurd rfl hcmd
  | wake => exact ⟨rfl, hs.commands, hs.ordered⟩
  | push => exact ⟨rfl, hs.commands, Queue.ordered_prune (Queue.ordered_enter hs.ordered _ _) _⟩
  | halt hp => exact absurd hs.working (by simp [hp, Phase.working])
  | look => exact ⟨rfl, hs.commands, hs.ordered⟩
  | rest => exact ⟨rfl, hs.commands, hs.ordered⟩
  | hand hp hq => exact ⟨rfl, hs.commands, Queue.ordered_of_popDue? hs.ordered hq⟩
  | skip hp hq => exact ⟨rfl, hs.commands, Queue.ordered_of_popDue? hs.ordered hq⟩

theorem Advance.actions_eq {now : Int} {s s' : Scheduler} {log : Log} (h : s.Advance now s' log) :
    s'.actions = s.actions := by
  cases h <;> rfl

/-- No step lets go of an armed action. -/
theorem Advance.pending_perm {now : Int} {s s' : Scheduler} {log : Log}
    (h : s.Advance now s' log) (hs : s.Sound) :
    ∃ dropped, s.pending.Perm (dropped ++ s'.pending) ∧
      ∀ p ∈ dropped, s.isArmed p.task.handle = false := by
  unfold pending
  cases h with
  | receive hp hc =>
    refine ⟨[], ?_, by simp⟩
    rw [hp, Channel.toList_of_receive? hc]
    simp only [Phase.pending, List.flatMap_cons, List.nil_append, List.append_assoc]
    exact List.perm_append_comm_assoc _ _ _
  | wake hp => exact ⟨[], by simp [hp, Phase.pending], by simp⟩
  | @push due task hp =>
    obtain ⟨dropped, hperm, hstop⟩ :=
      Queue.pending_prune s.actions (s.queue.enter due task)
    refine ⟨dropped, ?_, hstop⟩
    have henter := (Queue.pending_enter hs.ordered due task).symm.trans hperm
    simp only [hp, Phase.pending, Command.pending, List.nil_append, List.singleton_append]
    rw [← List.append_assoc]
    exact henter.append_right _
  | halt hp => exact absurd hs.working (by simp [hp, Phase.working])
  | look hp => exact ⟨[], by simp [hp, Phase.pending], by simp⟩
  | rest hp => exact ⟨[], by simp [hp, Phase.pending], by simp⟩
  | hand hp hq =>
    refine ⟨[], ?_, by simp⟩
    simp [hp, Phase.pending, Queue.pending, (Queue.entries_of_popDue? hq).1]
  | @skip asOf turn task queue hp hq ha =>
    refine ⟨[⟨turn.due, task⟩], ?_, by simpa using ha⟩
    simp [hp, Phase.pending, Queue.pending, (Queue.entries_of_popDue? hq).1]

end Scheduler

end AlertSilences
