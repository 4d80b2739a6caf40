import AlertSilences.Proofs.Closing

/-! The callback of an action, for whatever id and action it is called. It removes a record together
with its own armed action or does nothing, and it does so once: no number is issued twice and what
is stopped stays so, thus an action that is not that of a record now never becomes it. -/

namespace AlertSilences

namespace Registry

/-- What stays true of a registry and one that came out of it: numbers of actions go up, nothing is
armed again, and what is stored is old or has a new action. -/
structure Precedes (r r' : Registry) : Prop where
  issued : r.scheduler.actions.issued ≤ r'.scheduler.actions.issued
  isArmed : ∀ g, r'.isArmed g = true → r.isArmed g = true
  stored : ∀ (id : SilenceId) (stored : Stored), r'.records[id]? = some stored →
    r.records[id]? = some stored ∨ r.scheduler.actions.issued ≤ stored.handle.index

theorem Precedes.refl (r : Registry) : r.Precedes r := ⟨le_rfl, fun _ => id, fun _ _ => .inl⟩

theorem Precedes.trans {a b c : Registry} (h : a.Precedes b) (h' : b.Precedes c) :
    a.Precedes c := by
  refine ⟨h.issued.trans h'.issued, fun g hg => ?_, fun id stored hr => ?_⟩
  · exact h.isArmed g (h'.isArmed g hg)
  · rcases h'.stored id stored hr with hr | hnew
    · exact h.stored id stored hr
    · exact .inr (h.issued.trans hnew)

theorem precedes_removeRecord (r : Registry) (id : SilenceId) : r.Precedes (r.removeRecord id) := by
  refine ⟨(issued_removeRecord r id).ge, fun g hg => ((isArmed_removeRecord r id g).1 hg).1, ?_⟩
  intro other stored hr
  rw [records_removeRecord, OrderedMap.getElem?_erase] at hr
  split_ifs at hr
  exact .inl hr

theorem precedes_stopAll (r : Registry) (hs : List Handle) : r.Precedes (r.stopAll hs) := by
  obtain ⟨stopped, he⟩ := stopAll_eq r hs
  refine ⟨by rw [he], fun g hg => ((isArmed_stopAll r hs g).1 hg).1, fun id stored hr => ?_⟩
  rw [he] at hr
  exact .inl hr

theorem precedes_put {r : Registry} (hl : r.scheduler.phase.listens = true) (lastId : SilenceId)
    (now : Instant) (s : Silence) : r.Precedes ({ r with lastId }.put now s) := by
  have hl' : { r with lastId }.scheduler.phase.listens = true := hl
  refine ⟨?_, fun g hg => ?_, fun id stored hr => ?_⟩
  · rw [issued_put hl']
    exact Nat.le_succ _
  · rw [isArmed_put hl'] at hg
    exact ((isArmed_removeRecord _ s.id g).1 hg).1
  · rw [records_put, OrderedMap.getElem?_insert] at hr
    split_ifs at hr
    · rw [← Option.some.inj hr]
      exact .inr le_rfl
    · exact .inl hr

theorem Effect.precedes {now : Instant} {r r' : Registry} {call : Call} (h : r.Effect now call r')
    (hl : r.scheduler.phase.listens = true) : r.Precedes r' := by
  cases h with
  | none => exact .refl r
  | @put s _ lastId => exact precedes_put hl lastId now s
  | remove _ _ id => exact precedes_removeRecord r id
  | close => exact precedes_stopAll r r.handles
  | clear =>
    have h := precedes_stopAll r r.handles
    exact ⟨h.issued, h.isArmed, fun id stored hr => absurd hr (by simp)⟩

theorem Work.precedes {now : Instant} {r r' : Registry} {log : Log} (h : r.Work now r' log) :
    r.Precedes r' := by
  have harmed := fun g => h.isArmed_imp (g := g)
  cases h with
  | advance ha => exact ⟨(congrArg Actions.issued ha.actions_eq).ge, harmed, fun _ _ => .inl⟩
  | @expire _ _ task =>
    have h := precedes_removeRecord r task.id
    exact ⟨h.issued, harmed, h.stored⟩
  | pass => exact ⟨le_rfl, harmed, fun _ _ => .inl⟩

theorem Step.precedes {r r' : Registry} {m : Moment} (h : r.Step r' m) (hc : r.Coupled) :
    r.Precedes r' := by
  rcases answers_or_work_of_step h with ⟨client, call, -, ha⟩ | ⟨-, hw⟩
  · exact (effect_of_answers ha).precedes (Phase.listens_of_working hc.sound.working)
  · exact hw.precedes

/-- An action that was issued and is not that of the record under an id does not become it. -/
theorem Precedes.not_isCurrent {r r' : Registry} (h : r.Precedes r') {task : Task}
    (hissued : task.handle.index < r.scheduler.actions.issued) (hc : ¬r.IsCurrent task) :
    ¬r'.IsCurrent task := by
  rintro ⟨stored, hr, hsame, harm⟩
  rcases h.stored _ _ hr with hr | hnew
  · exact hc ⟨stored, hr, hsame, h.isArmed _ harm⟩
  -- what was stored in between has an action that was issued in between
  · have hindex := Handle.same_iff.1 hsame
    omega

/-- A callback removes a record with its action, or it changes nothing. -/
theorem registry_expire (r : Registry) (id : SilenceId) (handle : Handle) :
    r.IsCurrent ⟨id, handle⟩ ∧ (r.expire id handle).1 = r.removeRecord id ∨
      ¬r.IsCurrent ⟨id, handle⟩ ∧ (r.expire id handle).1 = r := by
  by_cases hc : r.IsCurrent ⟨id, handle⟩
  · exact .inl ⟨hc, congrArg Prod.fst (expire_of_isCurrent hc)⟩
  · refine .inr ⟨hc, ?_⟩
    rcases expire_of_not_isCurrent hc with he | he <;> exact congrArg Prod.fst he

/-- What may become of a registry: clients call, the worker takes steps, and besides there may be
callbacks for any id and action. -/
inductive Later (r : Registry) : Registry → Prop
  | refl : Later r r
  | step {q q' m} (later : Later r q) (h : q.Step q' m) : Later r q'
  | callback {q} (later : Later r q) (id : SilenceId) (handle : Handle) :
      Later r (q.expire id handle).1

theorem Coupled.expire {r : Registry} (h : r.Coupled) (id : SilenceId) (handle : Handle) :
    (r.expire id handle).1.Coupled := by
  rcases registry_expire r id handle with ⟨-, he⟩ | ⟨-, he⟩ <;> rw [he]
  · exact h.removeRecord id
  · exact h

theorem precedes_expire (r : Registry) (id : SilenceId) (handle : Handle) :
    r.Precedes (r.expire id handle).1 := by
  rcases registry_expire r id handle with ⟨-, he⟩ | ⟨-, he⟩ <;> rw [he]
  · exact precedes_removeRecord r id
  · exact .refl r

theorem Later.coupled {r q : Registry} (h : r.Later q) (hc : r.Coupled) : q.Coupled := by
  induction h with
  | refl => exact hc
  | step _ hs ih => exact ih.step hs
  | callback _ id handle ih => exact ih.expire id handle

theorem Later.precedes {r q : Registry} (h : r.Later q) (hc : r.Coupled) : r.Precedes q := by
  induction h with
  | refl => exact .refl r
  | step later hs ih => exact ih.trans (hs.precedes (later.coupled hc))
  | callback _ id handle ih => exact ih.trans (precedes_expire _ id handle)

theorem Later.add {r q : Registry} (h : r.Later q) (now : Instant) (s : Silence) :
    r.Later (q.add now s).registry :=
  h.step (m := ⟨now, .call 0 (.add s (q.add now s).answer), (q.add now s).log⟩)
    (answers_add now s q)

/-- After a callback its action is not that of the record any more, if it was. -/
theorem not_isCurrent_expire (r : Registry) (id : SilenceId) (handle : Handle) :
    ¬(r.expire id handle).1.IsCurrent ⟨id, handle⟩ := by
  rcases registry_expire r id handle with ⟨-, he⟩ | ⟨hc, he⟩ <;> rw [he]
  · rintro ⟨stored, hr, -⟩
    rw [records_removeRecord, OrderedMap.getElem?_erase, if_pos rfl] at hr
    cases hr
  · exact hc

/-- The record of a task is gone with its action, and nothing else has changed. -/
structure Fired (r : Registry) (task : Task) (r' : Registry) : Prop where
  records : r'.records = r.records.erase task.id
  lastId : r'.lastId = r.lastId
  isArmed : ∀ g, r'.isArmed g = (r.isArmed g && !g.same task.handle)
  pending : r'.pending = r.pending

theorem IsCurrent.fired {r : Registry} {task : Task} (h : r.IsCurrent task) :
    r.Fired task (r.removeRecord task.id) := by
  refine ⟨records_removeRecord r _, lastId_removeRecord r _, fun g => ?_, pending_removeRecord r _⟩
  obtain ⟨stored, hr, hsame, -⟩ := h
  have hindex := Handle.same_iff.1 hsame
  have hother : (∀ s, r.records[task.id]? = some s → s.handle.index ≠ g.index) ↔
      g.same task.handle = false := by
    simp only [hr, Option.some.injEq, forall_eq', hindex, Handle.same, beq_eq_false_iff_ne]
    exact ne_comm
  rw [Bool.eq_iff_iff, isArmed_removeRecord, hother]
  simp

end Registry

theorem Run.later {history : History} {r : Registry} (run : Run history r) :
    Registry.empty.Later r := by
  induction run with
  | nil => exact .refl
  | snoc _ step ih => exact ih.step step

/-- In whatever state a callback comes, it removes the record under its id exactly if that has the
action of the callback and the action is armed; then the record goes and the action is stopped, and
otherwise nothing changes. The same callback does nothing at any later time, whatever happens in
between. -/
theorem callback_exact {r : Registry} (reached : Registry.empty.Later r) (id : SilenceId)
    {handle : Handle} (issued : handle.index < r.scheduler.actions.issued) :
    ((r.records[id]?.isSome ∧ (r.expire id handle).1.records[id]? = none) ↔
      ∃ stored, r.records[id]? = some stored ∧ stored.handle.same handle = true ∧
        r.isArmed handle = true) ∧
    (r.IsCurrent ⟨id, handle⟩ → r.Fired ⟨id, handle⟩ (r.expire id handle).1) ∧
    (¬r.IsCurrent ⟨id, handle⟩ → (r.expire id handle).1 = r) ∧
    ∀ later, (r.expire id handle).1.Later later → (later.expire id handle).1 = later := by
  have hc := reached.coupled Registry.coupled_empty
  have hissued := issued.trans_le (Registry.precedes_expire r id handle).issued
  have hfree := r.not_isCurrent_expire id handle
  -- the action is not current after the callback, whether it was before or not
  have hagain : ∀ later, (r.expire id handle).1.Later later →
      (later.expire id handle).1 = later := by
    intro later hlater
    have hlate := (hlater.precedes (hc.expire id handle)).not_isCurrent hissued hfree
    obtain ⟨hcurrent, -⟩ | ⟨-, he⟩ := later.registry_expire id handle
    · exact absurd hcurrent hlate
    · exact he
  obtain ⟨hcurrent, he⟩ | ⟨hstale, he⟩ := r.registry_expire id handle
  · have hfired : r.Fired ⟨id, handle⟩ (r.expire id handle).1 := he ▸ hcurrent.fired
    refine ⟨⟨fun _ => hcurrent, fun _ => ?_⟩, fun _ => hfired, fun h => absurd hcurrent h, hagain⟩
    obtain ⟨stored, hr, -⟩ := hcurrent
    rw [hfired.records, OrderedMap.getElem?_erase, if_pos rfl]
    exact ⟨Option.isSome_of_eq_some hr, rfl⟩
  · refine ⟨⟨?_, fun h => absurd h hstale⟩, fun h => absurd h hstale, fun _ => he, hagain⟩
    rintro ⟨hthere, hgone⟩
    rw [he] at hgone
    rw [hgone] at hthere
    cases hthere

/-- The action of one silence does nothing to another; it removes its own, and nothing of what is
stored under the same id afterwards. -/
theorem callback_exact_for_reused_id :
    let s : Silence := .new default "ops" default
    let first : Handle := ⟨0, default⟩
    let r := ((Registry.empty.add default s).registry.add default s).registry
    let gone := (r.expire ⟨1⟩ first).1
    let reused := (gone.add default (s.withId ⟨1⟩)).registry
    Registry.empty.Later r ∧ first.index < r.scheduler.actions.issued ∧ r.size = 2 ∧
      (r.expire ⟨2⟩ first).1 = r ∧ r.Fired ⟨⟨1⟩, first⟩ gone ∧ gone.isArmed first = false ∧
      reused.size = 2 ∧ (reused.expire ⟨1⟩ first).1 = reused := by
  intro s first r gone reused
  have reached : Registry.empty.Later r := ((Run.nil.add 0 default s).add 1 default s).later
  have hfacts : r.scheduler.actions.issued = 2 ∧ r.size = 2 ∧ reused.size = 2 ∧
      r.records[(⟨1⟩ : SilenceId)]? = some ⟨s.withId ⟨1⟩, first⟩ ∧
      r.records[(⟨2⟩ : SilenceId)]? = some ⟨s.withId ⟨2⟩, ⟨1, default⟩⟩ ∧
      r.isArmed first = true := by
    dsimp only [reused, gone, r, first, s]
    decide +kernel
  obtain ⟨hissued, hsize, hsize', hfirst, hsecond, harm⟩ := hfacts
  have issued : first.index < r.scheduler.actions.issued := hissued ▸ Nat.two_pos
  have hcurrent : r.IsCurrent ⟨⟨1⟩, first⟩ := ⟨_, hfirst, rfl, harm⟩
  have hother : ¬r.IsCurrent ⟨⟨2⟩, first⟩ := by
    rintro ⟨stored, hr, hsame, -⟩
    obtain rfl := Option.some.inj (hsecond.symm.trans hr)
    cases hsame
  obtain ⟨-, hfired, -, hagain⟩ := callback_exact reached ⟨1⟩ issued
  obtain ⟨-, -, hsame, -⟩ := callback_exact reached ⟨2⟩ issued
  have hreused : gone.Later reused := Registry.Later.refl.add default (s.withId ⟨1⟩)
  refine ⟨reached, issued, hsize, hsame hother, hfired hcurrent, ?_, hsize', hagain _ hreused⟩
  rw [(hfired hcurrent).isArmed]
  simp [Handle.same]

end AlertSilences
