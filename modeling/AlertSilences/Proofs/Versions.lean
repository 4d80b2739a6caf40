import AlertSilences.Proofs.Timing
import Mathlib.Tactic

/-! Whatever goes by itself is due and current. A history tells of every id which silence was
written under it last, which write that was, and whether the registry was closed since. A
record is always that version, its action carries the number of the write, and it is armed
unless there was a close. Together with the times at which things are due this says what the
worker can remove. -/

namespace AlertSilences

/-- A silence as it was written, the number of the write, and whether a close came after it. -/
structure Version where
  silence : Silence
  number : Nat
  closed : Bool
deriving DecidableEq

def Move.written? : Move → Option Silence
  | .call _ c => c.written?
  | .work => none

def Move.closes : Move → Bool
  | .call _ .close => true
  | _ => false

namespace History

def writes (history : History) : Nat := history.countP fun m => m.move.written?.isSome

/-- What was written last under an id. -/
def latest? (id : SilenceId) : History → Option Version
  | [] => none
  | m :: past =>
    let before := (latest? id past).map fun v => { v with closed := v.closed || m.move.closes }
    match m.move.written? with
    | some s => if s.id = id then some ⟨s, writes past, false⟩ else before
    | none => before

variable {m : Moment} {past : History}

theorem writes_of_written {s : Silence} (h : m.move.written? = some s) :
    History.writes (m :: past) = past.writes + 1 := by
  rw [writes, List.countP_cons_of_pos (by simp [h]), writes]

theorem writes_of_not_written (h : m.move.written? = none) :
    History.writes (m :: past) = past.writes := by
  rw [writes, List.countP_cons_of_neg (by simp [h]), writes]

theorem latest?_of_written {s : Silence} (h : m.move.written? = some s) (hc : m.move.closes = false)
    (id : SilenceId) :
    History.latest? id (m :: past) =
      if s.id = id then some ⟨s, past.writes, false⟩ else past.latest? id := by
  simp [latest?, h, hc]

theorem latest?_of_closes (h : m.move.written? = none) (hc : m.move.closes = true)
    (id : SilenceId) :
    History.latest? id (m :: past) =
      (past.latest? id).map fun v => { v with closed := true } := by
  simp [latest?, h, hc]

theorem latest?_of_not_written (h : m.move.written? = none) (hc : m.move.closes = false)
    (id : SilenceId) : History.latest? id (m :: past) = past.latest? id := by
  simp [latest?, h, hc]

theorem id_of_latest? {history : History} {id : SilenceId} {version : Version}
    (h : history.latest? id = some version) : version.silence.id = id := by
  induction history generalizing version with
  | nil => cases h
  | cons m past ih =>
    have hbefore (h : (latest? id past).map (fun v => { v with closed := v.closed || m.move.closes }) =
        some version) : version.silence.id = id := by
      obtain ⟨v, hv, rfl⟩ := Option.map_eq_some_iff.1 h
      exact @ih v hv
    rw [latest?] at h
    split at h
    · split_ifs at h with hid
      · obtain rfl := Option.some.inj h
        exact hid
      · exact hbefore h
    · exact hbefore h

end History

namespace Registry

/-- The records of a registry are the versions that its history wrote last. -/
structure Versioned (history : History) (r : Registry) : Prop where
  issued : r.scheduler.actions.issued = history.writes
  latest : ∀ (id : SilenceId) (stored : Stored), r.records[id]? = some stored →
    history.latest? id = some ⟨stored.silence, stored.handle.index, !r.isArmed stored.handle⟩

theorem versioned_empty : empty.Versioned [] :=
  ⟨rfl, fun id stored h => absurd h (by simp [empty])⟩

/-- Every other record keeps its action when one record goes. -/
theorem Coupled.isArmed_removeRecord_of_ne {r : Registry} (h : r.Coupled) {id other : SilenceId}
    {stored : Stored} (hr : r.records[other]? = some stored) (hne : id ≠ other) :
    (r.removeRecord id).isArmed stored.handle = r.isArmed stored.handle := by
  rw [Bool.eq_iff_iff, isArmed_removeRecord]
  refine and_iff_left_of_imp fun _ gone hg heq => ?_
  exact hne (h.stored_unique id other gone stored hg hr heq)

/-- What neither writes nor closes leaves the versions as they are. -/
theorem Versioned.pass {history : History} {r : Registry} {m : Moment} (h : r.Versioned history)
    (hw : m.move.written? = none) (hc : m.move.closes = false) : r.Versioned (m :: history) := by
  constructor
  · rw [History.writes_of_not_written hw, h.issued]
  · intro id stored hr
    rw [History.latest?_of_not_written hw hc, h.latest id stored hr]

theorem Versioned.removeRecord {history : History} {r : Registry} (h : r.Versioned history)
    (hc : r.Coupled) (id : SilenceId) : (r.removeRecord id).Versioned history := by
  constructor
  · rw [issued_removeRecord, h.issued]
  · intro other stored hr
    rw [records_removeRecord, OrderedMap.getElem?_erase] at hr
    split_ifs at hr with hid
    rw [hc.isArmed_removeRecord_of_ne hr hid, h.latest other stored hr]

/-- A write makes a version with the number that its action has. -/
theorem Versioned.put {history : History} {r : Registry} {m : Moment} {s : Silence}
    (h : r.Versioned history) (hc : r.Coupled) (hw : m.move.written? = some s)
    (hn : m.move.closes = false) : (r.put m.now s).Versioned (m :: history) := by
  have hl := Phase.listens_of_working hc.sound.working
  constructor
  · rw [issued_put hl, History.writes_of_written hw, h.issued]
  · intro id stored hr
    rw [records_put, OrderedMap.getElem?_insert] at hr
    rw [History.latest?_of_written hw hn, isArmed_put hl]
    split_ifs at hr ⊢ with hid
    -- as many actions were issued as silences were written, so this one has the number of the write
    · obtain rfl := Option.some.inj hr
      have hfresh : (r.removeRecord s.id).isArmed (r.nextHandle s.endsAt) = true := by
        apply (hc.removeRecord s.id).fresh
        rw [issued_removeRecord]
        exact Nat.le_refl _
      rw [hfresh, ← h.issued]
      rfl
    · rw [hc.isArmed_removeRecord_of_ne hr hid, h.latest id stored hr]

theorem Versioned.close {history : History} {r : Registry} {m : Moment} (h : r.Versioned history)
    (hw : m.move.written? = none) (hc : m.move.closes = true) :
    (r.stopAll r.handles).Versioned (m :: history) := by
  obtain ⟨stopped, he⟩ := stopAll_eq r r.handles
  constructor
  · rw [History.writes_of_not_written hw, ← h.issued, he]
  · intro id stored hr
    have hold : r.records[id]? = some stored := by rwa [he] at hr
    have hstop : (r.stopAll r.handles).isArmed stored.handle = false := by
      rw [Bool.eq_false_iff]
      intro harm
      exact ((isArmed_close r _).1 harm).2 id stored hold rfl
    rw [History.latest?_of_closes hw hc, h.latest id stored hold, hstop]
    rfl

theorem Versioned.clear {history : History} {r : Registry} (h : r.Versioned history) :
    { r.stopAll r.handles with records := ∅ }.Versioned history := by
  obtain ⟨stopped, he⟩ := stopAll_eq r r.handles
  refine ⟨?_, fun id stored hr => absurd hr (by simp)⟩
  rw [← h.issued, he]

theorem Versioned.effect {history : History} {r r' : Registry} {m : Moment} {client : Nat}
    {call : Call} (h : r.Versioned history) (hc : r.Coupled) (hm : m.move = .call client call)
    (he : r.Effect m.now call r') : r'.Versioned (m :: history) := by
  have hwritten : m.move.written? = call.written? := by rw [hm]; rfl
  have hcloses (hne : call ≠ .close) : m.move.closes = false := by
    rw [hm]
    cases call <;> first | rfl | exact absurd rfl hne
  cases he with
  | none hw hne => exact h.pass (hwritten.trans hw) (hcloses hne)
  | put hw lastId =>
    have hv : { r with lastId }.Versioned history := ⟨h.issued, h.latest⟩
    refine hv.put (hc.with_lastId lastId) (hwritten.trans hw) (hcloses ?_)
    rintro rfl
    cases hw
  | remove hw hne id => exact (h.removeRecord hc id).pass (hwritten.trans hw) (hcloses hne)
  | close hcl =>
    subst hcl
    exact h.close hwritten (by rw [hm]; rfl)
  | clear hw hne => exact h.clear.pass (hwritten.trans hw) (hcloses hne)

theorem Versioned.work {history : History} {now : Instant} {r r' : Registry} {log : Log}
    (h : r.Versioned history) (hc : r.Coupled) (hw : r.Work now r' log) : r'.Versioned history := by
  cases hw with
  | advance hs =>
    have ha := hs.actions_eq
    refine ⟨by rw [← h.issued, ha], fun id stored hr => ?_⟩
    rw [h.latest id stored hr]
    simp only [isArmed, Scheduler.isArmed, ha]
  | @expire _ _ task =>
    have hv := h.removeRecord hc task.id
    exact ⟨hv.issued, hv.latest⟩
  | pass => exact ⟨h.issued, h.latest⟩

end Registry

theorem Run.versioned {history : History} {r : Registry} (run : Run history r) :
    r.Versioned history := by
  induction run with
  | nil => exact Registry.versioned_empty
  | @snoc history r r' m run step ih =>
    rcases Registry.answers_or_work_of_step step with ⟨client, call, hm, ha⟩ | ⟨hm, hw⟩
    · exact ih.effect run.coupled hm (Registry.effect_of_answers ha)
    · exact (ih.work run.coupled hw).pass (by rw [hm]; rfl) (by rw [hm]; rfl)

end AlertSilences
