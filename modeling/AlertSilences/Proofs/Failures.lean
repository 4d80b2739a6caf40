import AlertSilences.Proofs.HighWater

/-! Calls on records that fail. An addition fails just if it is to find an id and the last one is
taken; an update, a look-up or a deletion just if there is no record under the id. Whatever fails
leaves the whole registry as it was: records, actions, highest id and what the worker is told. So a
run goes the same way without all that has failed in it. -/

namespace AlertSilences

def Call.failed : Call → Bool
  | .add _ answer => !answer.isOk
  | .update _ answer => !answer.isOk
  | .get _ answer => !answer.isOk
  | .delete _ answer => !answer.isOk
  | _ => false

def Move.failed : Move → Bool
  | .call _ c => c.failed
  | .work => false

/-- An operation that fails leaves the registry as it was and tells nothing. -/
def Outcome.HarmlessFor {α : Type} (out : Outcome α) (r : Registry) : Prop :=
  ∀ e, out.answer = .error e → out = ⟨.error e, r, []⟩

theorem Outcome.HarmlessFor.eq {α : Type} {out : Outcome α} {r r' : Registry} {log : Log}
    {answer : Except Failure α} (harmless : out.HarmlessFor r) (h : out = ⟨answer, r', log⟩)
    (hf : (!answer.isOk) = true) : r' = r ∧ log = [] := by
  subst h
  cases answer with
  | ok a => cases hf
  | error e =>
    have hsame := harmless e rfl
    exact ⟨congrArg Outcome.registry hsame, congrArg Outcome.log hsame⟩

namespace Registry

theorem lastId_eq_last_iff (r : Registry) :
    r.lastId = .last ↔ ¬r.lastId.value.toNat + 1 < UInt64.size := by
  refine ⟨fun h => by rw [h]; decide, fun h => ?_⟩
  have hlt := UInt64.toNat_lt r.lastId.value
  have hvalue : r.lastId.value.toNat = SilenceId.last.value.toNat := by
    rw [show SilenceId.last.value.toNat = 18446744073709551615 from rfl]
    rw [UInt64.size] at h
    omega
  exact congrArg SilenceId.mk (UInt64.toNat_inj.1 hvalue)

/-- An addition fails just if it is to find an id and none is left. -/
theorem answer_add_eq_error_iff {r : Registry} {now : Instant} {s : Silence} {e : Failure} :
    (r.add now s).answer = .error e ↔
      s.id = .unset ∧ r.lastId = .last ∧ e = .idsExhausted r.lastId := by
  by_cases hs : s.id = .unset
  · rw [answer_add_of_unset now hs]
    split_ifs with hroom
    · have hlast : r.lastId ≠ .last := fun h => (lastId_eq_last_iff r).1 h hroom
      simp [hlast]
    · have hlast := (lastId_eq_last_iff r).2 hroom
      simp [hs, hlast, eq_comm]
  · simp [(add_of_set now hs r).1, hs]

theorem answer_update_eq_error_iff {r : Registry} {now : Instant} {s : Silence} {e : Failure} :
    (r.update now s).answer = .error e ↔ r.records[s.id]? = none ∧ e = .notFound s.id := by
  rw [answer_update]
  cases r.records[s.id]? <;> simp [eq_comm]

theorem get_eq_error_iff {r : Registry} {id : SilenceId} {e : Failure} :
    r.get id = .error e ↔ r.records[id]? = none ∧ e = .notFound id := by
  rw [get]
  cases r.records[id]? <;> simp [eq_comm]

theorem answer_delete_eq_error_iff {r : Registry} {id : SilenceId} {e : Failure} :
    (r.delete id).answer = .error e ↔ r.records[id]? = none ∧ e = .notFound id := by
  rw [answer_delete]
  cases r.records[id]? <;> simp [eq_comm]

theorem harmless_add (now : Instant) (s : Silence) (r : Registry) :
    (r.add now s).HarmlessFor r := by
  intro e h
  unfold add at h ⊢
  split at h
  · cases h
    rfl
  · dsimp only at h
    split at h <;> cases h

theorem harmless_update (now : Instant) (s : Silence) (r : Registry) :
    (r.update now s).HarmlessFor r := by
  intro e h
  unfold update at h ⊢
  split at h
  · cases h
    rfl
  · cases h

theorem harmless_delete (id : SilenceId) (r : Registry) : (r.delete id).HarmlessFor r := by
  intro e h
  unfold delete at h ⊢
  split at h
  · cases h
    rfl
  · cases h

/-- A call that fails tells nothing and leaves the registry as it is. -/
theorem eq_of_answers_failed {now : Instant} {r r' : Registry} {log : Log} {call : Call}
    (h : r.Answers now r' log call) (hf : call.failed = true) : r' = r ∧ log = [] := by
  cases call with
  | add s answer => exact (harmless_add now s r).eq h hf
  | update s answer => exact (harmless_update now s r).eq h hf
  | delete id answer => exact (harmless_delete id r).eq h hf
  | get id answer => exact h.2
  | _ => cases hf

theorem eq_of_step_failed {r r' : Registry} {m : Moment} (h : r.Step r' m)
    (hf : m.move.failed = true) : r' = r := by
  rcases answers_or_work_of_step h with ⟨client, call, hcall, ha⟩ | ⟨hwork, -⟩
  · rw [hcall] at hf
    exact (eq_of_answers_failed ha hf).1
  · rw [hwork] at hf
    cases hf

end Registry

/-- What has failed may as well not have happened. -/
theorem Run.without_failures {history : History} {r : Registry} (run : Run history r) :
    Run (history.filter fun m => !m.move.failed) r := by
  induction run with
  | nil => exact .nil
  | @snoc history r r' m run step ih =>
    cases hf : m.move.failed with
    | false =>
      rw [List.filter_cons_of_pos (by rw [hf]; rfl)]
      exact ih.snoc step
    | true =>
      rw [List.filter_cons_of_neg (by rw [hf]; exact Bool.false_ne_true)]
      rw [Registry.eq_of_step_failed step hf]
      exact ih

/-- Additions, updates, look-ups and deletions fail in just these cases, the error carries the
highest id or the id that was asked for, and then nothing at all is changed or told; what comes
later in a run cannot tell that they were there. -/
theorem failures_change_nothing {history : History} {r : Registry} (run : Run history r)
    (e : Failure) :
    (∀ (now : Instant) (s : Silence),
      ((r.add now s).answer = .error e ↔
        s.id = .unset ∧ r.lastId = .last ∧ e = .idsExhausted r.lastId) ∧
      ((r.add now s).answer = .error e → r.add now s = ⟨.error e, r, []⟩)) ∧
    (∀ (now : Instant) (s : Silence),
      ((r.update now s).answer = .error e ↔ r.records[s.id]? = none ∧ e = .notFound s.id) ∧
      ((r.update now s).answer = .error e → r.update now s = ⟨.error e, r, []⟩)) ∧
    (∀ id : SilenceId,
      ((r.delete id).answer = .error e ↔ r.records[id]? = none ∧ e = .notFound id) ∧
      ((r.delete id).answer = .error e → r.delete id = ⟨.error e, r, []⟩)) ∧
    (∀ id : SilenceId, r.get id = .error e ↔ r.records[id]? = none ∧ e = .notFound id) ∧
    Run (history.filter fun m => !m.move.failed) r :=
  ⟨fun now s => ⟨Registry.answer_add_eq_error_iff, Registry.harmless_add now s r e⟩,
    fun now s => ⟨Registry.answer_update_eq_error_iff, Registry.harmless_update now s r e⟩,
    fun id => ⟨Registry.answer_delete_eq_error_iff, Registry.harmless_delete id r e⟩,
    fun _ => Registry.get_eq_error_iff, run.without_failures⟩

/-- The last id is taken, by a silence that is armed; a failed addition and a failed update later
it is armed still, and the worker has been told of nothing else. -/
theorem failures_change_nothing_at_the_last_id :
    ∃ (history : History) (r : Registry), Run history r ∧ history.length = 3 ∧ r.size = 1 ∧
      r.pending.length = 1 ∧ (r.tasks.filter fun t => r.isArmed t.handle).length = 1 ∧
      (∃ before, Run before r ∧ before.length = 1) ∧
      r.add default (.new default "ops" default) = ⟨.error (.idsExhausted .last), r, []⟩ ∧
      (r.delete ⟨5⟩).answer = .error (.notFound ⟨5⟩) := by
  let x : Silence := .new default "ops" default
  have run := ((Run.nil.add 0 default (x.withId .last)).add 1 default x).update 0 default
    (x.withId ⟨5⟩)
  have hadd := (failures_change_nothing run (.idsExhausted .last)).1 default x
  have hdelete := (failures_change_nothing run (.notFound ⟨5⟩)).2.2.1 ⟨5⟩
  refine ⟨_, _, run, rfl, by decide +kernel, by decide +kernel, by decide +kernel,
    ⟨_, (failures_change_nothing run (.notFound ⟨5⟩)).2.2.2.2, by decide +kernel⟩,
    hadd.2 (hadd.1.2 ⟨rfl, by decide +kernel, by decide +kernel⟩),
    hdelete.1.2 ⟨by decide +kernel, rfl⟩⟩

end AlertSilences
