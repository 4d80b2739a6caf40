import AlertSilences.Proofs.Operations
import AlertSilences.Registry.Load

/-! Runs of a registry. Clients call it and its worker takes steps, in any order and at any
times. A history tells what happened, the latest first: who called what and got which
answer, when the worker took a step, and what was told. -/

namespace AlertSilences

inductive Call
  | add (s : Silence) (answer : Except Failure SilenceId)
  | update (s : Silence) (answer : Except Failure Unit)
  | get (id : SilenceId) (answer : Except Failure Silence)
  | delete (id : SilenceId) (answer : Except Failure Unit)
  | list (answer : List Silence)
  | size (answer : Nat)
  | isEmpty (answer : Bool)
  | inhibiting (event : Lookup) (answer : Option Silence)
  | close
  | clear (answer : Nat)

inductive Move
  | call (client : Nat) (call : Call)
  | work

structure Moment where
  now : Instant
  move : Move
  log : Log

abbrev History := List Moment

namespace Registry

/-- A registry answers a call, and what it is afterwards. Records are listed and scanned in any
order. -/
def Answers (now : Instant) (r r' : Registry) (log : Log) : Call → Prop
  | .add s answer => r.add now s = ⟨answer, r', log⟩
  | .update s answer => r.update now s = ⟨answer, r', log⟩
  | .get id answer => r.get id = answer ∧ r' = r ∧ log = []
  | .delete id answer => r.delete id = ⟨answer, r', log⟩
  | .list answer => answer.Perm r.silences ∧ r' = r ∧ log = []
  | .size answer => r.size = answer ∧ r' = r ∧ log = []
  | .isEmpty answer => (r.size == 0) = answer ∧ r' = r ∧ log = []
  | .inhibiting event answer =>
    (∃ scan, scan.Perm r.silences ∧ inhibiting? scan event = answer) ∧ r' = r ∧ log = []
  | .close => r.close = ⟨.ok (), r', log⟩
  | .clear answer => r.clear = ⟨.ok answer, r', log⟩

theorem answers_add (now : Instant) (s : Silence) (r : Registry) :
    r.Answers now (r.add now s).registry (r.add now s).log (.add s (r.add now s).answer) := rfl

theorem answers_update (now : Instant) (s : Silence) (r : Registry) :
    r.Answers now (r.update now s).registry (r.update now s).log
      (.update s (r.update now s).answer) := rfl

theorem answers_delete (now : Instant) (id : SilenceId) (r : Registry) :
    r.Answers now (r.delete id).registry (r.delete id).log (.delete id (r.delete id).answer) := rfl

theorem answers_close (now : Instant) (r : Registry) :
    r.Answers now r.close.registry r.close.log .close := rfl

theorem answers_clear (now : Instant) (r : Registry) :
    r.Answers now r.clear.registry r.clear.log (.clear r.size) := rfl

def Step (r r' : Registry) (m : Moment) : Prop :=
  match m.move with
  | .call _ call => r.Answers m.now r' m.log call
  | .work => r.step? m.now = some (r', m.log)

end Registry

/-- What happens is that a client is answered or that the worker works. -/
theorem Registry.answers_or_work_of_step {r r' : Registry} {m : Moment} (h : r.Step r' m) :
    (∃ client call, m.move = .call client call ∧ r.Answers m.now r' m.log call) ∨
      m.move = .work ∧ r.Work m.now r' m.log := by
  unfold Step at h
  split at h
  · rename_i client call hm
    exact Or.inl ⟨client, call, hm, h⟩
  · rename_i hm
    exact Or.inr ⟨hm, work_of_step? h⟩

inductive Run : History → Registry → Prop
  | nil : Run [] .empty
  | snoc {history r r' m} (run : Run history r) (step : r.Step r' m) : Run (m :: history) r'

/-- The clock has shown nothing later than `now`. -/
def History.UpTo (now : Instant) (history : History) : Prop := ∀ m ∈ history, m.now ≤ now

def Call.written? : Call → Option Silence
  | .add s (.ok id) => some { s with id }
  | .update s (.ok ()) => some s
  | _ => none

namespace Registry

/-- What a call does to a registry, as far as its records and actions go. -/
inductive Effect (now : Instant) (r : Registry) (call : Call) : Registry → Prop
  | none (hw : call.written? = .none) (hc : call ≠ .close) : Effect now r call r
  | put {s} (hw : call.written? = some s) (lastId : SilenceId) :
      Effect now r call ({ r with lastId }.put now s)
  | remove (hw : call.written? = .none) (hc : call ≠ .close) (id : SilenceId) :
      Effect now r call (r.removeRecord id)
  | close (hc : call = .close) : Effect now r call (r.stopAll r.handles)
  | clear (hw : call.written? = .none) (hc : call ≠ .close) :
      Effect now r call { r.stopAll r.handles with records := ∅ }

theorem effect_of_answers {now : Instant} {r r' : Registry} {log : Log} {call : Call}
    (h : r.Answers now r' log call) : r.Effect now call r' := by
  cases call with
  | add s answer =>
    have hr := registry_add now s r
    have ha := answer_add now s r
    rw [show r.add now s = _ from h] at hr ha
    subst hr ha
    cases r.assignId s with
    | error e => exact .none rfl (by simp)
    | ok assigned => exact .put rfl assigned.2
  | update s answer =>
    have hr := registry_update now s r
    have ha := answer_update now s r
    rw [show r.update now s = _ from h] at hr ha
    subst hr ha
    split_ifs
    · exact .put rfl r.lastId
    · exact .none rfl (by simp)
  | delete id answer =>
    have hr := registry_delete id r
    rw [show r.delete id = _ from h] at hr
    subst hr
    exact .remove rfl (by simp) id
  | close =>
    obtain rfl : r.stopAll r.handles = r' := congrArg Outcome.registry h
    exact .close rfl
  | clear answer =>
    obtain rfl : { r.stopAll r.handles with records := ∅ } = r' := congrArg Outcome.registry h
    exact .clear rfl (by simp)
  | _ => obtain ⟨-, rfl, -⟩ := h; exact .none rfl (by simp)

end Registry

/-- A call and its answer leave no choice of what the registry is afterwards. -/
theorem Registry.step_unique {r a b : Registry} {m : Moment} (ha : r.Step a m) (hb : r.Step b m) :
    a = b := by
  unfold Step at ha hb
  split at ha
  · rename_i client call hm
    simp only [hm] at hb
    cases call with
    | add | update | delete | close | clear =>
      exact congrArg Outcome.registry (ha.symm.trans hb)
    | _ => exact ha.2.1.trans hb.2.1.symm
  · rename_i hm
    simp only [hm] at hb
    rw [ha] at hb
    cases hb
    rfl

theorem Run.unique {history : History} {r r' : Registry} (run : Run history r)
    (run' : Run history r') : r = r' := by
  induction run generalizing r' with
  | nil =>
    cases run'
    rfl
  | snoc _ step ih =>
    obtain _ | ⟨before, step'⟩ := run'
    rw [← ih before] at step'
    exact Registry.step_unique step step'

theorem Run.add {history : History} {r : Registry} (run : Run history r) (client : Nat)
    (now : Instant) (s : Silence) :
    Run (⟨now, .call client (.add s (r.add now s).answer), (r.add now s).log⟩ :: history)
      (r.add now s).registry := run.snoc rfl

theorem Run.update {history : History} {r : Registry} (run : Run history r) (client : Nat)
    (now : Instant) (s : Silence) :
    Run (⟨now, .call client (.update s (r.update now s).answer), (r.update now s).log⟩ :: history)
      (r.update now s).registry := run.snoc rfl

theorem Run.delete {history : History} {r : Registry} (run : Run history r) (client : Nat)
    (now : Instant) (id : SilenceId) :
    Run (⟨now, .call client (.delete id (r.delete id).answer), (r.delete id).log⟩ :: history)
      (r.delete id).registry := run.snoc rfl

theorem Run.close {history : History} {r : Registry} (run : Run history r) (client : Nat)
    (now : Instant) :
    Run (⟨now, .call client .close, r.close.log⟩ :: history) r.close.registry := run.snoc rfl

/-- The worker may take as many steps as it likes. -/
theorem Run.settle {history : History} {r : Registry} (run : Run history r) (now : Instant)
    (count : Nat) :
    ∃ work : History, (∀ m ∈ work, m.now = now ∧ m.move = .work) ∧
      Run (work ++ history) (settle (Registry.step? now) count r).1 := by
  induction count generalizing history r with
  | zero => exact ⟨[], by simp, run⟩
  | succ count ih =>
    rw [settle_succ]
    split
    · exact ⟨[], by simp, run⟩
    · rename_i r' log hstep
      set m : Moment := ⟨now, .work, log⟩
      have hfirst : Run (m :: history) r' := run.snoc hstep
      obtain ⟨work, hwork, hrun⟩ := ih hfirst
      refine ⟨work ++ [m], ?_, by simpa using hrun⟩
      intro a ha
      rcases List.mem_append.1 ha with ha | ha
      · exact hwork a ha
      · rw [List.mem_singleton.1 ha]
        exact ⟨rfl, rfl⟩

/-- Additions one after another are a run, up to the first that fails. -/
theorem Run.inTurn_add (client : Nat) (now : Instant) (silences : List Silence) {history : History}
    {r : Registry} (run : Run history r) :
    ∃ additions : History,
      (∀ m ∈ additions, m.now = now ∧ ∃ s answer, m.move = .call client (.add s answer)) ∧
        Run (additions ++ history) (r.inTurn (Registry.add now) silences).registry := by
  induction silences generalizing history r with
  | nil => exact ⟨[], by simp, run⟩
  | cons s rest ih =>
    set m : Moment := ⟨now, .call client (.add s (r.add now s).answer), (r.add now s).log⟩
    have hfirst : Run (m :: history) (r.add now s).registry := run.add client now s
    rw [Registry.inTurn_cons]
    split
    · rename_i e r' log h
      rw [h] at hfirst
      exact ⟨[m], by simp [m], hfirst⟩
    · rename_i id r' log h
      rw [h] at hfirst
      obtain ⟨additions, hadd, hrun⟩ := ih hfirst
      refine ⟨additions ++ [m], ?_, by simpa using hrun⟩
      intro a ha
      rcases List.mem_append.1 ha with ha | ha
      · exact hadd a ha
      · rw [List.mem_singleton.1 ha]
        exact ⟨rfl, s, _, rfl⟩

/-- Loading a document is a run of additions. -/
theorem Run.load {history : History} {r : Registry} (run : Run history r) (client : Nat)
    (now : Instant) (clock : Nat → Instant) (path : String) (document : Except Disk.Fault Bytes) :
    ∃ additions : History,
      (∀ m ∈ additions, m.now = now ∧ ∃ s answer, m.move = .call client (.add s answer)) ∧
        Run (additions ++ history) (r.load now clock path document).registry := by
  unfold Registry.load
  cases document with
  | error fault => exact ⟨[], by simp, run⟩
  | ok bytes =>
    cases hd : Silence.decodeAll clock bytes with
    | error cause => exact ⟨[], by simp, by simpa [hd] using run⟩
    | ok silences =>
      obtain ⟨additions, hadd, hrun⟩ := run.inTurn_add client now silences
      refine ⟨additions, hadd, ?_⟩
      cases ht : r.inTurn (Registry.add now) silences with
      | mk answer r' log =>
        rw [ht] at hrun
        cases answer <;> simpa [hd, ht] using hrun

end AlertSilences
