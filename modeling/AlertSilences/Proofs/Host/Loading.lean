import AlertSilences.Proofs.Failures
import AlertSilences.Proofs.Host.Handles
import AlertSilences.Proofs.Storage.Reload

/-! An open that adds what it has read while the worker of the new registry takes steps. These have
no influence on what the open answers. But as it fails, one of them can be a callback, which has a
handle of the registry. -/

namespace AlertSilences

open Disk

def Scheduler.isCalling (s : Scheduler) : Bool :=
  match s.phase with
  | .delivering .. => true
  | _ => false

namespace Registry

/-- Silences are added one by one, up to the first that cannot be added, and the worker takes steps
meanwhile. -/
inductive Adds : Registry → List Silence → Except Failure Unit → Registry → Prop
  | done (r : Registry) : Adds r [] (.ok ()) r
  | fail {r s rest e} (now : Instant) (failed : (r.add now s).answer = .error e) :
      Adds r (s :: rest) (.error e) (r.add now s).registry
  | add {r s rest id answer r'} (now : Instant) (added : (r.add now s).answer = .ok id)
      (more : Adds (r.add now s).registry rest answer r') : Adds r (s :: rest) answer r'
  | work {r r₁ silences answer r' log} (now : Instant) (step : r.step? now = some (r₁, log))
      (more : Adds r₁ silences answer r') : Adds r silences answer r'

/-- What an addition answers, and the highest id after it, depend on the highest id only. -/
theorem add_congr {r r' : Registry} (same : r.lastId = r'.lastId) (now now' : Instant)
    (s : Silence) :
    (r.add now s).answer = (r'.add now' s).answer ∧
      (r.add now s).registry.lastId = (r'.add now' s).registry.lastId := by
  have hassign : r.assignId s = r'.assignId s := by rw [assignId, assignId, same]
  rw [answer_add, answer_add, registry_add, registry_add, hassign]
  refine ⟨rfl, ?_⟩
  cases r'.assignId s with
  | error e => exact same
  | ok assigned =>
    dsimp only
    simp

theorem answer_inTurn_add_cons (now : Instant) (s : Silence) (rest : List Silence) (r : Registry) :
    ((r.inTurn (add now) (s :: rest)).answer.map fun _ => ()) = match (r.add now s).answer with
      | .error e => .error e
      | .ok _ => ((r.add now s).registry.inTurn (add now) rest).answer.map fun _ => () := by
  rw [inTurn_cons]
  split
  · next h => rw [h]; rfl
  · next h =>
    rw [h]
    dsimp only
    cases (inTurn (add now) rest _).answer <;> rfl

/-- The answer is the one of a worker that takes no steps. -/
theorem Adds.answer_eq {r r' : Registry} {silences : List Silence} {answer : Except Failure Unit}
    (h : r.Adds silences answer r') (now : Instant) {r₀ : Registry} (same : r.lastId = r₀.lastId) :
    ((r₀.inTurn (Registry.add now) silences).answer.map fun _ => ()) = answer := by
  induction h generalizing r₀ with
  | done r => rfl
  | fail now' failed =>
    rw [answer_inTurn_add_cons, ← (add_congr same now' now _).1, failed]
  | add now' added more ih =>
    have hsame := add_congr same now' now
    rw [answer_inTurn_add_cons, ← (hsame _).1, added]
    exact ih (hsame _).2
  | work now' step more ih => exact ih ((lastId_of_work (work_of_step? step)).trans same)

/-- The worker may take any number of steps. -/
theorem Adds.of_settle {r r' : Registry} {silences : List Silence} {answer : Except Failure Unit}
    (now : Instant) (count : Nat) (h : (settle (step? now) count r).1.Adds silences answer r') :
    r.Adds silences answer r' := by
  induction count generalizing r with
  | zero => exact h
  | succ count ih =>
    rw [settle_succ] at h
    split at h
    · exact h
    · next r₁ log step => exact .work now step (ih h)

/-- The worker calls back if the first action in the queue is due and not stopped. -/
theorem exists_step?_calling {r : Registry} {asOf : Int}
    (phase : r.scheduler.phase = .sweeping asOf) {e : Entry} (first : r.scheduler.queue.entries.head? = some e) (due : e.1.due ≤ asOf)
    (armed : r.scheduler.isArmed e.2.handle = true) (now : Instant) :
    ∃ r' log, r.step? now = some (r', log) ∧ r'.scheduler.isCalling = true ∧
      r'.lastId = r.lastId := by
  obtain ⟨turn, task⟩ := e
  have hmin : r.scheduler.queue.tasks.minEntry? = some (turn, task) :=
    (OrderedMap.minEntry?_eq_head? _).trans first
  have hdue : r.scheduler.queue.popDue? asOf = some ((turn, task),
      { r.scheduler.queue with tasks := r.scheduler.queue.tasks.erase turn }) := by
    rw [Queue.popDue?, hmin]
    exact if_pos due
  rw [Scheduler.isArmed] at armed
  refine ⟨{ r with scheduler := { r.scheduler with
    queue := { r.scheduler.queue with tasks := r.scheduler.queue.tasks.erase turn }
    phase := .delivering asOf turn task } }, [], ?_, rfl, rfl⟩
  simp only [step?, Scheduler.step?, phase, hdue, armed, if_true]

/-- The addition of a silence without an id fails if the highest id is the last of all, and nothing
changes, not even a callback. -/
theorem Adds.fail_of_last {r : Registry} {s : Silence} (unset : s.id = .unset)
    (last : r.lastId = .last) (now : Instant) (rest : List Silence) :
    r.Adds (s :: rest) (.error (.idsExhausted .last)) r := by
  have hfail : (r.add now s).answer = .error (.idsExhausted .last) :=
    answer_add_eq_error_iff.2 ⟨unset, last, (congrArg _ last).symm⟩
  have hsame : (r.add now s).registry = r := by
    have hassign := answer_add now s r
    rw [hfail] at hassign
    rw [registry_add]
    cases h : r.assignId s with
    | error e => rfl
    | ok assigned => rw [h] at hassign; cases hassign
  have adds : r.Adds (s :: rest) _ _ := .fail now hfail
  rwa [hsame] at adds

theorem answer_load {bytes : Bytes} {silences : List Silence} {clock : Nat → Instant}
    (decoded : Silence.decodeAll clock bytes = .ok silences) (now : Instant) (path : String)
    (r : Registry) :
    ((r.load now clock path (.ok bytes)).answer.map fun _ => ()) =
      (r.inTurn (add now) silences).answer.map fun _ => () := by
  simp only [load, decoded]
  cases h : r.inTurn (add now) silences with
  | mk answer r' log => cases answer <;> rfl

end Registry

namespace Host

/-- An open has come to the file at its path, and has added what that holds or failed with it; the
worker of the registry may have taken steps. -/
structure Filling (h : Host) (config : Config) (answer : Except Failure Unit) (call : OpenCall)
    (d : Disk) (registry : Registry) : Prop where
  steps : ∃ n, (OpenCall.begin config h.nextOwner).steps h.clock h.readings h.disk n = (call, d)
  stage : call.stage = .filling true
  adds : ∃ bytes silences, d.readText call.config.path = .ok bytes ∧
    Silence.decodeAll h.readings bytes = .ok silences ∧
    call.registry.Adds silences answer registry

variable {h : Host} {config : Config} {answer : Except Failure Unit} {call : OpenCall} {d : Disk}
  {registry : Registry} {held : List Owner} {opened : List (Owner × String)}

/-- An open answers the same, whether the worker takes steps or not. -/
theorem Filling.answer_openAt (filling : h.Filling config answer call d registry)
    (formed : h.disk.Formed) (name : String) : (h.openAt name config).2.1 = answer := by
  obtain ⟨⟨n, hsteps⟩, stage, bytes, silences, hread, hdecoded, adds⟩ := filling
  have hload := Registry.answer_load hdecoded h.clock call.config.path call.registry
  rw [adds.answer_eq h.clock rfl] at hload
  have hanswer {final : Except Failure Registry}
      (hstep : (call.step h.clock h.readings d).1.stage = .done final) :
      (h.openCall config).1.stage = .done final := by
    refine OpenCall.answer_of_step (n := n) formed config h.nextOwner (fun answer hdone => ?_) ?_
    · rw [hsteps] at hdone
      cases stage.symm.trans hdone
    · rw [hsteps]
      exact hstep
  simp only [OpenCall.step, stage, hread] at hanswer
  generalize call.registry.load h.clock h.readings call.config.path (.ok bytes) = out
    at hload hanswer
  obtain ⟨loaded, registry', log⟩ := out
  have hcases := openAt_cases h formed name config
  cases loaded with
  | error e =>
    obtain rfl : Except.error e = answer := hload
    exact (answer_openAt_eq_error h formed name config e).2 (hanswer rfl)
  | ok count =>
    obtain rfl : Except.ok () = answer := hload
    rcases hcases with ⟨e, hstage, -, -⟩ | ⟨-, -, -, hok⟩
    · cases (hanswer rfl).symm.trans hstage
    · exact hok

/-- Where a file can be loaded, whatever comes of adding what it holds can come of an open. -/
theorem exists_filling (h : Host) (config : Config) (formed : h.disk.Formed) {content : Bytes}
    (there : h.disk.file? config.path = some content) (apart : config.LockApart h.disk)
    (free : OpenCall.CanLock config h.disk) {silences : List Silence}
    (decoded : Silence.decodeAll h.readings content = .ok silences)
    (adds : Registry.empty.Adds silences answer registry) :
    ∃ call d, h.Filling config answer call d registry := by
  have hcheck : (OpenCall.begin config h.nextOwner).step h.clock h.readings h.disk =
      ({ OpenCall.begin config h.nextOwner with stage := .locking true }, h.disk) := by
    simp only [OpenCall.step, OpenCall.begin, OpenCall.exists?_of_file? there, if_true]
  obtain ⟨d, hlock, hfile⟩ := OpenCall.step_locking formed h.clock h.readings
    (c := { OpenCall.begin config h.nextOwner with stage := .locking true }) rfl apart free
  refine ⟨{ OpenCall.begin config h.nextOwner with stage := .filling true }, d, ⟨2, ?_⟩, rfl,
    content, silences, readText_eq_ok.2 (hfile.trans there), decoded, adds⟩
  rw [OpenCall.steps_succ, hcheck, OpenCall.steps_succ, hlock]
  rfl

theorem Filling.course (filling : h.Filling config answer call d registry)
    (acc : h.Accounted held opened) :
    OpenCall.Course h.disk config h.nextOwner call d ∧ call.Takes h.disk d := by
  obtain ⟨⟨n, hsteps⟩, stage, -⟩ := filling
  have course :=
    (OpenCall.course_begin acc.formed config h.nextOwner).steps acc.fresh h.clock h.readings n
  rw [hsteps] at course
  have takes := course.minds
  rw [OpenCall.Minds, stage] at takes
  exact ⟨course, takes⟩

end Host

end AlertSilences
