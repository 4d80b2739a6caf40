import AlertSilences.Proofs.Reloaded
import AlertSilences.Proofs.Storage.Open

/-! A registry that is saved and loaded again from its file, or opened on it. -/

namespace AlertSilences

open Disk

/-- If the lock is wanted, the file at the path is not the lock file as well. -/
def Config.LockApart (config : Config) (d : Disk) : Prop :=
  config.lock = true → d.Apart config.path (lockPath config.path)

namespace OpenCall

/-- The lock beside a path is not wanted, or it can be had. -/
def CanLock (config : Config) (d : Disk) : Prop :=
  config.lock = true → ∃ file d', (Path.ofText? (lockPath config.path)).bind d.create =
    .ok (file, d') ∧ d.locks[file]? = none

theorem canLock_of_locks_eq_empty {config : Config} {d : Disk} (free : d.locks = ∅)
    (opens : ((Path.ofText? (lockPath config.path)).bind d.create).isOk = true) :
    CanLock config d := by
  intro _
  cases hcreate : (Path.ofText? (lockPath config.path)).bind d.create with
  | error fault =>
    rw [hcreate] at opens
    cases opens
  | ok opened => exact ⟨opened.1, opened.2, rfl, by rw [free, Std.ExtTreeMap.getElem?_empty]⟩

theorem exists?_of_file? {d : Disk} {path : String} {content : Bytes}
    (h : d.file? path = some content) : d.exists? path = true := by
  obtain ⟨p, hp, hread⟩ := bind_eq_ok.1 (readText_eq_ok.2 h)
  obtain ⟨i, hfind, -⟩ := bind_eq_ok.1 hread
  rw [exists?, hp]
  dsimp only
  rw [hfind]
  rfl

/-- Where the lock can be had it is taken, and the file beside it is not touched, if it is not the
lock file. -/
theorem step_locking {d : Disk} (formed : d.Formed) (now : Instant) (clock : Nat → Instant)
    {c : OpenCall} {existed : Bool} (stage : c.stage = .locking existed)
    (apart : c.config.LockApart d) (free : CanLock c.config d) :
    ∃ d', c.step now clock d = ({ c with stage := .filling existed }, d') ∧
      d'.file? c.config.path = d.file? c.config.path := by
  simp only [step, stage]
  cases hlock : c.config.lock with
  | false => exact ⟨d, rfl, rfl⟩
  | true =>
    obtain ⟨file, d', hcreate, hfree⟩ := free hlock
    obtain ⟨i, name, names, created⟩ := created_of_create formed hcreate
    rw [← created.locks] at hfree
    simp only [if_true, takeLock, hcreate, lock?, hfree]
    exact ⟨_, rfl, created.file?_beside formed not_mem_lock (by decide) (apart hlock) names⟩

/-- An open with a file there and the lock free answers what the file loads as. -/
theorem run_of_load {d : Disk} (formed : d.Formed) {now : Instant} {clock : Nat → Instant}
    (config : Config) (owner : Owner) {content : Bytes}
    (there : d.file? config.path = some content) (apart : config.LockApart d)
    (free : CanLock config d) {count : Nat}
    {loaded : Registry} {log : Log}
    (load : Registry.empty.load now clock config.path (.ok content) = ⟨.ok count, loaded, log⟩) :
    ((begin config owner).run now clock d).1.stage = .done (.ok loaded) := by
  have hcheck : (begin config owner).step now clock d =
      ({ begin config owner with stage := .locking true }, d) := by
    simp only [step, begin, exists?_of_file? there, if_true]
  obtain ⟨d', hlock, hfile⟩ := step_locking formed now clock
    (c := { begin config owner with stage := .locking true }) rfl apart free
  have hread : d'.readText config.path = .ok content := readText_eq_ok.2 (hfile.trans there)
  have hfill : ({ begin config owner with stage := .filling true } : OpenCall).step now clock d' =
      ({ begin config owner with registry := loaded, log, stage := .done (.ok loaded) }, d') := by
    simp only [step, begin, hread, load]
  have hcount : allSteps = 5 + 1 + 1 + 1 := rfl
  rw [run, hcount, steps_succ, hcheck, steps_succ, hlock, steps_succ, hfill,
    steps_of_done _ _ _ rfl]

end OpenCall

namespace Registry

end Registry

end AlertSilences
