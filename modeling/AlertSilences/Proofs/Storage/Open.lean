import AlertSilences.Proofs.Disk.Folders
import AlertSilences.Proofs.Storage.Save
import AlertSilences.Storage.Open

/-! One call that opens a registry on its file. -/

namespace AlertSilences

open Disk

namespace OpenCall

inductive Advance (now : Instant) (clock : Nat → Instant) (c : OpenCall) (d : Disk) :
    OpenCall → Disk → Prop
  | found (stage : c.stage = .checking) (there : d.exists? c.config.path = true) :
      Advance now clock c d { c with stage := .locking true } d
  | missed (stage : c.stage = .checking) (there : d.exists? c.config.path = false) :
      Advance now clock c d { c with stage := .making } d
  | refused (stage : c.stage = .checking) (there : d.exists? c.config.path = false) :
      Advance now clock c d (c.fails (.notInitialized c.config.path)) d
  | made {d'} (stage : c.stage = .making) (widens : d.Widens d') :
      Advance now clock c d { c with stage := .locking false } d'
  | unmade {d'} (stage : c.stage = .making) (widens : d.Widens d') (fault : Fault) :
      Advance now clock c d (c.fails (.fault fault)) d'
  | passed {existed} (stage : c.stage = .locking existed) (free : c.config.lock = false) :
      Advance now clock c d { c with stage := .filling existed } d
  | locked {existed i name file d'} (stage : c.stage = .locking existed)
      (names : d.Names (lockPath c.config.path) i name) (created : Created d d' i name file)
      (free : d.locks[file]? = none) (wanted : c.config.lock = true) :
      Advance now clock c d { c with stage := .filling existed }
        { d' with locks := d'.locks.insert file c.owner }
  | blocked {existed i name file d'} (stage : c.stage = .locking existed)
      (names : d.Names (lockPath c.config.path) i name) (created : Created d d' i name file)
      (held : d.locks[file]? ≠ none) (wanted : c.config.lock = true) :
      Advance now clock c d (c.fails (.locked (lockPath c.config.path))) d'
  | barred {existed} (stage : c.stage = .locking existed) (fault : Fault) :
      Advance now clock c d (c.fails (.fault fault)) d
  | loaded {count registry log} (stage : c.stage = .filling true)
      (load : c.registry.load now clock c.config.path (d.readText c.config.path) =
        ⟨.ok count, registry, log⟩) :
      Advance now clock c d { c with registry, log, stage := .done (.ok registry) } d
  | unloaded {e registry log log'} (stage : c.stage = .filling true)
      (load : c.registry.load now clock c.config.path (d.readText c.config.path) =
        ⟨.error e, registry, log⟩) :
      Advance now clock c d { c with registry, log := log', stage := .done (.error e) }
        (d.unlock c.owner)
  | filled (stage : c.stage = .filling false) :
      Advance now clock c d
        { c with stage := .saving (.begin c.config.path c.registry.silences) } d
  | saving {call call' d'} (stage : c.stage = .saving call)
      (advance : SaveCall.Advance call.bytes.length call d call' d')
      (more : ∀ answer, call'.stage ≠ .done answer) :
      Advance now clock c d { c with stage := .saving call' } d'
  | saved {call call' d' log} (stage : c.stage = .saving call)
      (advance : SaveCall.Advance call.bytes.length call d call' d')
      (done : call'.stage = .done (.ok ())) :
      Advance now clock c d { c with log, stage := .done (.ok c.registry) } d'
  | unsaved {call call' d' log} (stage : c.stage = .saving call)
      (advance : SaveCall.Advance call.bytes.length call d call' d') (fault : Fault) :
      Advance now clock c d { c with log, stage := .done (.error (.fault fault)) }
        (d'.unlock c.owner)
  | rest {answer} (stage : c.stage = .done answer) : Advance now clock c d c d

theorem advance_locking {d : Disk} (formed : d.Formed) (now : Instant) (clock : Nat → Instant)
    {c : OpenCall} {existed : Bool} (stage : c.stage = .locking existed) :
    Advance now clock c d (c.step now clock d).1 (c.step now clock d).2 := by
  simp only [step, stage]
  cases free : c.config.lock with
  | false => exact .passed stage free
  | true =>
    simp only [if_true, takeLock]
    cases hcreate : (Path.ofText? (lockPath c.config.path)).bind d.create with
    | error fault => exact .barred stage _
    | ok opened =>
      obtain ⟨file, d'⟩ := opened
      obtain ⟨i, name, names, created⟩ := created_of_create formed hcreate
      dsimp only
      rw [lock?, created.locks]
      cases held : d.locks[file]? with
      | none =>
        rw [← created.locks]
        exact .locked stage names created held free
      | some holder => exact .blocked stage names created (by simp [held]) free

theorem advance_step {d : Disk} (formed : d.Formed) (now : Instant) (clock : Nat → Instant)
    (c : OpenCall) : Advance now clock c d (c.step now clock d).1 (c.step now clock d).2 := by
  rw [step]
  split
  · next stage =>
    cases there : d.exists? c.config.path with
    | true => exact .found stage there
    | false =>
      cases c.config.createIfMissing with
      | true => exact .missed stage there
      | false => exact .refused stage there
  · next stage =>
    have hwidens := widens_makeParents formed c.config.path
    split
    · next d' fault h =>
      rw [h] at hwidens
      exact .unmade stage hwidens _
    · next d' h =>
      rw [h] at hwidens
      exact .made stage hwidens
  · next existed stage =>
    have h := advance_locking formed now clock stage
    simp only [step, stage] at h
    exact h
  · next stage =>
    split
    · next e registry log h => exact .unloaded stage h
    · next count registry log h => exact .loaded stage h
  · next stage => exact .filled stage
  · next call stage =>
    have hadvance := SaveCall.advance_step formed call call.bytes.length
    dsimp only
    split
    · next done => exact .saved stage hadvance done
    · next fault failed => exact .unsaved stage hadvance _
    · next hok herror =>
      refine .saving stage hadvance fun answer hdone => ?_
      cases answer with
      | ok done => exact hok hdone
      | error fault => exact herror fault hdone
  · next answer stage => exact .rest stage

namespace Advance

variable {now : Instant} {clock : Nat → Instant} {c c' : OpenCall} {d d' : Disk}

theorem config_eq (h : Advance now clock c d c' d') : c'.config = c.config := by
  cases h <;> rfl

theorem owner_eq (h : Advance now clock c d c' d') : c'.owner = c.owner := by
  cases h <;> rfl

theorem formed (h : Advance now clock c d c' d') (formed : d.Formed) : d'.Formed := by
  cases h with
  | made _ widens => exact widens.formed
  | unmade _ widens _ => exact widens.formed
  | locked _ _ created _ _ => exact (Change.locks _).formed (created.change.formed formed)
  | blocked _ _ created _ => exact created.change.formed formed
  | unloaded _ _ => exact (Change.locks _).formed formed
  | saving _ advance _ => exact advance.formed formed
  | saved _ advance _ => exact advance.formed formed
  | unsaved _ advance _ => exact (Change.locks _).formed (advance.formed formed)
  | _ => exact formed

theorem sound (h : Advance now clock c d c' d') (sound : d.Sound) : d'.Sound := by
  cases h with
  | made _ widens => exact widens.sound sound
  | unmade _ widens _ => exact widens.sound sound
  | locked _ _ created _ _ => exact (Change.locks _).sound (created.change.sound sound)
  | blocked _ _ created _ => exact created.change.sound sound
  | unloaded _ _ => exact (Change.locks _).sound sound
  | saving _ advance _ => exact advance.sound sound
  | saved _ advance _ => exact advance.sound sound
  | unsaved _ advance _ => exact (Change.locks _).sound (advance.sound sound)
  | _ => exact sound

theorem keeps (h : Advance now clock c d c' d') (formed : d.Formed) : d.Keeps d' := by
  cases h with
  | made _ widens => exact widens.keeps
  | unmade _ widens _ => exact widens.keeps
  | locked _ _ created _ _ =>
    have formed' := created.change.formed formed
    exact (created.change.keeps formed).trans ((Change.locks _).keeps formed')
  | blocked _ _ created _ => exact created.change.keeps formed
  | unloaded _ _ => exact (Change.locks _).keeps formed
  | saving _ advance _ => exact advance.keeps formed
  | saved _ advance _ => exact advance.keeps formed
  | unsaved _ advance _ =>
    exact (advance.keeps formed).trans ((Change.locks _).keeps (advance.formed formed))
  | _ => exact .refl d

end Advance

theorem steps_succ (now : Instant) (clock : Nat → Instant) (c : OpenCall) (d : Disk) (n : Nat) :
    c.steps now clock d (n + 1) =
      (c.step now clock d).1.steps now clock (c.step now clock d).2 n := rfl

theorem steps_of_done (now : Instant) (clock : Nat → Instant) {c : OpenCall} (d : Disk)
    {answer : Except Failure Registry} (h : c.stage = .done answer) (n : Nat) :
    c.steps now clock d n = (c, d) := by
  induction n with
  | zero => rfl
  | succ n ih =>
    have hstep : c.step now clock d = (c, d) := by simp only [step, h]
    rw [steps_succ, hstep]
    exact ih

end OpenCall

end AlertSilences
