import AlertSilences.Proofs.Run
import AlertSilences.Proofs.Storage.Save
import Mathlib.Logic.Relation

/-! Many calls that save one registry to one path, their steps in any order, while the registry is
in use. If a call opens the file beside the path only while no other is on its way, the file at the
path is always the one from before or a whole scan. If it may open it at any time, the file can
become empty, since all calls share the file beside the path. -/

namespace AlertSilences

open Disk

def SaveStage.isStarted : SaveStage → Bool
  | .opening | .done _ => false
  | _ => true

theorem SaveCall.underway_of_not_isStarted {c : SaveCall} (h : c.stage.isStarted = false)
    (d : Disk) : c.Underway d := by
  rw [Underway]
  split
  · next hstage => rw [hstage] at h; cases h
  · next hstage => rw [hstage] at h; cases h
  · next hstage => rw [hstage] at h; cases h
  · trivial

/-- A call with the scan that it writes. -/
structure Saver where
  scan : List Silence
  call : SaveCall

structure Saving where
  registry : Registry
  disk : Disk
  savers : List Saver

namespace Saving

def start (r : Registry) (d : Disk) : Saving := ⟨r, d, []⟩

/-- The registry is used, or a call takes its scan, or the call numbered `k` takes a step, provided
that it `may`. -/
inductive Step (path : String) (may : Saving → Nat → Prop) (s : Saving) : Saving → Prop
  | serve {m r'} (step : s.registry.Step r' m) : Step path may s { s with registry := r' }
  | begin {scan} (order : scan.Perm s.registry.silences) :
      Step path may s { s with savers := s.savers ++ [⟨scan, .begin path scan⟩] }
  | move {k saver} (chunk : Nat) (there : s.savers[k]? = some saver) (allowed : may s k) :
      Step path may s
        { s with
          disk := (saver.call.step chunk s.disk).2
          savers := s.savers.set k ⟨saver.scan, (saver.call.step chunk s.disk).1⟩ }

abbrev Reaches (path : String) (may : Saving → Nat → Prop) : Saving → Saving → Prop :=
  Relation.ReflTransGen (Step path may)

/-- No call but the one numbered `k` is on its way. -/
def InTurn (s : Saving) (k : Nat) : Prop :=
  ∀ other ∈ s.savers.eraseIdx k, other.call.stage.isStarted = false

instance (s : Saving) (k : Nat) : Decidable (s.InTurn k) :=
  inferInstanceAs (Decidable (∀ other ∈ s.savers.eraseIdx k, other.call.stage.isStarted = false))

/-- What each call has written so far is in the file beside the path; the file at the path is the
one from `before` or a whole scan. -/
structure Orderly (path : String) (before : Option Bytes) (s : Saving) : Prop where
  sound : s.disk.Sound
  own : ∀ saver ∈ s.savers, saver.call.path = path ∧
    saver.call.bytes = Silence.encodeAll saver.scan ∧ saver.call.Underway s.disk
  file : s.disk.file? path = before ∨
    ∃ saver ∈ s.savers, s.disk.file? path = some (Silence.encodeAll saver.scan)

theorem exists_mem_set {savers : List Saver} {k : Nat} {saver : Saver}
    (there : savers[k]? = some saver) (c : SaveCall) {other : Saver} (hmem : other ∈ savers) :
    ∃ same ∈ savers.set k ⟨saver.scan, c⟩, same.scan = other.scan := by
  obtain ⟨j, hj⟩ := List.mem_iff_getElem?.1 hmem
  rcases eq_or_ne j k with rfl | hne
  · obtain rfl := Option.some.inj (there.symm.trans hj)
    exact ⟨_, List.mem_set (List.getElem?_eq_some_iff.1 there).1 _, rfl⟩
  · exact ⟨other, List.mem_of_getElem? ((List.getElem?_set_ne hne.symm).trans hj), rfl⟩

theorem orderly_start (path : String) (r : Registry) {d : Disk} (sound : d.Sound) :
    (start r d).Orderly path (d.file? path) :=
  ⟨sound, by simp [start], .inl rfl⟩

theorem Orderly.begin {path : String} {before : Option Bytes} {s : Saving}
    (h : s.Orderly path before) (scan : List Silence) :
    Orderly path before { s with savers := s.savers ++ [⟨scan, .begin path scan⟩] } := by
  refine ⟨h.sound, fun saver hmem => ?_, ?_⟩
  · rcases List.mem_append.1 hmem with hmem | hmem
    · exact h.own saver hmem
    · rw [List.mem_singleton.1 hmem]
      exact ⟨rfl, rfl, trivial⟩
  · rcases h.file with hfile | ⟨saver, hmem, hfile⟩
    · exact .inl hfile
    · exact .inr ⟨saver, List.mem_append_left _ hmem, hfile⟩

theorem Orderly.move {path : String} {before : Option Bytes} {s : Saving}
    (h : s.Orderly path before) {k : Nat} {saver : Saver} {chunk : Nat} {c : SaveCall} {d : Disk}
    (there : s.savers[k]? = some saver) (turn : s.InTurn k)
    (advance : SaveCall.Advance chunk saver.call s.disk c d) :
    Orderly path before { s with disk := d, savers := s.savers.set k ⟨saver.scan, c⟩ } := by
  obtain ⟨hpath, hbytes, hunderway⟩ := h.own saver (List.mem_of_getElem? there)
  refine ⟨advance.sound h.sound, forall_mem_set there ?_ fun j other hj hne => ?_, ?_⟩
  · exact ⟨advance.path_eq.trans hpath, advance.bytes_eq.trans hbytes,
      advance.underway h.sound hunderway⟩
  · obtain ⟨hpath', hbytes', -⟩ := h.own other (List.mem_of_getElem? hj)
    have hother := turn other (List.mem_eraseIdx_iff_getElem?.2 ⟨j, hne, hj⟩)
    exact ⟨hpath', hbytes', SaveCall.underway_of_not_isStarted hother d⟩
  · rcases advance.file?_eq h.sound (h.sound.apart_temporary _) hunderway with ⟨hsame, -⟩ | ⟨hnew, -⟩
    · rw [hpath] at hsame
      rcases h.file with hfile | ⟨other, hmem, hfile⟩
      · exact .inl (hsame.trans hfile)
      · obtain ⟨same, hmem', hscan⟩ := exists_mem_set there c hmem
        exact .inr ⟨same, hmem', hsame.trans (hscan ▸ hfile)⟩
    · rw [hpath, hbytes] at hnew
      exact .inr ⟨_, List.mem_set (List.getElem?_eq_some_iff.1 there).1 _, hnew⟩

theorem Orderly.step {path : String} {before : Option Bytes} {s s' : Saving}
    (h : s.Orderly path before) (step : Step path InTurn s s') : s'.Orderly path before := by
  cases step with
  | serve _ => exact ⟨h.sound, h.own, h.file⟩
  | begin _ => exact h.begin _
  | move chunk there allowed => exact h.move there allowed (SaveCall.advance_step h.sound.toFormed _ chunk)

theorem Reaches.orderly {path : String} {r : Registry} {d : Disk} (sound : d.Sound) {s : Saving}
    (reaches : Reaches path InTurn (start r d) s) : s.Orderly path (d.file? path) := by
  induction reaches with
  | refl => exact orderly_start path r sound
  | tail _ step ih => exact ih.step step

/-- What a call writes was listed of the registry at some time. -/
theorem Reaches.exists_listed {path : String} {may : Saving → Nat → Prop} {r : Registry} {d : Disk}
    {s : Saving} (reaches : Reaches path may (start r d) s) {saver : Saver}
    (hmem : saver ∈ s.savers) :
    ∃ s₀, Reaches path may (start r d) s₀ ∧ saver.scan.Perm s₀.registry.silences := by
  induction reaches generalizing saver with
  | refl => cases hmem
  | @tail s₁ s₂ before step ih =>
    cases step with
    | serve _ => exact ih hmem
    | begin order =>
      rcases List.mem_append.1 hmem with hmem | hmem
      · exact ih hmem
      · rw [List.mem_singleton.1 hmem]
        exact ⟨s₁, before, order⟩
    | @move k other chunk there allowed =>
      rcases List.mem_or_eq_of_mem_set hmem with hmem | rfl
      · exact ih hmem
      · have hother := ih (List.mem_of_getElem? there)
        exact hother

/-- Of calls that save in turn, whatever happens to the registry meanwhile, the file at the path is
at any time the one from before or has all that one of the calls listed. -/
theorem file_of_saves_in_turn {path : String} {r : Registry} {d : Disk} (sound : d.Sound)
    {s : Saving} (reaches : Reaches path InTurn (start r d) s) :
    s.disk.file? path = d.file? path ∨
      ∃ saver ∈ s.savers, s.disk.file? path = some (Silence.encodeAll saver.scan) ∧
        ∃ s₀, Reaches path InTurn (start r d) s₀ ∧ saver.scan.Perm s₀.registry.silences := by
  rcases (Reaches.orderly sound reaches).file with hfile | ⟨saver, hmem, hfile⟩
  · exact .inl hfile
  · exact .inr ⟨saver, hmem, hfile, Reaches.exists_listed reaches hmem⟩

def begun (path : String) (s : Saving) : Saving :=
  { s with savers := s.savers ++ [⟨s.registry.silences, .begin path s.registry.silences⟩] }

theorem reaches_begun (path : String) (may : Saving → Nat → Prop) (s : Saving) :
    Reaches path may s (s.begun path) :=
  .single (.begin (.refl _))

/-- The call numbered `k` takes a step and writes all it has. -/
def moved (k : Nat) (s : Saving) : Saving :=
  match s.savers[k]? with
  | none => s
  | some saver =>
    { s with
      disk := (saver.call.step saver.call.bytes.length s.disk).2
      savers := s.savers.set k ⟨saver.scan, (saver.call.step saver.call.bytes.length s.disk).1⟩ }

theorem reaches_moved (path : String) {may : Saving → Nat → Prop} {s : Saving} {k : Nat}
    (allowed : may s k) : Reaches path may s (s.moved k) := by
  rw [moved]
  split
  · exact .refl
  · next saver there => exact .single (.move _ there allowed)

theorem encodeAll_ne_nil (silences : List Silence) : Silence.encodeAll silences ≠ [] := by
  simp [SilenceOf.encodeAll, Json.writeList]

/-- Of two calls at the same time the second empties the file that the first then gives the name of
the path: it is neither what it was nor a whole scan. -/
theorem file_emptied_by_overlapping_saves :
    ∃ s, Reaches "p.json" (fun _ _ => True) (start .empty .blank) s ∧
      s.disk.file? "p.json" = some [] ∧ Disk.blank.file? "p.json" = none ∧
      ∀ saver ∈ s.savers, s.disk.file? "p.json" ≠ some (Silence.encodeAll saver.scan) := by
  have move (k s) := @reaches_moved "p.json" (fun _ _ => True) s k trivial
  have first := (((reaches_begun "p.json" _ (start .empty .blank)).trans (move 0 _)).trans
    (move 0 _)).trans (move 0 _)
  have second := ((first.trans (reaches_begun "p.json" _ _)).trans (move 1 _)).trans (move 0 _)
  refine ⟨_, second, ?_⟩
  generalize hs : moved 0 _ = s
  have hfile : s.disk.file? "p.json" = some [] := by
    rw [← hs]
    decide +kernel
  refine ⟨hfile, by decide +kernel, fun saver _ h => ?_⟩
  exact encodeAll_ne_nil saver.scan (Option.some.inj (h.symm.trans hfile))

/-- A call has saved, and another has emptied the file beside the path for its own scan. -/
theorem file_of_saves_in_turn_after_the_first :
    ∃ s, Disk.blank.Sound ∧ Reaches "p.json" InTurn (start .empty .blank) s ∧
      (s.savers.map (·.call.stage.isStarted)) = [false, true] ∧
      ∃ saver ∈ s.savers, s.disk.file? "p.json" = some (Silence.encodeAll saver.scan) := by
  have move {k s} (h : InTurn s k) := @reaches_moved "p.json" InTurn s k h
  have saved := ((((reaches_begun "p.json" InTurn (start .empty .blank)).trans
    (@move 0 _ (by decide +kernel))).trans (@move 0 _ (by decide +kernel))).trans
    (@move 0 _ (by decide +kernel))).trans (@move 0 _ (by decide +kernel))
  have opened :=
    (saved.trans (reaches_begun "p.json" InTurn _)).trans (@move 1 _ (by decide +kernel))
  refine ⟨_, sound_blank, opened, by decide +kernel, ?_⟩
  rcases file_of_saves_in_turn sound_blank opened with hfile | ⟨saver, hmem, hfile, -⟩
  · exact absurd hfile (by decide +kernel)
  · exact ⟨saver, hmem, hfile⟩

end Saving

end AlertSilences
