import AlertSilences.Proofs.Disk.Files
import AlertSilences.Storage.Save

/-! One call that saves. As long as nobody else opens the file beside its path, that holds what the
call has written so far, and the file at the path changes once: it becomes complete. -/

namespace AlertSilences

open Disk

/-- What holds of the new element and of all others holds of a list with one element replaced. -/
theorem forall_mem_set {α : Type} {l : List α} {k : Nat} {a : α} (there : l[k]? = some a)
    {P : α → Prop} {b : α} (hb : P b) (others : ∀ j x, l[j]? = some x → j ≠ k → P x) :
    ∀ x ∈ l.set k b, P x := by
  intro x hx
  obtain ⟨j, hj⟩ := List.mem_iff_getElem?.1 hx
  rcases eq_or_ne j k with rfl | hne
  · rw [List.getElem?_set_self (List.getElem?_eq_some_iff.1 there).1] at hj
    exact Option.some.inj hj ▸ hb
  · exact others j x ((List.getElem?_set_ne hne.symm).symm.trans hj) hne

theorem not_mem_tmp : '/' ∉ (".tmp" : String).toList := by decide

theorem not_mem_lock : '/' ∉ (".lock" : String).toList := by decide

theorem Disk.Sound.apart_temporary {d : Disk} (sound : d.Sound) (path : String) :
    d.Apart path (temporaryPath path) := sound.apart_beside not_mem_tmp (by decide)

theorem Disk.Sound.apart_lock {d : Disk} (sound : d.Sound) (path : String) :
    d.Apart path (lockPath path) := sound.apart_beside not_mem_lock (by decide)

namespace SaveCall

inductive Advance (chunk : Nat) (c : SaveCall) (d : Disk) : SaveCall → Disk → Prop
  | fail (fault : Fault) (stage : c.stage = .opening ∨ c.stage = .renaming) :
      Advance chunk c d (c.fails fault) d
  | create {i name file d'} (stage : c.stage = .opening)
      (names : d.Names (temporaryPath c.path) i name) (created : Created d d' i name file) :
      Advance chunk c d { c with stage := .writing file 0 } d'
  | write {file offset} (stage : c.stage = .writing file offset) :
      Advance chunk c d
        { c with
          stage :=
            if offset + ((c.bytes.drop offset).take chunk).length < c.bytes.length then
              .writing file (offset + ((c.bytes.drop offset).take chunk).length)
            else .syncing }
        (d.writeAt file offset ((c.bytes.drop offset).take chunk))
  | sync (stage : c.stage = .syncing) : Advance chunk c d { c with stage := .renaming } d
  | rename {i name j name' file d'} (stage : c.stage = .renaming)
      (old : d.Names (temporaryPath c.path) i name) (new : d.Names c.path j name')
      (there : d.child? i name = some file) (renamed : Renamed d d' i name j name' file) :
      Advance chunk c d { c with stage := .done (.ok ()) } d'
  | same {i name j name' file} (stage : c.stage = .renaming)
      (old : d.Names (temporaryPath c.path) i name) (new : d.Names c.path j name')
      (there : d.child? i name = some file) (there' : d.child? j name' = some file) :
      Advance chunk c d { c with stage := .done (.ok ()) } d
  | rest {answer} (stage : c.stage = .done answer) : Advance chunk c d c d

theorem advance_step {d : Disk} (formed : d.Formed) (c : SaveCall) (chunk : Nat) :
    Advance chunk c d (c.step chunk d).1 (c.step chunk d).2 := by
  rw [step]
  split
  · next hstage =>
    split
    · exact .fail _ (.inl hstage)
    · next file d' hcreate =>
      obtain ⟨i, name, hnames, hcreated⟩ := created_of_create formed hcreate
      exact .create hstage hnames hcreated
  · next file offset hstage => exact .write hstage
  · next hstage => exact .sync hstage
  · next hstage =>
    dsimp only
    split
    · exact .fail _ (.inr hstage)
    · next d' hrename =>
      obtain ⟨i, name, j, name', file, hold, hnew, hthere, h⟩ := renamed_of_rename hrename
      rcases h with ⟨hthere', rfl⟩ | hrenamed
      · exact .same hstage hold hnew hthere hthere'
      · exact .rename hstage hold hnew hthere hrenamed
  · next answer hstage => exact .rest hstage

namespace Advance

variable {chunk : Nat} {c c' : SaveCall} {d d' : Disk}

theorem path_eq (h : Advance chunk c d c' d') : c'.path = c.path := by
  cases h <;> rfl

theorem bytes_eq (h : Advance chunk c d c' d') : c'.bytes = c.bytes := by
  cases h <;> rfl

theorem locks_eq (h : Advance chunk c d c' d') : d'.locks = d.locks := by
  cases h with
  | create _ _ created => exact created.locks
  | write _ => exact locks_writeAt _ _ _ _
  | rename _ _ _ _ renamed => exact renamed.locks
  | _ => rfl

theorem formed (h : Advance chunk c d c' d') (formed : d.Formed) : d'.Formed := by
  cases h with
  | create _ _ created => exact created.change.formed formed
  | write _ => exact formed_writeAt _ _ _ formed
  | rename _ _ _ _ renamed => exact renamed.change.formed formed
  | _ => exact formed

theorem sound (h : Advance chunk c d c' d') (sound : d.Sound) : d'.Sound := by
  cases h with
  | create _ _ created => exact created.change.sound sound
  | write _ => exact sound_writeAt _ _ _ sound
  | rename _ _ _ _ renamed => exact renamed.change.sound sound
  | _ => exact sound

theorem keeps (h : Advance chunk c d c' d') (formed : d.Formed) : d.Keeps d' := by
  cases h with
  | create _ _ created => exact created.change.keeps formed
  | write _ => exact keeps_writeAt _ _ _ formed
  | rename _ _ _ _ renamed => exact renamed.change.keeps formed
  | _ => exact .refl d

/-- The lock file keeps its name. -/
theorem child?_lock (h : Advance chunk c d c' d') {i : Inode} {name : String}
    (hlock : d.Names (lockPath c.path) i name) : d'.child? i name = d.child? i name := by
  have hne {g m} (hm : d.Names (temporaryPath c.path) g m) : ¬(i = g ∧ name = m) := fun heq =>
    (names_beside_ne not_mem_lock (by decide) not_mem_tmp (by decide) (by decide) hlock hm).2 heq.2
  cases h with
  | create _ names created => exact created.others i name (hne names)
  | write _ => exact child?_writeAt _ _ _ _ i name
  | rename _ old new _ renamed =>
    refine renamed.others i name (hne old) fun heq => ?_
    exact new.ne_beside not_mem_lock (by decide) hlock heq.2.symm
  | _ => rfl

end Advance

/-- What a call is to write is so far in the file beside its path. -/
def Underway (c : SaveCall) (d : Disk) : Prop :=
  match c.stage with
  | .writing file offset =>
    offset ≤ c.bytes.length ∧ d.Holds (temporaryPath c.path) file (c.bytes.take offset)
  | .syncing | .renaming => d.file? (temporaryPath c.path) = some c.bytes
  | _ => True

theorem take_add_length_take (bytes : Bytes) (offset chunk : Nat) :
    bytes.take (offset + ((bytes.drop offset).take chunk).length) =
      bytes.take offset ++ (bytes.drop offset).take chunk := by
  rw [List.take_add, List.length_take, ← List.take_eq_take_min]

theorem Advance.underway {chunk : Nat} {c c' : SaveCall} {d d' : Disk} (formed : d.Formed)
    (h : Advance chunk c d c' d') (hc : c.Underway d) : c'.Underway d' := by
  cases h with
  | fail fault _ => exact trivial
  | create _ names created => exact ⟨Nat.zero_le _, created.holds formed names⟩
  | @write file offset stage =>
    rw [Underway, stage] at hc
    obtain ⟨hle, hholds⟩ := hc
    have hmore := hholds.append formed ((c.bytes.drop offset).take chunk)
    rw [List.length_take_of_le hle, ← take_add_length_take] at hmore
    rw [Underway]
    dsimp only
    split_ifs with hwritten
    · exact ⟨Nat.le_of_lt hwritten, hmore⟩
    · rw [List.take_of_length_le (Nat.le_of_not_lt hwritten)] at hmore
      exact hmore.file?_eq
  | sync stage =>
    rw [Underway, stage] at hc
    exact hc
  | rename _ _ _ _ _ => exact trivial
  | same _ _ _ _ _ => exact trivial
  | rest stage => exact hc

/-- With the step that saves, the file at the path is complete. -/
theorem Advance.file?_of_saved {chunk : Nat} {c c' : SaveCall} {d d' : Disk} (formed : d.Formed)
    (h : Advance chunk c d c' d') (hc : c.Underway d) (unsaved : c.stage ≠ .done (.ok ()))
    (saved : c'.stage = .done (.ok ())) : d'.file? c.path = some c.bytes := by
  cases h with
  | fail _ _ => cases saved
  | create _ _ _ => cases saved
  | write _ =>
    dsimp only at saved
    split_ifs at saved
  | sync _ => cases saved
  | rename stage old new there renamed =>
    rw [Underway, stage] at hc
    rw [file?_of_names old, there] at hc
    rw [file?_of_names (new.keeps (renamed.change.keeps formed)), renamed.child, ← hc]
    exact renamed.contents _
  | same stage old new there there' =>
    rw [Underway, stage] at hc
    rw [file?_of_names new, there', ← hc, file?_of_names old, there]
  | rest _ => exact absurd saved unsaved

/-- Until a call is done the file at the path is the one from before, if it is not the one beside
the path as well; and then it is complete. -/
theorem Advance.file?_eq {chunk : Nat} {c c' : SaveCall} {d d' : Disk} (formed : d.Formed)
    (apart : d.Apart c.path (temporaryPath c.path)) (h : Advance chunk c d c' d')
    (hc : c.Underway d) :
    d'.file? c.path = d.file? c.path ∧ (c'.stage = .done (.ok ()) → c' = c) ∨
      d'.file? c.path = some c.bytes ∧ c'.stage = .done (.ok ()) := by
  have hsaved := h.file?_of_saved formed hc
  cases h with
  | fail fault stage =>
    refine .inl ⟨rfl, ?_⟩
    rintro ⟨⟩
  | create _ names created =>
    refine .inl ⟨created.file?_beside formed not_mem_tmp (by decide) apart names, ?_⟩
    rintro ⟨⟩
  | @write file offset stage =>
    rw [Underway, stage] at hc
    refine .inl ⟨hc.2.file?_beside formed not_mem_tmp (by decide) apart _ _, ?_⟩
    dsimp only
    split_ifs
    · rintro ⟨⟩
    · rintro ⟨⟩
  | sync stage =>
    refine .inl ⟨rfl, ?_⟩
    rintro ⟨⟩
  | rename stage _ _ _ _ => exact .inr ⟨hsaved (by rw [stage]; nofun) rfl, rfl⟩
  | same stage _ _ _ _ => exact .inr ⟨hsaved (by rw [stage]; nofun) rfl, rfl⟩
  | rest stage => exact .inl ⟨rfl, fun _ => rfl⟩

def stepsLeft : SaveStage → Nat
  | .opening => 4
  | .writing _ _ => 3
  | .syncing => 2
  | .renaming => 1
  | .done _ => 0

theorem Advance.stepsLeft_le {c c' : SaveCall} {d d' : Disk}
    (h : Advance c.bytes.length c d c' d') {n : Nat} (hn : stepsLeft c.stage ≤ n + 1) :
    stepsLeft c'.stage ≤ n := by
  cases h with
  | fail fault _ => exact Nat.zero_le n
  | create stage _ _ =>
    rw [stage] at hn
    exact Nat.le_of_succ_le_succ hn
  | write stage =>
    rw [stage] at hn
    dsimp only
    rw [if_neg (by simp; omega)]
    exact Nat.le_of_succ_le_succ hn
  | sync stage =>
    rw [stage] at hn
    exact Nat.le_of_succ_le_succ hn
  | rename _ _ _ _ _ => exact Nat.zero_le n
  | same _ _ _ _ _ => exact Nat.zero_le n
  | rest stage =>
    rw [stage]
    exact Nat.zero_le n

/-- A call on its way, or one that is done and has put all its bytes in place. -/
structure Trusted (c : SaveCall) (d : Disk) : Prop where
  sound : d.Sound
  underway : c.Underway d
  saved : c.stage = .done (.ok ()) → d.file? c.path = some c.bytes

theorem Advance.trusted {chunk : Nat} {c c' : SaveCall} {d d' : Disk}
    (h : Advance chunk c d c' d') (hc : c.Trusted d) : c'.Trusted d' := by
  refine ⟨h.sound hc.sound, h.underway hc.sound hc.underway, fun hdone => ?_⟩
  rw [h.path_eq, h.bytes_eq]
  rcases h.file?_eq hc.sound (hc.sound.apart_temporary _) hc.underway with
    ⟨hfile, hsame⟩ | ⟨hfile, -⟩
  · rw [hfile]
    exact hc.saved (hsame hdone ▸ hdone)
  · exact hfile

theorem trusted_steps {c : SaveCall} {d : Disk} (hc : c.Trusted d) {n : Nat}
    (hn : stepsLeft c.stage ≤ n) :
    (c.steps d n).1.Trusted (c.steps d n).2 ∧ stepsLeft (c.steps d n).1.stage = 0 ∧
      (c.steps d n).1.path = c.path ∧ (c.steps d n).1.bytes = c.bytes := by
  induction n generalizing c d with
  | zero => exact ⟨hc, Nat.le_zero.1 hn, rfl, rfl⟩
  | succ n ih =>
    have h := advance_step hc.sound.toFormed c c.bytes.length
    obtain ⟨htrusted, hleft, hpath, hbytes⟩ := ih (h.trusted hc) (h.stepsLeft_le hn)
    exact ⟨htrusted, hleft, hpath.trans h.path_eq, hbytes.trans h.bytes_eq⟩

/-- A call that is run to its end and answers that it saved has put all its bytes in place. -/
theorem file?_of_run {c : SaveCall} {d d' : Disk} {log : Log} (sound : d.Sound)
    (hc : c.stage = .opening) (h : c.run d = (.ok (), d', log)) :
    d'.Sound ∧ d'.file? c.path = some c.bytes := by
  have hstart : c.Trusted d := by
    refine ⟨sound, ?_, ?_⟩
    · rw [Underway, hc]
      trivial
    · rw [hc]
      rintro ⟨⟩
  have hsteps : stepsLeft c.stage ≤ allSteps := by
    rw [hc]
    exact Nat.le_refl _
  obtain ⟨htrusted, hleft, hpath, hbytes⟩ := trusted_steps hstart hsteps
  rw [run] at h
  generalize c.steps d allSteps = final at h htrusted hleft hpath hbytes
  obtain ⟨c', d''⟩ := final
  dsimp only at h htrusted hleft hpath hbytes
  rw [← hpath, ← hbytes]
  cases hstage : c'.stage with
  | done answer =>
    rw [hstage] at h
    cases answer with
    | error fault => cases h
    | ok done =>
      obtain ⟨-, h⟩ := Prod.mk.inj h
      obtain ⟨rfl, -⟩ := Prod.mk.inj h
      exact ⟨htrusted.sound, htrusted.saved hstage⟩
  | _ => rw [hstage] at hleft; cases hleft

end SaveCall

end AlertSilences
