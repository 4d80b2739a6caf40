import AlertSilences.Proofs.Disk.Elsewhere
import AlertSilences.Proofs.Storage.Saving

/-! One call that saves a registry while no other saves to its path. What it writes comes in any
parts, each of its steps can fail, and the machine can stop in between and lose what was written.
Until the call has saved, everything at the path is as it was, and then the file there is complete.
Nothing else changes but the file beside the path. -/

namespace AlertSilences

open Disk

/-- The files that a call that saves to a path may write: the one beside the path, or a new one. -/
def Disk.MayFill (d : Disk) (path : String) (k : Inode) : Prop :=
  d.At (temporaryPath path) k ∨ d.next ≤ k

/-- No file is at the path that may be written before the path is given it. -/
theorem Disk.Apart.not_mayFill {d : Disk} (formed : d.Formed) {text path : String}
    (apart : d.Apart text (temporaryPath path)) {k : Inode} (hk : d.At text k) :
    ¬d.MayFill path k := by
  rintro (htemporary | hnew)
  · exact apart k hk htemporary
  · exact Nat.not_le_of_lt (hk.lt_next formed) hnew

namespace SaveCall

def IsSaved (c : SaveCall) : Prop := c.stage = .done (.ok ())

def isSaved (c : SaveCall) : Bool :=
  match c.stage with
  | .done (.ok ()) => true
  | _ => false

theorem isSaved_iff {c : SaveCall} : c.isSaved = true ↔ c.IsSaved := by
  rw [isSaved, IsSaved]
  split
  · next h => exact ⟨fun _ => h, fun _ => rfl⟩
  · next h => exact ⟨nofun, fun hsaved => absurd hsaved h⟩

instance (c : SaveCall) : Decidable c.IsSaved := decidable_of_iff _ isSaved_iff

namespace Advance

variable {chunk : Nat} {c c' : SaveCall} {d d' : Disk}

theorem eq_of_isSaved (h : Advance chunk c d c' d') (hc : c.IsSaved) : c' = c ∧ d' = d := by
  cases h with
  | rest _ => exact ⟨rfl, rfl⟩
  | fail _ stage => rcases stage with stage | stage <;> cases hc.symm.trans stage
  | create stage _ _ => cases hc.symm.trans stage
  | write stage => cases hc.symm.trans stage
  | sync stage => cases hc.symm.trans stage
  | rename stage _ _ _ _ => cases hc.symm.trans stage
  | same stage _ _ _ _ => cases hc.symm.trans stage

theorem next_le (h : Advance chunk c d c' d') (formed : d.Formed) : d.next ≤ d'.next := by
  cases h with
  | create _ _ created => exact created.change.next_le
  | @write file offset _ =>
    rcases change_writeAt file offset ((c.bytes.drop offset).take chunk) formed with heq | change
    · exact Nat.le_of_eq (congrArg Disk.next heq.symm)
    · exact change.next_le
  | rename _ _ _ _ renamed => exact renamed.change.next_le
  | _ => exact Nat.le_refl _

/-- A step is about the name of the file beside the path, and about that of the path only if the
call has saved with it; and only the file beside the path is written, or a new one. -/
theorem confined (h : Advance chunk c d c' d') (formed : d.Formed) (hc : c.Underway d) :
    Confined (fun i name => d.Names (temporaryPath c.path) i name ∨
      c'.IsSaved ∧ d.Names c.path i name) (d.MayFill c.path) d d' := by
  cases h with
  | create _ names created =>
    refine (created.confined formed).mono ?_ ?_
    · rintro g m ⟨rfl, rfl⟩
      exact .inl names
    · rintro k rfl
      exact created.at_or_new names
  | write stage =>
    rw [Underway, stage] at hc
    obtain ⟨-, i, name, names, there, -⟩ := hc
    refine (confined_writeAt formed _ _ _).mono (fun _ _ => False.elim) ?_
    rintro k rfl
    exact .inl ⟨i, name, names, there⟩
  | rename _ old new _ renamed =>
    refine (renamed.confined formed).mono ?_ fun _ => False.elim
    rintro g m (⟨rfl, rfl⟩ | ⟨rfl, rfl⟩)
    · exact .inl old
    · exact .inr ⟨rfl, new⟩
  | _ => exact .refl _ _ d

/-- The file beside the path is the one from before the step, or it is new. -/
theorem mayFill_of_at (h : Advance chunk c d c' d') (formed : d.Formed) {k : Inode}
    (hk : d'.At (temporaryPath c.path) k) : d.MayFill c.path k := by
  obtain ⟨g, m, hnames, hchild⟩ := hk
  cases h with
  | create _ names created =>
    obtain ⟨rfl, rfl⟩ := hnames.unique (names.keeps (created.change.keeps formed))
    obtain rfl := Option.some.inj (created.child.symm.trans hchild)
    exact created.at_or_new names
  | write _ =>
    rw [child?_writeAt] at hchild
    exact .inl ⟨g, m, hnames.keeps (confined_writeAt formed _ _ _).back, hchild⟩
  | rename _ old _ _ renamed =>
    obtain ⟨rfl, rfl⟩ := hnames.unique (old.keeps (renamed.change.keeps formed))
    cases renamed.gone.symm.trans hchild
  | _ => exact .inl ⟨g, m, hnames, hchild⟩

/-- With the step that saves, the file beside the path is gone, unless it is at the path as well. -/
theorem exists?_temporary (h : Advance chunk c d c' d') (formed : d.Formed) (hc : ¬c.IsSaved)
    (hc' : c'.IsSaved) :
    d'.exists? (temporaryPath c.path) = false ∨
      d' = d ∧ ∃ file, d.At (temporaryPath c.path) file ∧ d.At c.path file := by
  cases h with
  | rename _ old _ _ renamed =>
    refine .inl ?_
    rw [exists?_of_names (old.keeps (renamed.change.keeps formed)), renamed.gone]
    rfl
  | same _ old new there there' => exact .inr ⟨rfl, _, ⟨_, _, old, there⟩, _, _, new, there'⟩
  | fail fault _ => cases hc'
  | create _ _ _ => cases hc'
  | write _ =>
    rw [IsSaved] at hc'
    dsimp only at hc'
    split_ifs at hc'
  | sync _ => cases hc'
  | rest _ => exact absurd hc' hc

end Advance

end SaveCall

structure Attempt where
  registry : Registry
  disk : Disk
  saver : Option Saver

namespace Attempt

def start (r : Registry) (d : Disk) : Attempt := ⟨r, d, none⟩

/-- The registry is used; or the call takes its scan; or it takes a step; or its next step fails; or
the machine stops while the file beside the path is open or not yet renamed, and leaves any bytes in
it. -/
inductive Step (path : String) (s : Attempt) : Attempt → Prop
  | serve {m r'} (step : s.registry.Step r' m) : Step path s { s with registry := r' }
  | begin {scan} (idle : s.saver = none) (order : scan.Perm s.registry.silences) :
      Step path s { s with saver := some ⟨scan, .begin path scan⟩ }
  | move {saver} (chunk : Nat) (there : s.saver = some saver) :
      Step path s
        { s with
          disk := (saver.call.step chunk s.disk).2
          saver := some ⟨saver.scan, (saver.call.step chunk s.disk).1⟩ }
  | fault {saver} (fault : Fault) (there : s.saver = some saver)
      (undone : ∀ answer, saver.call.stage ≠ .done answer) :
      Step path s { s with saver := some ⟨saver.scan, saver.call.fails fault⟩ }
  | stop {saver file content} (fault : Fault) (left : Bytes) (there : s.saver = some saver)
      (started : saver.call.stage.isStarted = true)
      (holds : s.disk.Holds (temporaryPath path) file content) :
      Step path s
        { s with
          disk := s.disk.setNode file (.file left)
          saver := some ⟨saver.scan, saver.call.fails fault⟩ }

abbrev Reaches (path : String) : Attempt → Attempt → Prop := Relation.ReflTransGen (Step path)

def IsSaved (s : Attempt) : Prop := ∃ saver ∈ s.saver, saver.call.IsSaved

/-- Where the disk may differ from what it was `before`. -/
def Places (s : Attempt) (path : String) (before : Disk) (i : Inode) (name : String) : Prop :=
  before.Names (temporaryPath path) i name ∨ s.IsSaved ∧ before.Names path i name

/-- The call writes its scan, and nothing but what it may change has changed. -/
structure Whole (path : String) (before : Disk) (s : Attempt) : Prop where
  began : before.Formed
  formed : s.disk.Formed
  locks : s.disk.locks = before.locks
  next_le : before.next ≤ s.disk.next
  confined : Confined (s.Places path before) (before.MayFill path) before s.disk
  beside : ∀ k, s.disk.At (temporaryPath path) k → before.MayFill path k
  own : ∀ saver ∈ s.saver, saver.call.path = path ∧
    saver.call.bytes = Silence.encodeAll saver.scan ∧ saver.call.Underway s.disk
  saved : ∀ saver ∈ s.saver, saver.call.IsSaved →
    s.disk.file? path = some (Silence.encodeAll saver.scan) ∧
      (before.Apart path (temporaryPath path) → s.disk.exists? (temporaryPath path) = false)

theorem whole_start (path : String) (r : Registry) {d : Disk} (formed : d.Formed) :
    (start r d).Whole path d :=
  ⟨formed, formed, rfl, Nat.le_refl _, .refl _ _ d, fun _ => .inl, nofun, nofun⟩

namespace Whole

variable {path : String} {before : Disk} {s : Attempt} (h : s.Whole path before)

include h

/-- What may be written now, could be before the call. -/
theorem mayFill {k : Inode} (hk : s.disk.MayFill path k) : before.MayFill path k := by
  rcases hk with htemporary | hnew
  · exact h.beside k htemporary
  · exact .inr (Nat.le_trans h.next_le hnew)

/-- Changes of the disk at the name of the file beside the path leave everything else to be as it
was before the call. -/
theorem confined_of_temporary {d' : Disk} {s' : Attempt}
    (mono : s.IsSaved → s'.IsSaved)
    (change : Confined (fun i name => s.disk.Names (temporaryPath path) i name ∨
      s'.IsSaved ∧ s.disk.Names path i name) (s.disk.MayFill path) s.disk d') :
    Confined (s'.Places path before) (before.MayFill path) before d' := by
  refine (h.confined.mono ?_ fun _ hk => hk).trans (change.mono ?_ fun _ => h.mayFill)
  · rintro i name (htemporary | ⟨hsaved, hpath⟩)
    · exact .inl htemporary
    · exact .inr ⟨mono hsaved, hpath⟩
  · rintro i name (htemporary | ⟨hsaved, hpath⟩)
    · exact .inl (htemporary.keeps h.confined.back)
    · exact .inr ⟨hsaved, hpath.keeps h.confined.back⟩

omit h in
/-- A path with the name of the file beside it leads to another name. -/
theorem not_places {i : Inode} {name : String} (unsaved : ¬s.IsSaved)
    (hnames : before.Names path i name) : ¬s.Places path before i name := by
  rintro (htemporary | ⟨hsaved, -⟩)
  · exact hnames.ne_beside not_mem_tmp (by decide) htemporary rfl
  · exact unsaved hsaved

theorem move {saver : Saver} (there : s.saver = some saver) {chunk : Nat} {c : SaveCall}
    {d : Disk} (advance : SaveCall.Advance chunk saver.call s.disk c d) :
    Whole path before { s with disk := d, saver := some ⟨saver.scan, c⟩ } := by
  obtain ⟨hpath, hbytes, hunderway⟩ := h.own saver there
  have confined := advance.confined h.formed hunderway
  rw [hpath] at confined
  refine ⟨h.began, advance.formed h.formed, advance.locks_eq.trans h.locks,
    Nat.le_trans h.next_le (advance.next_le h.formed),
    h.confined_of_temporary ?_ (confined.mono ?_ fun _ hk => hk), fun k hk => ?_, ?_, ?_⟩
  · rintro ⟨other, hother, hsaved⟩
    obtain rfl := Option.some.inj (there.symm.trans hother)
    exact ⟨_, rfl, (advance.eq_of_isSaved hsaved).1 ▸ hsaved⟩
  · rintro i name (htemporary | ⟨hsaved, hnames⟩)
    · exact .inl htemporary
    · exact .inr ⟨⟨_, rfl, hsaved⟩, hnames⟩
  · rw [← hpath] at hk
    exact h.mayFill (hpath ▸ advance.mayFill_of_at h.formed hk)
  · rintro other ⟨⟩
    exact ⟨advance.path_eq.trans hpath, advance.bytes_eq.trans hbytes,
      advance.underway h.formed hunderway⟩
  · rintro other ⟨⟩ hsaved
    by_cases hbefore : saver.call.IsSaved
    · obtain ⟨-, rfl⟩ := advance.eq_of_isSaved hbefore
      exact h.saved saver there hbefore
    · have hfile := advance.file?_of_saved h.formed hunderway hbefore hsaved
      rw [hpath, hbytes] at hfile
      refine ⟨hfile, fun apart => ?_⟩
      have unsaved : ¬s.IsSaved := by
        rintro ⟨other, hother, hsaved'⟩
        obtain rfl := Option.some.inj (there.symm.trans hother)
        exact hbefore hsaved'
      rcases advance.exists?_temporary h.formed hbefore hsaved with hgone | ⟨-, k, hk, hk'⟩
      · rwa [hpath] at hgone
      · -- the file beside the path was not at the path before, and has not come there since
        rw [hpath] at hk hk'
        have hback := h.confined.at_iff (fun _ _ => not_places unsaved) k
        exact absurd (h.beside k hk) (apart.not_mayFill h.began (hback.1 hk'))

theorem fails {saver : Saver} (there : s.saver = some saver) (fault : Fault) {d : Disk}
    (unsaved : ¬saver.call.IsSaved) (formed : d.Formed) (locks : d.locks = s.disk.locks)
    (next : s.disk.next ≤ d.next)
    (change : Confined (fun _ _ => False) (s.disk.MayFill path) s.disk d) :
    Whole path before { s with disk := d, saver := some ⟨saver.scan, saver.call.fails fault⟩ } := by
  obtain ⟨hpath, hbytes, -⟩ := h.own saver there
  refine ⟨h.began, formed, locks.trans h.locks, Nat.le_trans h.next_le next,
    h.confined_of_temporary ?_ (change.mono (fun _ _ => False.elim) fun _ hk => hk), ?_, ?_, ?_⟩
  · rintro ⟨other, hother, hsaved⟩
    obtain rfl := Option.some.inj (there.symm.trans hother)
    exact absurd hsaved unsaved
  · exact fun k hk => h.beside k ((change.at_iff (fun _ _ _ => not_false) k).1 hk)
  · rintro other ⟨⟩
    exact ⟨hpath, hbytes, trivial⟩
  · rintro other ⟨⟩ ⟨⟩

theorem step {s' : Attempt} (step : Step path s s') : s'.Whole path before := by
  cases step with
  | serve _ => exact ⟨h.began, h.formed, h.locks, h.next_le, h.confined, h.beside, h.own, h.saved⟩
  | @begin scan idle _ =>
    refine ⟨h.began, h.formed, h.locks, h.next_le, h.confined_of_temporary ?_ (.refl _ _ _),
      h.beside, ?_, ?_⟩
    · rintro ⟨other, hother, -⟩
      cases idle.symm.trans hother
    · rintro other ⟨⟩
      exact ⟨rfl, rfl, trivial⟩
    · rintro other ⟨⟩ ⟨⟩
  | move chunk there => exact h.move there (SaveCall.advance_step h.formed _ chunk)
  | fault fault there undone =>
    exact h.fails there fault (undone _) h.formed rfl (Nat.le_refl _) (.refl _ _ _)
  | @stop saver file content fault left there started holds =>
    obtain ⟨i, name, names, child, hcontent⟩ := holds
    have nofolder := isFolder_of_content? hcontent
    have made := h.formed.named child
    have unsaved : ¬saver.call.IsSaved := by
      intro hsaved
      rw [hsaved] at started
      cases started
    refine h.fails there fault unsaved ((Change.fill file left nofolder made).formed h.formed) rfl
      (Nat.le_refl _)
      ((confined_fill h.formed nofolder made left).mono (fun _ _ => id) ?_)
    rintro k rfl
    exact .inl ⟨i, name, names, child⟩

/-- As long as the call has not saved, everything at the path is as it was before, if the file
there was not beside the path as well. -/
theorem untouched (apart : before.Apart path (temporaryPath path)) (unsaved : ¬s.IsSaved) :
    Untouched before s.disk path :=
  h.confined.untouched h.began h.formed (fun _ _ => not_places unsaved)
    fun _ => apart.not_mayFill h.began

end Whole

theorem Reaches.whole {path : String} {r : Registry} {d : Disk} (formed : d.Formed) {s : Attempt}
    (reaches : Reaches path (start r d) s) : s.Whole path d := by
  induction reaches with
  | refl => exact whole_start path r formed
  | tail _ step ih => exact ih.step step

/-- A call keeps the scan that it took. -/
theorem Step.exists_scan {path : String} {s s' : Attempt} (step : Step path s s') {saver : Saver}
    (there : s'.saver = some saver) :
    (∃ earlier, s.saver = some earlier ∧ earlier.scan = saver.scan) ∨
      s.saver = none ∧ saver.scan.Perm s.registry.silences := by
  cases step with
  | serve _ => exact .inl ⟨saver, there, rfl⟩
  | begin idle order =>
    cases there
    exact .inr ⟨idle, order⟩
  | move _ before => cases there; exact .inl ⟨_, before, rfl⟩
  | fault _ before _ => cases there; exact .inl ⟨_, before, rfl⟩
  | stop _ _ before _ _ => cases there; exact .inl ⟨_, before, rfl⟩

/-- What the call writes was listed of the registry before its first step. -/
theorem Reaches.exists_listed {path : String} {r : Registry} {d : Disk} {s : Attempt}
    (reaches : Reaches path (start r d) s) {saver : Saver} (there : s.saver = some saver) :
    ∃ s₀, Reaches path (start r d) s₀ ∧ Reaches path s₀ s ∧ s₀.saver = none ∧
      saver.scan.Perm s₀.registry.silences := by
  induction reaches generalizing saver with
  | refl => cases there
  | @tail s₁ s₂ before step ih =>
    rcases step.exists_scan there with ⟨earlier, hearlier, hscan⟩ | ⟨hnone, hlisted⟩
    · obtain ⟨s₀, hbefore, hafter, hnone, hlisted⟩ := ih hearlier
      exact ⟨s₀, hbefore, hafter.tail step, hnone, hscan ▸ hlisted⟩
    · exact ⟨s₁, before, .single step, hnone, hlisted⟩

/-- Nothing that is done to the disk changes the registry. -/
theorem Step.registry_or_disk {path : String} {s s' : Attempt} (step : Step path s s') :
    s'.registry = s.registry ∨
      (∃ m, s.registry.Step s'.registry m) ∧ s'.disk = s.disk ∧ s'.saver = s.saver := by
  cases step with
  | serve step => exact .inr ⟨⟨_, step⟩, rfl, rfl⟩
  | _ => exact .inl rfl

/-- At whatever point a call is stopped, if it has saved the file at its path holds all that was
listed of the registry at one time. If the file at the path was not beside it as well, then moreover
none is left beside it; and until it has saved, everything at the path is as it was. No path that
leads elsewhere, and has no file that was beside the path, no lock and no registry is changed. -/
theorem file_of_single_save {path : String} {r : Registry} {d : Disk} (formed : d.Formed)
    {s : Attempt} (reaches : Reaches path (start r d) s) :
    (∀ saver ∈ s.saver, saver.call.IsSaved →
      s.disk.file? path = some (Silence.encodeAll saver.scan)) ∧
    (d.Apart path (temporaryPath path) →
      (¬s.IsSaved → Untouched d s.disk path) ∧
      (s.IsSaved → s.disk.exists? (temporaryPath path) = false)) ∧
    (∀ saver ∈ s.saver, ∃ s₀, Reaches path (start r d) s₀ ∧ Reaches path s₀ s ∧
      s₀.saver = none ∧ saver.scan.Perm s₀.registry.silences) ∧
    (∀ text, (∀ i name, d.Names text i name →
        ¬d.Names path i name ∧ ¬d.Names (temporaryPath path) i name) →
      d.Apart text (temporaryPath path) → Untouched d s.disk text) ∧
    s.disk.locks = d.locks ∧
    ∀ s', Step path s s' → s'.registry = s.registry ∨
      (∃ m, s.registry.Step s'.registry m) ∧ s'.disk = s.disk ∧ s'.saver = s.saver := by
  have whole := reaches.whole formed
  refine ⟨fun saver there hsaved => (whole.saved saver there hsaved).1,
    fun apart => ⟨whole.untouched apart, ?_⟩, fun saver there => reaches.exists_listed there,
    fun text elsewhere apart => ?_, whole.locks, fun s' step => step.registry_or_disk⟩
  · rintro ⟨saver, there, hsaved⟩
    exact (whole.saved saver there hsaved).2 apart
  · refine whole.confined.untouched formed whole.formed (fun i name hnames => ?_)
      fun _ => apart.not_mayFill formed
    rintro (htemporary | ⟨-, hpath⟩)
    · exact (elsewhere i name hnames).2 htemporary
    · exact (elsewhere i name hnames).1 hpath

/-- A call may take several steps that each write all there is. -/
theorem reaches_steps (path : String) {s : Attempt} {saver : Saver} (there : s.saver = some saver)
    (n : Nat) :
    Reaches path s
      { s with
        disk := (saver.call.steps s.disk n).2
        saver := some ⟨saver.scan, (saver.call.steps s.disk n).1⟩ } := by
  induction n generalizing s saver with
  | zero =>
    obtain ⟨r, d, _⟩ := s
    cases there
    exact .refl
  | succ n ih =>
    have rest := ih (s := { s with
      disk := (saver.call.step saver.call.bytes.length s.disk).2
      saver := some ⟨saver.scan, (saver.call.step saver.call.bytes.length s.disk).1⟩ }) rfl
    exact .head (.move saver.call.bytes.length there) rest

/-- The registry is cleared when the file beside the path has just been opened. -/
theorem file_of_single_save_while_cleared :
    ∃ (r : Registry) (s : Attempt), Disk.blank.Formed ∧ Reaches "p.json" (start r .blank) s ∧
      Disk.blank.Apart "p.json" "p.json.tmp" ∧ s.IsSaved ∧ s.registry.records = ∅ ∧
      s.disk.exists? "p.json.tmp" = false ∧
      ∃ saver ∈ s.saver, saver.scan.map (·.createdBy) = ["ops"] ∧
        s.disk.file? "p.json" = some (Silence.encodeAll saver.scan) := by
  generalize hr : (Registry.empty.add default (.new default "ops" default)).registry = r
  have begun : Reaches "p.json" (start r .blank)
      ⟨r, .blank, some ⟨r.silences, .begin "p.json" r.silences⟩⟩ :=
    .single (.begin rfl (.refl _))
  generalize hopened : (SaveCall.begin "p.json" r.silences).steps .blank 1 = opened
  have cleared : Reaches "p.json" (start r .blank)
      ⟨r.clear.registry, opened.2, some ⟨r.silences, opened.1⟩⟩ := by
    rw [← hopened]
    have step : r.Step r.clear.registry ⟨default, .call 0 (.clear r.size), r.clear.log⟩ := rfl
    exact (begun.trans (reaches_steps "p.json" rfl 1)).tail (.serve step)
  have saved := cleared.trans (reaches_steps "p.json" rfl 3)
  have isSaved : (opened.1.steps opened.2 3).1.IsSaved := by
    rw [← hopened, ← hr]
    decide +kernel
  generalize opened.1.steps opened.2 3 = done at saved isSaved
  have apart := sound_blank.apart_temporary "p.json"
  obtain ⟨hfile, hgone, -⟩ := file_of_single_save sound_blank.toFormed saved
  refine ⟨r, _, sound_blank, saved, apart, ⟨_, rfl, isSaved⟩, rfl,
    (hgone apart).2 ⟨_, rfl, isSaved⟩, _, rfl, ?_, hfile _ rfl isSaved⟩
  change r.silences.map (·.createdBy) = ["ops"]
  rw [← hr]
  decide +kernel

/-- An empty registry, and its call after so many steps that each write all there is. -/
def after (path : String) (d : Disk) (n : Nat) : Attempt :=
  ⟨.empty, ((SaveCall.begin path []).steps d n).2,
    some ⟨[], ((SaveCall.begin path []).steps d n).1⟩⟩

theorem reaches_after (path : String) (d : Disk) (n : Nat) :
    Reaches path (start .empty d) (after path d n) := by
  have begun : Reaches path (start .empty d) ⟨.empty, d, some ⟨[], .begin path []⟩⟩ :=
    .single (.begin rfl (.refl _))
  have steps := reaches_steps path (s := ⟨.empty, d, some ⟨[], .begin path []⟩⟩) rfl n
  exact begun.trans steps

theorem isSaved_after {path : String} {d : Disk} {n : Nat} :
    (after path d n).IsSaved ↔ ((SaveCall.begin path []).steps d n).1.IsSaved := by
  refine ⟨?_, fun h => ⟨_, rfl, h⟩⟩
  rintro ⟨saver, ⟨⟩, h⟩
  exact h

/-- If the file at the path is beside it as well, it is emptied when that is opened, and stays
beside the path. If another path has the file beside the path, that is changed by the save. -/
theorem save_writes_through_second_name :
    (twoNames "p.json" "p.json.tmp" [32]).Formed ∧
    (twoNames "p.json" "p.json.tmp" [32]).file? "p.json" = some [32] ∧
    (∃ s, Reaches "p.json" (start .empty (twoNames "p.json" "p.json.tmp" [32])) s ∧
      ¬s.IsSaved ∧ s.disk.file? "p.json" = some []) ∧
    (∃ s, Reaches "p.json" (start .empty (twoNames "p.json" "p.json.tmp" [32])) s ∧
      s.IsSaved ∧ s.disk.exists? "p.json.tmp" = true) ∧
    (twoNames "backup.json" "p.json.tmp" [32]).Formed ∧
    (twoNames "backup.json" "p.json.tmp" [32]).file? "backup.json" = some [32] ∧
    ∃ s, Reaches "p.json" (start .empty (twoNames "backup.json" "p.json.tmp" [32])) s ∧
      s.IsSaved ∧ s.disk.file? "backup.json" = some (Silence.encodeAll []) := by
  refine ⟨formed_twoNames _ _ _, ?_, ⟨_, reaches_after _ _ 1, mt isSaved_after.1 ?_, ?_⟩,
    ⟨_, reaches_after _ _ 4, isSaved_after.2 ?_, ?_⟩, formed_twoNames _ _ _, ?_,
    ⟨_, reaches_after _ _ 4, isSaved_after.2 ?_, ?_⟩⟩
  all_goals decide +kernel

end Attempt

end AlertSilences
