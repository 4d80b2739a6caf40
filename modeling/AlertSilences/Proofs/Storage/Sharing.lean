import AlertSilences.Proofs.Run
import AlertSilences.Proofs.Storage.Open
import Mathlib.Logic.Relation

/-! Many owners that open one path under its lock, use and save what they opened, and give it up,
their steps in any order. Whoever has the lock is alone with the file. So an open that found a file
when it looked holds what was in it when it got the lock. But one that found none overwrites the
file with an empty registry, also if the file was made since. -/

namespace AlertSilences

open Disk

def SaveStage.isDone : SaveStage → Bool
  | .done _ => true
  | _ => false

/-- Whether an open found a file when it looked, and what was in the file when it got the lock. -/
structure Found where
  existed : Bool
  file : Option Bytes

inductive PartyState
  | opening (call : OpenCall) (found : Option Found)
  | live (registry : Registry) (saves : List SaveCall)
  | gone

structure Party where
  owner : Owner
  state : PartyState

structure Sharing where
  disk : Disk
  parties : List Party

def Found.next (path : String) (found : Option Found) (c c' : OpenCall) (d : Disk) : Option Found :=
  match c.stage, c'.stage with
  | .locking existed, .filling _ => some ⟨existed, d.file? path⟩
  | _, _ => found

/-- What one owner does: a step of its open, a use of the registry that it opened, a save of that
or a step of one, and at last, with no save on its way, to give it up. -/
inductive PartyStep (path : String) (owner : Owner) (d : Disk) :
    PartyState → PartyState → Disk → Prop
  | advance {c found} (now : Instant) (clock : Nat → Instant) :
      PartyStep path owner d (.opening c found)
        (.opening (c.step now clock d).1
          (Found.next path found c (c.step now clock d).1 (c.step now clock d).2))
        (c.step now clock d).2
  | take {c found registry} (done : c.stage = .done (.ok registry)) :
      PartyStep path owner d (.opening c found) (.live registry []) d
  | serve {r r' m saves} (step : r.Step r' m) :
      PartyStep path owner d (.live r saves) (.live r' saves) d
  | begin {r saves scan} (order : scan.Perm r.silences) :
      PartyStep path owner d (.live r saves) (.live r (saves ++ [.begin path scan])) d
  | save {r saves c} {k : Nat} (chunk : Nat) (there : saves[k]? = some c) :
      PartyStep path owner d (.live r saves) (.live r (saves.set k (c.step chunk d).1))
        (c.step chunk d).2
  | drop {r saves} (idle : ∀ c ∈ saves, c.stage.isDone = true) :
      PartyStep path owner d (.live r saves) .gone (d.unlock owner)

namespace Sharing

def start (d : Disk) : Sharing := ⟨d, []⟩

/-- Somebody new comes to open the path, or one of those there does something. -/
inductive Step (path : String) (s : Sharing) : Sharing → Prop
  | arrive (owner : Owner) (createIfMissing : Bool) (new : ∀ p ∈ s.parties, p.owner ≠ owner) :
      Step path s { s with
        parties := s.parties ++
          [⟨owner, .opening (.begin ⟨path, createIfMissing, true⟩ owner) none⟩] }
  | party {k : Nat} {p : Party} {state d} (there : s.parties[k]? = some p)
      (step : PartyStep path p.owner s.disk p.state state d) :
      Step path s ⟨d, s.parties.set k ⟨p.owner, state⟩⟩

abbrev Reaches (path : String) : Sharing → Sharing → Prop := Relation.ReflTransGen (Step path)

end Sharing

namespace Disk

def Locked (d : Disk) (path : String) (owner : Owner) : Prop :=
  ∃ i name file, d.Names (lockPath path) i name ∧ d.child? i name = some file ∧
    d.locks[file]? = some owner

theorem Locked.unique {d : Disk} {path : String} {owner owner' : Owner}
    (h : d.Locked path owner) (h' : d.Locked path owner') : owner = owner' := by
  obtain ⟨i, name, file, hnames, hchild, hlock⟩ := h
  obtain ⟨i', name', file', hnames', hchild', hlock'⟩ := h'
  obtain ⟨rfl, rfl⟩ := hnames.unique hnames'
  obtain rfl := Option.some.inj (hchild.symm.trans hchild')
  exact Option.some.inj (hlock.symm.trans hlock')

/-- A change that is none to the file at a path, nor to the one beside it that a save writes. -/
structure Spares (path : String) (d d' : Disk) : Prop where
  file : d'.file? path = d.file? path
  holds : ∀ {file content}, d.Holds (temporaryPath path) file content →
    d'.Holds (temporaryPath path) file content

theorem Spares.refl (path : String) (d : Disk) : Spares path d d := ⟨rfl, fun h => h⟩

theorem Widens.spares {d d' : Disk} (sound : d.Sound) (h : d.Widens d') {path : String}
    {owner : Owner} (locked : d.Locked path owner) : Spares path d d' := by
  obtain ⟨i, name, -, hnames, -, -⟩ := locked
  exact ⟨h.file?_beside sound.toFormed not_mem_lock (by decide) hnames, h.holds⟩

theorem Created.spares {d d' : Disk} (sound : d.Sound) {path : String} {i file : Inode}
    {name : String} (h : Created d d' i name file) (hnames : d.Names (lockPath path) i name) :
    Spares path d d' := by
  have hne {g k m m'} (hm : d.Names (temporaryPath path) g m) (hm' : d.Names (lockPath path) k m') :
      m ≠ m' :=
    (names_beside_ne not_mem_tmp (by decide) not_mem_lock (by decide) (by decide) hm hm').2
  exact ⟨h.file?_beside sound not_mem_lock (by decide) (sound.apart_lock path) hnames,
    h.holds_of_apart sound hnames (fun g m hm heq => hne hm hnames heq.2) (sound.apart hne)⟩

theorem Locked.widens {d d' : Disk} {path : String} {owner : Owner} (locked : d.Locked path owner)
    (h : d.Widens d') : d'.Locked path owner := by
  obtain ⟨i, name, file, hnames, hchild, hlock⟩ := locked
  exact ⟨i, name, file, hnames.keeps h.keeps, h.child hchild, h.locks ▸ hlock⟩

/-- Opening the lock file again is opening the file that is locked. -/
theorem Locked.created {d d' : Disk} (sound : d.Sound) {path : String} {owner : Owner}
    (locked : d.Locked path owner) {i file : Inode} {name : String}
    (hnames : d.Names (lockPath path) i name) (h : Created d d' i name file) :
    d.locks[file]? = some owner ∧ d'.Locked path owner := by
  obtain ⟨i', name', file', hnames', hchild, hlock⟩ := locked
  obtain ⟨rfl, rfl⟩ := hnames.unique hnames'
  have hfile : file' = file := by
    rcases h.before with hthere | ⟨hnone, -⟩
    · exact Option.some.inj (hchild.symm.trans hthere)
    · cases hchild.symm.trans hnone
  subst hfile
  exact ⟨hlock, i, name, file', hnames.keeps (h.change.keeps sound), h.child, h.locks ▸ hlock⟩

theorem Locked.advance {d d' : Disk} (sound : d.Sound) {path : String} {owner : Owner}
    (locked : d.Locked path owner) {chunk : Nat} {c c' : SaveCall} (hpath : c.path = path)
    (h : SaveCall.Advance chunk c d c' d') : d'.Locked path owner := by
  obtain ⟨i, name, file, hnames, hchild, hlock⟩ := locked
  subst hpath
  exact ⟨i, name, file, hnames.keeps (h.keeps sound), (h.child?_lock hnames).trans hchild,
    h.locks_eq ▸ hlock⟩

end Disk

theorem SaveCall.Underway.spared {c : SaveCall} {d d' : Disk} (sound : d.Sound)
    (h : c.Underway d) (spares : Spares c.path d d') : c.Underway d' := by
  have hfile (hc : d.file? (temporaryPath c.path) = some c.bytes) :
      d'.file? (temporaryPath c.path) = some c.bytes := by
    obtain ⟨file, hholds⟩ := exists_holds sound hc
    exact (spares.holds hholds).file?_eq
  rw [Underway] at h ⊢
  split at h
  · exact ⟨h.1, spares.holds h.2⟩
  · exact hfile h
  · exact hfile h
  · trivial

/-- A registry is what loading the file at a path has made. -/
def Loads (path : String) (file : Option Bytes) (r : Registry) : Prop :=
  ∃ now clock content count log, file = some content ∧
    Registry.empty.load now clock path (.ok content) = ⟨.ok count, r, log⟩

/-- What an open that found `f` has made of it: it has loaded the file that was there when it got
the lock, and left it alone; or, as none was there when it looked, it has put an empty one there. -/
def Found.Answered (path : String) (d : Disk) (f : Found) (r : Registry) : Prop :=
  f.existed = true ∧ Loads path f.file r ∧ d.file? path = f.file ∨
    f.existed = false ∧ r = .empty ∧ d.file? path = some (Silence.encodeAll [])

/-- What is known of an open. Between its lock and its answer the file is as it was found. -/
def OpenCall.Fits (path : String) (d : Disk) (c : OpenCall) (found : Option Found) : Prop :=
  match c.stage with
  | .checking | .making | .locking _ => c.registry = .empty
  | .filling existed => c.registry = .empty ∧ found = some ⟨existed, d.file? path⟩
  | .saving call => c.registry = .empty ∧ call.path = path ∧ call.bytes = Silence.encodeAll [] ∧
      call.Underway d ∧ (∀ answer, call.stage ≠ .done answer) ∧
      found = some ⟨false, d.file? path⟩
  | .done (.ok registry) => ∃ f, found = some f ∧ f.Answered path d registry
  | .done (.error _) => True

namespace PartyState

def isInside : PartyState → Bool
  | .opening c _ =>
    match c.stage with
    | .filling _ | .saving _ | .done (.ok _) => true
    | _ => false
  | .live .. => true
  | .gone => false

def Fits (path : String) (owner : Owner) (d : Disk) : PartyState → Prop
  | .opening c found => c.config.path = path ∧ c.config.lock = true ∧ c.owner = owner ∧
      c.Fits path d found
  | .live _ saves => ∀ c ∈ saves, c.path = path
  | .gone => True

theorem Fits.of_not_isInside {path : String} {owner : Owner} {d : Disk} {state : PartyState}
    (h : state.Fits path owner d) (outside : state.isInside = false) (d' : Disk) :
    state.Fits path owner d' := by
  cases state with
  | opening c found =>
    obtain ⟨hpath, hlock, howner, hfits⟩ := h
    refine ⟨hpath, hlock, howner, ?_⟩
    rw [OpenCall.Fits] at hfits ⊢
    rw [isInside] at outside
    split at hfits <;> simp_all
  | live r saves => cases outside
  | gone => trivial

theorem Fits.spared {path : String} {owner : Owner} {d d' : Disk} {state : PartyState}
    (sound : d.Sound) (h : state.Fits path owner d) (spares : Spares path d d') :
    state.Fits path owner d' := by
  cases state with
  | opening c found =>
    obtain ⟨hpath, hlock, howner, hfits⟩ := h
    refine ⟨hpath, hlock, howner, ?_⟩
    rw [OpenCall.Fits] at hfits ⊢
    split at hfits
    · exact hfits
    · exact hfits
    · exact hfits
    · exact ⟨hfits.1, spares.file ▸ hfits.2⟩
    · obtain ⟨hempty, rfl, hbytes, hunderway, hmore, hfound⟩ := hfits
      exact ⟨hempty, rfl, hbytes, hunderway.spared sound spares, hmore, spares.file ▸ hfound⟩
    · obtain ⟨f, hfound, hanswered⟩ := hfits
      rw [Found.Answered, ← spares.file] at hanswered
      exact ⟨f, hfound, hanswered⟩
    · trivial
  | live r saves => exact h
  | gone => trivial

end PartyState

/-- A step of an open on its way, by one who has the lock if that is needed. -/
theorem OpenCall.Advance.fits {now : Instant} {clock : Nat → Instant} {c c' : OpenCall}
    {d d' : Disk} (sound : d.Sound) (h : Advance now clock c d c' d') {found : Option Found}
    {path : String} {owner : Owner} (fits : (PartyState.opening c found).Fits path owner d)
    (inside : (PartyState.opening c found).isInside = true → d.Locked path owner) :
    d'.Sound ∧
      (PartyState.opening c' (Found.next path found c c' d')).Fits path owner d' ∧
      ((PartyState.opening c' (Found.next path found c c' d')).isInside = true →
        d'.Locked path owner) := by
  obtain ⟨rfl, hlock, rfl, hfits⟩ := fits
  rw [OpenCall.Fits] at hfits
  rw [PartyState.isInside] at inside
  cases h with
  | found stage there =>
    rw [stage] at hfits
    exact ⟨sound, ⟨rfl, hlock, rfl, hfits⟩, nofun⟩
  | missed stage there =>
    rw [stage] at hfits
    exact ⟨sound, ⟨rfl, hlock, rfl, hfits⟩, nofun⟩
  | refused stage e => exact ⟨sound, ⟨rfl, hlock, rfl, trivial⟩, nofun⟩
  | made stage widens =>
    rw [stage] at hfits
    exact ⟨widens.sound sound, ⟨rfl, hlock, rfl, hfits⟩, nofun⟩
  | unmade stage widens e => exact ⟨widens.sound sound, ⟨rfl, hlock, rfl, trivial⟩, nofun⟩
  | passed stage free => cases hlock.symm.trans free
  | @locked existed i name file d' stage names created free =>
    rw [stage] at hfits
    have hkeeps := created.change.keeps sound
    refine ⟨(Change.locks _).sound (created.change.sound sound), ⟨rfl, hlock, rfl, hfits, ?_⟩,
      fun _ => ⟨i, name, file, names.keeps (hkeeps.trans ?_), created.child, ?_⟩⟩
    · rw [Found.next, stage]
    · exact (Change.locks _).keeps (created.change.sound sound)
    · simp
  | blocked stage names created e =>
    exact ⟨created.change.sound sound, ⟨rfl, hlock, rfl, trivial⟩, nofun⟩
  | barred stage e => exact ⟨sound, ⟨rfl, hlock, rfl, trivial⟩, nofun⟩
  | @loaded count registry log stage load =>
    rw [stage] at hfits inside
    obtain ⟨hempty, hfound⟩ := hfits
    refine ⟨sound, ⟨rfl, hlock, rfl, ?_⟩, fun _ => inside rfl⟩
    rw [Found.next, stage]
    refine ⟨_, hfound, .inl ⟨rfl, ?_, rfl⟩⟩
    rw [hempty] at load
    cases hread : d.readText c.config.path with
    | error fault =>
      rw [hread] at load
      cases load
    | ok content => exact ⟨now, clock, content, count, log, readText_eq_ok.1 hread, hread ▸ load⟩
  | unloaded stage e =>
    exact ⟨(Change.locks _).sound sound, ⟨rfl, hlock, rfl, trivial⟩, nofun⟩
  | filled stage =>
    rw [stage] at hfits inside
    obtain ⟨hempty, hfound⟩ := hfits
    refine ⟨sound, ⟨rfl, hlock, rfl, hempty, rfl, ?_, trivial, nofun, ?_⟩, fun _ => inside rfl⟩
    · rw [hempty]
      rfl
    · rw [Found.next, stage]
      exact hfound
  | saving stage advance more =>
    rw [stage] at hfits inside
    obtain ⟨hempty, hpath, hbytes, hunderway, -, hfound⟩ := hfits
    refine ⟨advance.sound sound, ⟨rfl, hlock, rfl, hempty, advance.path_eq.trans hpath,
      advance.bytes_eq.trans hbytes, advance.underway sound hunderway, more, ?_⟩,
      fun _ => (inside rfl).advance sound hpath advance⟩
    rw [Found.next, stage]
    rcases advance.file?_eq sound (sound.apart_temporary _) hunderway with ⟨hsame, -⟩ | ⟨-, done⟩
    · rw [← hpath, hsame, hpath]
      exact hfound
    · exact absurd done (more _)
  | saved stage advance done =>
    rw [stage] at hfits inside
    obtain ⟨hempty, hpath, hbytes, hunderway, hmore, hfound⟩ := hfits
    refine ⟨advance.sound sound, ⟨rfl, hlock, rfl, ?_⟩,
      fun _ => (inside rfl).advance sound hpath advance⟩
    rw [Found.next, stage]
    refine ⟨_, hfound, .inr ⟨rfl, hempty, ?_⟩⟩
    rcases advance.file?_eq sound (sound.apart_temporary _) hunderway with ⟨-, hsame⟩ | ⟨hfile, -⟩
    · exact absurd (hsame done ▸ done) (hmore _)
    · rw [← hpath, ← hbytes]
      exact hfile
  | unsaved stage advance e =>
    exact ⟨(Change.locks _).sound (advance.sound sound), ⟨rfl, hlock, rfl, trivial⟩, nofun⟩
  | @rest answer stage =>
    have hnext : Found.next c.config.path found c c d = found := by rw [Found.next, stage]
    rw [hnext]
    exact ⟨sound, ⟨rfl, hlock, rfl, hfits⟩, inside⟩

/-- A step of an open that has not got the lock, while somebody else has it. -/
theorem OpenCall.Advance.spares {now : Instant} {clock : Nat → Instant} {c c' : OpenCall}
    {d d' : Disk} (sound : d.Sound) (h : Advance now clock c d c' d') {found : Option Found}
    (outside : (PartyState.opening c found).isInside = false) {owner : Owner}
    (locked : d.Locked c.config.path owner) :
    Spares c.config.path d d' ∧ d'.Locked c.config.path owner := by
  rw [PartyState.isInside] at outside
  cases h with
  | made _ widens => exact ⟨widens.spares sound locked, locked.widens widens⟩
  | unmade _ widens _ => exact ⟨widens.spares sound locked, locked.widens widens⟩
  | locked _ names created free =>
    cases (locked.created sound names created).1.symm.trans free
  | blocked _ names created _ =>
    exact ⟨created.spares sound names, (locked.created sound names created).2⟩
  | unloaded stage _ => rw [stage] at outside; cases outside
  | saving stage _ _ => rw [stage] at outside; cases outside
  | saved stage _ _ => rw [stage] at outside; cases outside
  | unsaved stage _ _ => rw [stage] at outside; cases outside
  | _ => exact ⟨.refl _ d, locked⟩

namespace PartyStep

variable {path : String} {owner : Owner} {d d' : Disk} {state state' : PartyState}

theorem fits (sound : d.Sound) (h : PartyStep path owner d state state' d')
    (fits : state.Fits path owner d) (inside : state.isInside = true → d.Locked path owner) :
    d'.Sound ∧ state'.Fits path owner d' ∧ (state'.isInside = true → d'.Locked path owner) := by
  cases h with
  | advance now clock => exact (OpenCall.advance_step sound.toFormed now clock _).fits sound fits inside
  | take done =>
    refine ⟨sound, fun c hc => absurd hc List.not_mem_nil, fun _ => inside ?_⟩
    rw [PartyState.isInside, done]
  | serve _ => exact ⟨sound, fits, inside⟩
  | @begin r saves scan order =>
    refine ⟨sound, fun c hc => ?_, inside⟩
    rcases List.mem_append.1 hc with hc | hc
    · exact fits c hc
    · rw [List.mem_singleton.1 hc]
      rfl
  | @save r saves c k chunk there =>
    have hadvance := SaveCall.advance_step sound.toFormed c chunk
    have hpath := fits c (List.mem_of_getElem? there)
    refine ⟨hadvance.sound sound, fun c' hc' => ?_, fun _ =>
      (inside rfl).advance sound hpath hadvance⟩
    rcases List.mem_or_eq_of_mem_set hc' with hc' | rfl
    · exact fits c' hc'
    · exact hadvance.path_eq.trans hpath
  | drop _ => exact ⟨(Change.locks _).sound sound, trivial, nofun⟩

/-- What one without the lock does spares the file of the one who has it. -/
theorem spares (sound : d.Sound) (h : PartyStep path owner d state state' d')
    (fits : state.Fits path owner d) (outside : state.isInside = false) {holder : Owner}
    (locked : d.Locked path holder) : Spares path d d' ∧ d'.Locked path holder := by
  cases h with
  | advance now clock =>
    obtain ⟨rfl, -, -, -⟩ := fits
    exact (OpenCall.advance_step sound.toFormed now clock _).spares sound outside locked
  | take done =>
    rw [PartyState.isInside, done] at outside
    cases outside
  | _ => cases outside

end PartyStep

end AlertSilences
