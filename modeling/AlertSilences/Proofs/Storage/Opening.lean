import AlertSilences.Proofs.Storage.Sharing

/-! What opens do to a file that many owners share. An open that found a file when it looked holds
what was in it when it got the lock, and leaves it alone. One that found none overwrites the file,
also if it was made since. -/

namespace AlertSilences

open Disk

namespace Sharing

/-- Each owner is itself, those inside have the lock, and all is known of the opens on their way. -/
structure Guarded (path : String) (s : Sharing) : Prop where
  sound : s.disk.Sound
  distinct : (s.parties.map (·.owner)).Nodup
  fits : ∀ p ∈ s.parties, p.state.Fits path p.owner s.disk
  inside : ∀ p ∈ s.parties, p.state.isInside = true → s.disk.Locked path p.owner

theorem guarded_start (path : String) {d : Disk} (sound : d.Sound) : (start d).Guarded path :=
  ⟨sound, List.nodup_nil, by simp [start], by simp [start]⟩

theorem Guarded.eq_of_owner {path : String} {s : Sharing} (h : s.Guarded path) {j k : Nat}
    {p q : Party} (hj : s.parties[j]? = some p) (hk : s.parties[k]? = some q)
    (howner : p.owner = q.owner) : j = k := by
  have hlt : j < (s.parties.map (·.owner)).length := by
    rw [List.length_map]
    exact (List.getElem?_eq_some_iff.1 hj).1
  refine (List.getElem?_inj hlt h.distinct).1 ?_
  rw [List.getElem?_map, List.getElem?_map, hj, hk, Option.map_some, Option.map_some, howner]

theorem Guarded.arrive {path : String} {s : Sharing} (h : s.Guarded path) {owner : Owner}
    (new : ∀ p ∈ s.parties, p.owner ≠ owner) (createIfMissing : Bool) :
    Guarded path { s with
      parties := s.parties ++
        [⟨owner, .opening (.begin ⟨path, createIfMissing, true⟩ owner) none⟩] } := by
  refine ⟨h.sound, ?_, fun p hp => ?_, fun p hp => ?_⟩
  · rw [List.map_append, List.nodup_append]
    refine ⟨h.distinct, List.nodup_singleton _, ?_⟩
    intro o ho o' ho' heq
    obtain ⟨p, hp, rfl⟩ := List.mem_map.1 ho
    exact new p hp (heq.trans (List.mem_singleton.1 ho'))
  · rcases List.mem_append.1 hp with hp | hp
    · exact h.fits p hp
    · rw [List.mem_singleton.1 hp]
      exact ⟨rfl, rfl, rfl, rfl⟩
  · rcases List.mem_append.1 hp with hp | hp
    · exact h.inside p hp
    · rw [List.mem_singleton.1 hp]
      exact nofun

/-- What one does leaves true what is known of the others: whoever of them is inside has the lock,
and then the one who does it has not. -/
theorem Guarded.others {path : String} {s : Sharing} (h : s.Guarded path) {j k : Nat} {p q : Party}
    {state : PartyState} {d : Disk} (there : s.parties[k]? = some p)
    (step : PartyStep path p.owner s.disk p.state state d) (hj : s.parties[j]? = some q)
    (hne : j ≠ k) :
    q.state.Fits path q.owner d ∧ (q.state.isInside = true → d.Locked path q.owner) := by
  have hp := List.mem_of_getElem? there
  have hq := List.mem_of_getElem? hj
  cases inside : q.state.isInside with
  | false => exact ⟨(h.fits q hq).of_not_isInside inside d, nofun⟩
  | true =>
    have locked := h.inside q hq inside
    have outside : p.state.isInside = false := by
      by_contra hinside
      have heq := locked.unique (h.inside p hp (Bool.not_eq_false _ ▸ hinside))
      exact hne (h.eq_of_owner hj there heq)
    obtain ⟨spares, locked'⟩ := step.spares h.sound (h.fits p hp) outside locked
    exact ⟨(h.fits q hq).spared h.sound spares, fun _ => locked'⟩

theorem map_owner_set {parties : List Party} {k : Nat} {p : Party} (there : parties[k]? = some p)
    (state : PartyState) :
    (parties.set k ⟨p.owner, state⟩).map (·.owner) = parties.map (·.owner) := by
  obtain ⟨hk, hp⟩ := List.getElem?_eq_some_iff.1 there
  have hlt : k < (parties.map (·.owner)).length := by rwa [List.length_map]
  have howner : (parties.map (·.owner))[k] = p.owner := by rw [List.getElem_map, hp]
  rw [List.map_set, ← howner, List.set_getElem_self]

theorem Guarded.party {path : String} {s : Sharing} (h : s.Guarded path) {k : Nat} {p : Party}
    {state : PartyState} {d : Disk} (there : s.parties[k]? = some p)
    (step : PartyStep path p.owner s.disk p.state state d) :
    Guarded path ⟨d, s.parties.set k ⟨p.owner, state⟩⟩ := by
  have hp := List.mem_of_getElem? there
  obtain ⟨sound, hown⟩ := step.fits h.sound (h.fits p hp) (h.inside p hp)
  have hall : ∀ q ∈ s.parties.set k ⟨p.owner, state⟩,
      q.state.Fits path q.owner d ∧ (q.state.isInside = true → d.Locked path q.owner) :=
    forall_mem_set there hown fun j q hj hne => h.others there step hj hne
  refine ⟨sound, ?_, fun q hq => (hall q hq).1, fun q hq => (hall q hq).2⟩
  rw [map_owner_set there]
  exact h.distinct

theorem Guarded.step {path : String} {s s' : Sharing} (h : s.Guarded path) (step : Step path s s') :
    s'.Guarded path := by
  cases step with
  | arrive owner createIfMissing new => exact h.arrive new createIfMissing
  | party there step => exact h.party there step

theorem Reaches.guarded {path : String} {d : Disk} (sound : d.Sound) {s : Sharing}
    (reaches : Reaches path (start d) s) : s.Guarded path := by
  induction reaches with
  | refl => exact guarded_start path sound
  | tail _ step ih => exact ih.step step

/-- A step of an open leaves what is in the file as it is, or it puts an empty registry there,
having found no file when it looked. -/
theorem Guarded.file?_of_advance {path : String} {s : Sharing} (h : s.Guarded path) {owner : Owner}
    {c c' : OpenCall} {found : Option Found} {now : Instant} {clock : Nat → Instant} {d : Disk}
    (there : ⟨owner, .opening c found⟩ ∈ s.parties)
    (advance : OpenCall.Advance now clock c s.disk c' d) {content : Bytes}
    (hcontent : s.disk.file? path = some content) :
    d.file? path = some content ∨
      found = some ⟨false, some content⟩ ∧ d.file? path = some (Silence.encodeAll []) := by
  obtain ⟨hpath, -, -, hfits⟩ := h.fits _ there
  subst hpath
  rw [OpenCall.Fits] at hfits
  obtain ⟨i, name, hnames⟩ := names_of_file? h.sound hcontent
  have hsave {call call' : SaveCall} {d' : Disk} (stage : c.stage = .saving call)
      (advance : SaveCall.Advance call.bytes.length call s.disk call' d') :
      d'.file? c.config.path = some content ∨ found = some ⟨false, some content⟩ ∧
        d'.file? c.config.path = some (Silence.encodeAll []) := by
    rw [stage] at hfits
    obtain ⟨-, hpath, hbytes, hunderway, -, hfound⟩ := hfits
    rw [← hpath, ← hbytes]
    rcases advance.file?_eq h.sound (h.sound.apart_temporary _) hunderway with ⟨hsame, -⟩ | ⟨hfile, -⟩
    · exact .inl (hsame.trans (hpath ▸ hcontent))
    · exact .inr ⟨hcontent ▸ hfound, hfile⟩
  cases advance with
  | made _ widens => exact .inl ((widens.file?_eq hnames).trans hcontent)
  | unmade _ widens _ => exact .inl ((widens.file?_eq hnames).trans hcontent)
  | locked _ names created _ => exact .inl ((created.spares h.sound names).file.trans hcontent)
  | blocked _ names created _ => exact .inl ((created.spares h.sound names).file.trans hcontent)
  | saving stage advance _ => exact hsave stage advance
  | saved stage advance _ => exact hsave stage advance
  | unsaved stage advance _ =>
    have hunlocked := hsave stage advance
    exact hunlocked
  | _ => exact .inl hcontent

/-- An open that answers has loaded what was in the file when it got the lock, or has put an empty
registry there, as it had found no file when it looked; and no step of an open changes a file that
is there but that one. -/
theorem opens_load_or_replace {path : String} {d : Disk} (sound : d.Sound) {s : Sharing}
    (reaches : Reaches path (start d) s) :
    (∀ owner call found registry, ⟨owner, .opening call found⟩ ∈ s.parties →
      call.stage = .done (.ok registry) →
      ∃ f, found = some f ∧ f.Answered path s.disk registry) ∧
    ∀ owner call found now clock content, ⟨owner, .opening call found⟩ ∈ s.parties →
      s.disk.file? path = some content →
      (call.step now clock s.disk).2.file? path = some content ∨
        found = some ⟨false, some content⟩ ∧
          (call.step now clock s.disk).2.file? path = some (Silence.encodeAll []) := by
  have h := Reaches.guarded sound reaches
  refine ⟨fun owner call found registry there done => ?_,
    fun owner call found now clock content there hcontent => ?_⟩
  · obtain ⟨-, -, -, hfits⟩ := h.fits _ there
    rw [OpenCall.Fits, done] at hfits
    exact hfits
  · exact h.file?_of_advance there (OpenCall.advance_step h.sound.toFormed now clock call) hcontent

/-- What may happen next, with the number of the party that does it. -/
inductive Act
  | arrive (owner : Owner)
  | advance (k : Nat)
  | take (k : Nat)
  | add (k : Nat) (x : Silence)
  | begin (k : Nat)
  | save (k j : Nat)
  | drop (k : Nat)

def act (path : String) (now : Instant) (s : Sharing) : Act → Sharing
  | .arrive owner =>
    if ∀ p ∈ s.parties, p.owner ≠ owner then
      { s with parties := s.parties ++ [⟨owner, .opening (.begin ⟨path, true, true⟩ owner) none⟩] }
    else s
  | .advance k =>
    match s.parties[k]? with
    | some ⟨owner, .opening c found⟩ =>
      ⟨(c.step now (fun _ => now) s.disk).2, s.parties.set k ⟨owner,
        .opening (c.step now (fun _ => now) s.disk).1 (Found.next path found c
          (c.step now (fun _ => now) s.disk).1 (c.step now (fun _ => now) s.disk).2)⟩⟩
    | _ => s
  | .take k =>
    match s.parties[k]? with
    | some ⟨owner, .opening ⟨_, _, _, _, .done (.ok registry)⟩ _⟩ =>
      { s with parties := s.parties.set k ⟨owner, .live registry []⟩ }
    | _ => s
  | .add k x =>
    match s.parties[k]? with
    | some ⟨owner, .live r saves⟩ =>
      { s with parties := s.parties.set k ⟨owner, .live (r.add now x).registry saves⟩ }
    | _ => s
  | .begin k =>
    match s.parties[k]? with
    | some ⟨owner, .live r saves⟩ =>
      { s with parties := s.parties.set k ⟨owner, .live r (saves ++ [.begin path r.silences])⟩ }
    | _ => s
  | .save k j =>
    match s.parties[k]? with
    | some ⟨owner, .live r saves⟩ =>
      match saves[j]? with
      | some c =>
        ⟨(c.step c.bytes.length s.disk).2, s.parties.set k ⟨owner,
          .live r (saves.set j (c.step c.bytes.length s.disk).1)⟩⟩
      | none => s
    | _ => s
  | .drop k =>
    match s.parties[k]? with
    | some ⟨owner, .live _ saves⟩ =>
      if ∀ c ∈ saves, c.stage.isDone = true then
        ⟨s.disk.unlock owner, s.parties.set k ⟨owner, .gone⟩⟩
      else s
    | _ => s

theorem reaches_act (path : String) (now : Instant) (s : Sharing) (a : Act) :
    Reaches path s (s.act path now a) := by
  cases a with
  | arrive owner =>
    rw [act]
    split_ifs with h
    · exact .single (.arrive owner true h)
    · exact .refl
  | advance k =>
    rw [act]
    split
    · next owner c found there => exact .single (.party there (.advance now fun _ => now))
    · exact .refl
  | take k =>
    rw [act]
    split
    · next there => exact .single (.party there (.take rfl))
    · exact .refl
  | add k x =>
    rw [act]
    split
    · next owner r saves there =>
      have step : r.Step (r.add now x).registry
        ⟨now, .call 0 (.add x (r.add now x).answer), (r.add now x).log⟩ := rfl
      exact .single (.party there (.serve step))
    · exact .refl
  | begin k =>
    rw [act]
    split
    · next owner r saves there => exact .single (.party there (.begin (.refl _)))
    · exact .refl
  | save k j =>
    rw [act]
    split
    · next owner r saves there =>
      split
      · next c hc => exact .single (.party there (.save _ hc))
      · exact .refl
    · exact .refl
  | drop k =>
    rw [act]
    split
    · next owner r saves there =>
      split_ifs with idle
      · exact .single (.party there (.drop idle))
      · exact .refl
    · exact .refl

theorem reaches_acts (path : String) (now : Instant) (s : Sharing) (acts : List Act) :
    Reaches path s (acts.foldl (act path now) s) := by
  induction acts generalizing s with
  | nil => exact .refl
  | cons a acts ih => exact (reaches_act path now s a).trans (ih _)

/-- What a party has opened, and what it had found. -/
def opened? (p : Party) : Option (Registry × Found) :=
  match p.state with
  | .opening ⟨_, _, _, _, .done (.ok r)⟩ (some f) => some (r, f)
  | _ => none

theorem exists_of_opened? {p : Party} {r : Registry} {f : Found} (h : opened? p = some (r, f)) :
    ∃ call, p = ⟨p.owner, .opening call (some f)⟩ ∧ call.stage = .done (.ok r) := by
  obtain ⟨owner, state⟩ := p
  unfold opened? at h
  split at h
  · next config holder registry log opened found hstate =>
    obtain ⟨rfl, rfl⟩ := Prod.mk.inj (Option.some.inj h)
    dsimp only at hstate
    subst hstate
    exact ⟨_, rfl, rfl⟩
  · cases h

/-- The second to open the file finds the silence that the first has saved. -/
theorem open_loads_saved_silence :
    ∃ s owner call f registry, Disk.blank.Sound ∧ Reaches "p.json" (start .blank) s ∧
      ⟨owner, .opening call (some f)⟩ ∈ s.parties ∧ call.stage = .done (.ok registry) ∧
      registry.size = 1 ∧ f.Answered "p.json" s.disk registry := by
  let acts : List Act := [.arrive 0] ++ List.replicate 8 (.advance 0) ++
    [.take 0, .add 0 (.new default "ops" default), .begin 0, .save 0 0, .save 0 0, .save 0 0,
      .save 0 0, .drop 0, .arrive 1, .advance 1, .advance 1, .advance 1]
  have reaches := reaches_acts "p.json" default (start .blank) acts
  generalize hs : acts.foldl (act "p.json" default) (start .blank) = s at reaches
  have hparty : (s.parties[1]?.bind opened?).map (·.1.size) = some 1 := by
    rw [← hs]
    decide +kernel
  obtain ⟨⟨registry, f⟩, hopened, hsize⟩ := Option.map_eq_some_iff.1 hparty
  obtain ⟨p, there, hopened⟩ := Option.bind_eq_some_iff.1 hopened
  obtain ⟨call, hp, hdone⟩ := exists_of_opened? hopened
  have hmem := List.mem_of_getElem? there
  rw [hp] at hmem
  obtain ⟨f', hfound, hanswered⟩ :=
    (opens_load_or_replace sound_blank reaches).1 _ _ _ _ hmem hdone
  obtain rfl := Option.some.inj hfound
  exact ⟨s, p.owner, call, f, registry, sound_blank, reaches, hmem, hdone, hsize, hanswered⟩

/-- While one that has found no file waits, another makes the file, saves a silence in it and goes.
Then the first opens an empty registry in the place of the silence. -/
theorem open_loses_saved_silence :
    ∃ s owner call f registry, Reaches "p.json" (start .blank) s ∧
      ⟨owner, .opening call (some f)⟩ ∈ s.parties ∧ call.stage = .done (.ok registry) ∧
      f.file = some (Silence.encodeAll [(Silence.new default "ops" default).withId ⟨1⟩]) ∧
      registry.size = 0 ∧ s.disk.file? "p.json" = some (Silence.encodeAll []) := by
  let acts : List Act := [.arrive 0, .advance 0, .arrive 1] ++ List.replicate 8 (.advance 1) ++
    [.take 1, .add 1 (.new default "ops" default), .begin 1, .save 1 0, .save 1 0, .save 1 0,
      .save 1 0, .drop 1] ++ List.replicate 7 (.advance 0)
  have reaches := reaches_acts "p.json" default (start .blank) acts
  generalize hs : acts.foldl (act "p.json" default) (start .blank) = s at reaches
  have hfile : s.disk.file? "p.json" = some (Silence.encodeAll []) := by
    rw [← hs]
    decide +kernel
  have hparty : (s.parties[0]?.bind opened?).map (fun o => (o.1.size, o.2.file)) =
      some (0, some (Silence.encodeAll [(Silence.new default "ops" default).withId ⟨1⟩])) := by
    rw [← hs]
    decide +kernel
  obtain ⟨⟨registry, f⟩, hopened, hfacts⟩ := Option.map_eq_some_iff.1 hparty
  obtain ⟨hsize, hfound⟩ := Prod.mk.inj hfacts
  obtain ⟨p, there, hopened⟩ := Option.bind_eq_some_iff.1 hopened
  obtain ⟨call, hp, hdone⟩ := exists_of_opened? hopened
  have hmem := List.mem_of_getElem? there
  rw [hp] at hmem
  exact ⟨s, p.owner, call, f, registry, reaches, hmem, hdone, hfound, hsize, hfile⟩

end Sharing

end AlertSilences
