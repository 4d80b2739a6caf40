import AlertSilences.Proofs.Matching
import AlertSilences.Proofs.Versions

/-! Whether an event is inhibited. A registry scans its silences in no order that anybody could rely
on, and answers with the first one that covers the event. Which one that is may be left open, but
not whether there is one: this is known from what is stored, however it came to be stored. -/

namespace AlertSilences

namespace Registry

variable {α : Type} [LabelSet α]

theorem mem_silences {r : Registry} {s : Silence} :
    s ∈ r.silences ↔ ∃ (id : SilenceId) (stored : Stored), r.records[id]? = some stored ∧
      stored.silence = s := by
  simp [silences, OrderedMap.values_eq_map_snd]

/-- What a lookup may answer. -/
structure Finds (r : Registry) (event : α) (answer : Option Silence) : Prop where
  none_iff : answer = none ↔ ∀ (id : SilenceId) (stored : Stored), r.records[id]? = some stored →
    ¬stored.silence.filters.Cover event
  stored : ∀ s, answer = some s → s.filters.Cover event ∧
    ∃ stored, r.records[s.id]? = some stored ∧ stored.silence = s
  only : ∀ (id : SilenceId) (stored : Stored), r.records[id]? = some stored →
    stored.silence.filters.Cover event →
    (∀ (other : SilenceId) (stored' : Stored), r.records[other]? = some stored' →
      stored'.silence.filters.Cover event → other = id) →
    answer = some stored.silence

theorem inhibiting?_eq_none_iff {scan : List Silence} {event : α} :
    inhibiting? scan event = none ↔ ∀ s ∈ scan, ¬s.filters.Cover event := by
  simp [inhibiting?]

theorem cover_of_inhibiting? {scan : List Silence} {event : α} {s : Silence}
    (h : inhibiting? scan event = some s) : s ∈ scan ∧ s.filters.Cover event := by
  have hhandles := List.find?_some h
  exact ⟨List.mem_of_find?_eq_some h, (Filters.handles_iff _ _).1 hhandles⟩

/-- The silences scanned are all that can make a difference, in whatever order. -/
theorem isSome_inhibiting?_congr {scan scan' : List Silence} (h : ∀ s, s ∈ scan ↔ s ∈ scan')
    (event : α) : (inhibiting? scan event).isSome = (inhibiting? scan' event).isSome := by
  rw [Bool.eq_iff_iff, inhibiting?, inhibiting?, List.find?_isSome, List.find?_isSome]
  simp only [h]

end Registry

theorem Run.id_eq {history : History} {r : Registry} (run : Run history r) {id : SilenceId}
    {stored : Stored} (h : r.records[id]? = some stored) : stored.silence.id = id :=
  History.id_of_latest? (run.versioned.latest id stored h)

/-- In whatever order its silences are scanned, a registry finds what it should. -/
theorem Run.finds {history : History} {r : Registry} (run : Run history r) {α : Type} [LabelSet α]
    {scan : List Silence} (hscan : scan.Perm r.silences) (event : α) :
    r.Finds event (Registry.inhibiting? scan event) := by
  have hmem (s : Silence) : s ∈ scan ↔ ∃ (id : SilenceId) (stored : Stored),
      r.records[id]? = some stored ∧ stored.silence = s := by
    rw [hscan.mem_iff, Registry.mem_silences]
  have hnone : Registry.inhibiting? scan event = none ↔ ∀ (id : SilenceId) (stored : Stored),
      r.records[id]? = some stored → ¬stored.silence.filters.Cover event := by
    rw [Registry.inhibiting?_eq_none_iff]
    constructor
    · intro hall id stored hr
      exact hall stored.silence ((hmem _).2 ⟨id, stored, hr, rfl⟩)
    · intro hall s hs
      obtain ⟨id, stored, hr, rfl⟩ := (hmem s).1 hs
      exact hall id stored hr
  refine ⟨hnone, fun s hs => ?_, fun id stored hr hcover honly => ?_⟩
  · obtain ⟨hin, hcover⟩ := Registry.cover_of_inhibiting? hs
    obtain ⟨id, stored, hr, rfl⟩ := (hmem s).1 hin
    have hid := run.id_eq hr
    exact ⟨hcover, stored, by rw [hid, hr], rfl⟩
  · cases hs : Registry.inhibiting? scan event with
    | none => exact absurd hcover (hnone.1 hs id stored hr)
    | some s =>
      obtain ⟨hin, hcover'⟩ := Registry.cover_of_inhibiting? hs
      obtain ⟨other, stored', hr', rfl⟩ := (hmem s).1 hin
      obtain rfl := honly other stored' hr' hcover'
      obtain rfl := Option.some.inj (hr.symm.trans hr')
      rfl

/-- Whatever its labels are kept in, an event is found to be inhibited just if a stored silence
covers it, in every state and for every order of the scan; what is found is such a silence as it is
stored, and the only one if there is only one. Looking changes nothing. Two registries with the same
silences agree on every event, whatever they have been through. -/
theorem inhibited_iff_covered {history : History} {r : Registry} (run : Run history r) {α : Type}
    [LabelSet α] (event : α) :
    (∀ scan : List Silence, scan.Perm r.silences →
      r.Finds event (Registry.inhibiting? scan event) ∧
        ∀ (now : Instant) (client : Nat), r.Step r ⟨now, .call client (.inhibiting (.of event)
          (Registry.inhibiting? scan event)), []⟩) ∧
    (∀ (m : Moment) (client : Nat) (answer : Option Silence) (r' : Registry),
      m.move = .call client (.inhibiting (.of event) answer) → r.Step r' m →
      r.Finds event answer ∧ r' = r ∧ m.log = []) ∧
    ∀ (history' : History) (r' : Registry), Run history' r' →
      (∀ s, s ∈ r.silences ↔ s ∈ r'.silences) →
      ∀ scan scan' : List Silence, scan.Perm r.silences → scan'.Perm r'.silences →
        (Registry.inhibiting? scan event).isSome = (Registry.inhibiting? scan' event).isSome := by
  refine ⟨fun scan hscan => ⟨run.finds hscan event, fun now client => ?_⟩, ?_, ?_⟩
  · exact ⟨⟨scan, hscan, rfl⟩, rfl, rfl⟩
  · intro m client answer r' hm step
    rw [Registry.Step, hm] at step
    obtain ⟨⟨scan, hscan, rfl⟩, hsame, hlog⟩ := step
    exact ⟨run.finds hscan event, hsame, hlog⟩
  · intro history' r' _ hsame scan scan' hscan hscan'
    refine Registry.isSome_inhibiting?_congr (fun s => ?_) event
    rw [hscan.mem_iff, hscan'.mem_iff, hsame]

/-- Two silences cover the event, one by the label it has and one by a label it does not have. They
were stored in either order, and in one registry there was a third one for a while. -/
theorem inhibited_iff_covered_by_two_silences :
    let x : Silence := ((Silence.new default "ops" default).withId ⟨1⟩).withFilter "job" "db"
    let y : Silence := ((Silence.new default "ops" default).withId ⟨2⟩).withFilter "env" ""
    let event : Event := Event.empty.withLabel "job" "db"
    ∃ (history history' : History) (r r' : Registry), Run history r ∧ Run history' r' ∧
      r.lastId = ⟨2⟩ ∧ r'.lastId = ⟨3⟩ ∧ (∀ s, s ∈ r.silences ↔ s ∈ r'.silences) ∧
      Registry.inhibiting? [x, y] event = some x ∧ Registry.inhibiting? [y, x] event = some y ∧
      r.Finds event (Registry.inhibiting? [x, y] event) ∧
      (Registry.inhibiting? [x, y] event).isSome = (Registry.inhibiting? [y, x] event).isSome := by
  intro x y event
  have run := (Run.nil.add 0 default x).add 0 default y
  have run' := (((Run.nil.add 0 default y).add 1 default x).add 1 default
    (.new default "ops" default)).delete 0 default ⟨3⟩
  generalize hr : (Registry.add default y _).registry = r at run
  generalize hr' : (Registry.delete ⟨3⟩ _).registry = r' at run'
  have hsilences : r.silences = [x, y] := by
    rw [← hr]
    decide +kernel
  have hsilences' : r'.silences = [x, y] := by
    rw [← hr']
    decide +kernel
  have hsame : ∀ s, s ∈ r.silences ↔ s ∈ r'.silences := by simp [hsilences, hsilences']
  have hscan : [x, y].Perm r.silences := by rw [hsilences]
  have hscan' : [y, x].Perm r'.silences := by
    rw [hsilences']
    exact List.Perm.swap x y []
  obtain ⟨hfinds, -, hagree⟩ := inhibited_iff_covered run event
  refine ⟨_, _, r, r', run, run', ?_, ?_, hsame, by decide +kernel, by decide +kernel,
    (hfinds _ hscan).1, hagree _ r' run' hsame _ _ hscan hscan'⟩
  · rw [← hr]
    decide +kernel
  · rw [← hr']
    decide +kernel

end AlertSilences
