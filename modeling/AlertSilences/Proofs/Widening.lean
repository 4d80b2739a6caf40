import AlertSilences.Proofs.Canonical
import AlertSilences.Proofs.Matching

/-! What becomes of the events that a silence covers when it is written and read again. Of filters
on one name only the last one comes back, so nothing is lost and there may be more; and there is
more only if the silence asked a label for two values, which no event has. -/

namespace AlertSilences

open Json

/-- No event has two values under one name, and what is not there counts as one value too. -/
theorem Filter.Fits.value_eq {α : Type} [LabelSet α] {event : α} {f g : Filter}
    (hf : f.Fits event) (hg : g.Fits event) (hname : f.name = g.name) : f.value = g.value := by
  rw [← handles_iff, handles, beq_iff_eq] at hf hg
  rw [← hf, ← hg, hname]

namespace Filters

variable (filters : Filters)

/-- Two of the filters ask one label for different values. -/
def Clash : Prop := ∃ f ∈ filters.list, ∃ g ∈ filters.list, f.name = g.name ∧ f.value ≠ g.value

theorem mem_toPairs (name value : String) :
    (name, value) ∈ filters.toPairs ↔ ⟨name, value⟩ ∈ filters.list := by
  constructor
  · intro h
    obtain ⟨f, hf, heq⟩ := List.mem_map.1 h
    cases heq
    exact hf
  · intro h
    exact List.mem_map.2 ⟨_, h, rfl⟩

theorem mem_ofLabels (labels : Labels) (name value : String) :
    ⟨name, value⟩ ∈ (ofLabels labels).list ↔ labels[name]? = some value := by
  rw [← mem_toPairs, toPairs_ofLabels, Std.ExtTreeMap.mem_toList_iff_getElem?_eq_some]

variable {filters} {α : Type} [LabelSet α] {event : α}

theorem mem_of_last? {name value : String} (h : filters.last? name = some value) :
    ⟨name, value⟩ ∈ filters.list := by
  obtain ⟨before, after, hpairs, -⟩ := List.lookup_eq_some_iff.1 h
  rw [← mem_toPairs, ← List.mem_reverse, hpairs]
  simp

theorem exists_last? {f : Filter} (h : f ∈ filters.list) :
    ∃ value, filters.last? f.name = some value := by
  have hmem : (f.name, f.value) ∈ filters.toPairs.reverse := by
    rw [List.mem_reverse, mem_toPairs]
    exact h
  rw [← Option.isSome_iff_exists, last?, List.lookup_isSome_iff]
  exact ⟨_, hmem, by simp⟩

/-- By name the last filter stays. -/
theorem mem_kept (f : Filter) :
    f ∈ (ofLabels filters.toLabels).list ↔ filters.last? f.name = some f.value := by
  rw [mem_ofLabels, getElem?_toLabels]

theorem cover_kept (h : filters.Cover event) : (ofLabels filters.toLabels).Cover event :=
  fun f hf => h f (mem_of_last? ((mem_kept f).1 hf))

theorem cover_of_cover_kept (hagree : ¬filters.Clash)
    (h : (ofLabels filters.toLabels).Cover event) : filters.Cover event := by
  intro f hf
  obtain ⟨value, hlast⟩ := exists_last? hf
  have hvalue : f.value = value := by
    by_contra hne
    exact hagree ⟨f, hf, _, mem_of_last? hlast, rfl, hne⟩
  exact h f ((mem_kept f).2 (hvalue ▸ hlast))

theorem not_cover_of_clash (h : filters.Clash) : ¬filters.Cover event := by
  intro hcover
  obtain ⟨f, hf, g, hg, hname, hvalue⟩ := h
  exact hvalue ((hcover f hf).value_eq (hcover g hg) hname)

/-- The filters that come back cover the event with just their labels. -/
theorem cover_ofLabels (labels : Labels) : (ofLabels labels).Cover (Event.mk labels) :=
  fun f hf => .inl ((mem_ofLabels labels f.name f.value).1 hf)

end Filters

namespace Silence

/-- The silence `x` comes back as `y`: converted into a record and back, or read of what was written
of it, alone or in its place among others. -/
inductive Returns (x y : Silence) : Prop
  | converted (now : Instant) (h : (Record.ofSilence x).toSilence now = .ok y)
  | alone (now : Instant) (h : decode now x.write = .ok y)
  | written (clock : Nat → Instant) (xs ys : List Silence) (i : Nat)
      (h : decodeAll clock (encodeAll xs) = .ok ys) (hx : xs[i]? = some x) (hy : ys[i]? = some y)

theorem filters_of_toSilence {now : Instant} {r : Record} {y : Silence}
    (h : r.toSilence now = .ok y) : y.filters = .ofLabels r.filters := by
  obtain ⟨createdAt, endsAt, -, -, rfl⟩ := Record.exists_of_toSilence h
  rfl

theorem read_write (x : Silence) : Record.read x.write = .ok (Record.ofSilence x, []) := by
  have h := Record.takes_read (Record.ofSilence x) [] rfl
  rwa [List.append_nil] at h

theorem toSilence_of_decode {now : Instant} {x y : Silence} (h : decode now x.write = .ok y) :
    (Record.ofSilence x).toSilence now = .ok y := by
  obtain ⟨rest, hread⟩ := eq_ok_of_finish h
  obtain ⟨r, hr, hy⟩ := exists_record_of_read hread
  obtain ⟨rfl, -⟩ := Prod.mk.inj (Except.ok.inj (x.read_write.symm.trans hr))
  exact hy

/-- Written silences have their records read in their places. -/
theorem elements_record (index : Nat) (xs : List Silence) :
    Elements (fun _ => Record.read) index (xs.map write) (xs.map Record.ofSilence) := by
  have h := Record.elements_read index (xs.map Record.ofSilence)
  rwa [List.map_map] at h

theorem toSilence_of_decodeAll {clock : Nat → Instant} {xs ys : List Silence}
    (h : decodeAll clock (encodeAll xs) = .ok ys) {i : Nat} {x y : Silence} (hx : xs[i]? = some x)
    (hy : ys[i]? = some y) : (Record.ofSilence x).toSilence (clock i) = .ok y := by
  obtain ⟨rest, hread⟩ := eq_ok_of_finish h
  obtain ⟨rs, hrs, -, hmore⟩ :=
    corresponds_of_readList
      (fun i s y rest (hy : read (clock i) s = _) => exists_record_of_read hy) hread
  have hwritten := readList_written (elements_record 0 xs) []
  rw [List.append_nil] at hwritten
  obtain ⟨rfl, -⟩ := Prod.mk.inj (Except.ok.inj (hwritten.symm.trans hrs))
  exact hmore i y _ hy (by simp [hx])

theorem Returns.filters {x y : Silence} (h : x.Returns y) :
    y.filters = .ofLabels x.filters.toLabels := by
  cases h with
  | converted now h => exact filters_of_toSilence h
  | alone now h => exact filters_of_toSilence (toSilence_of_decode h)
  | written clock xs ys i h hx hy => exact filters_of_toSilence (toSilence_of_decodeAll h hx hy)

theorem decode_write {now : Instant} {x y : Silence}
    (h : (Record.ofSilence x).toSilence now = .ok y) : decode now x.write = .ok y := by
  simp [decode, read, read_write, h, finish, dropBlank]

/-- A silence whose end can be given comes back, each way. Wherever it comes back, it covers all
that it covered; it covers the same if no label was asked for two values, and if one was, it covered
nothing and covers something now. -/
theorem covering_widens (x : Silence) :
    (∀ now, x.EndsInTime now → ∃ y, (Record.ofSilence x).toSilence now = .ok y ∧
      decode now x.write = .ok y ∧ decodeAll (fun _ => now) (encodeAll [x]) = .ok [y]) ∧
    ∀ y, x.Returns y →
      (∀ (α : Type) [LabelSet α] (event : α),
        x.filters.handles event = true → y.filters.handles event = true) ∧
      (¬x.filters.Clash → ∀ (α : Type) [LabelSet α] (event : α),
        x.filters.handles event = true ↔ y.filters.handles event = true) ∧
      (x.filters.Clash →
        (∀ (α : Type) [LabelSet α] (event : α), x.filters.handles event = false) ∧
        ∃ event : Event, y.filters.handles event = true) := by
  refine ⟨fun now hends => ?_, fun y hy => ?_⟩
  · obtain ⟨y, hy, hrestored, -⟩ := toSilence_ofSilence hends
    refine ⟨y, hy, decode_write hy, ?_⟩
    obtain ⟨ys, hread, hlength, hmore⟩ := decodeAll_written (fun _ => now) fun i z hz =>
      List.mem_singleton.1 (List.mem_of_getElem? hz) ▸ hends
    obtain ⟨z, rfl⟩ := List.length_eq_one_iff.1 hlength
    rw [hread, hrestored.unique rfl (hmore 0 x z rfl rfl).1]
  · simp only [Filters.handles_iff, Filters.handles_eq_false_iff, hy.filters]
    refine ⟨fun α _ event => Filters.cover_kept, fun hagree α _ event => ?_, fun hclash => ?_⟩
    · exact ⟨Filters.cover_kept, Filters.cover_of_cover_kept hagree⟩
    · exact ⟨fun α _ event => Filters.not_cover_of_clash hclash, _, Filters.cover_ofLabels _⟩

/-- Of two values of one label the last one comes back, and events with it are covered then; filters
that are there twice, or ask for nothing under the empty name, change nothing. -/
theorem covering_widens_for_two_values :
    let now : Instant := ⟨1700000000, 5, by decide, by decide, by decide⟩
    let clash : Silence := ⟨⟨1⟩, "alice", now, default, "",
      .ofPairs [("job", "db"), ("", ""), ("job", "web")]⟩
    let twice : Silence := ⟨⟨2⟩, "", default, now, "", .ofPairs [("b", "1"), ("", ""), ("b", "1")]⟩
    clash.EndsInTime now ∧ clash.filters.Clash ∧ ¬twice.filters.Clash ∧
      ∃ y z, clash.Returns y ∧ twice.Returns z ∧
        clash.filters.handles (Event.empty.withLabel "job" "web") = false ∧
        (∃ event : Event, y.filters.handles event = true) ∧
        ∀ event : Event, twice.filters.handles event = true ↔ z.filters.handles event = true := by
  intro now clash twice
  have hclash : clash.filters.Clash := by
    simp [Filters.Clash, clash, Filters.ofPairs]
  have htwice : ¬twice.filters.Clash := by
    simp [Filters.Clash, twice, Filters.ofPairs]
  have hends : clash.EndsInTime now := fun _ => by decide
  obtain ⟨y, -, hy, -⟩ := (covering_widens clash).1 now hends
  obtain ⟨z, -, -, hz⟩ := (covering_widens twice).1 now fun _ => by decide
  have hz : twice.Returns z := .written _ _ _ 0 hz rfl rfl
  obtain ⟨-, -, hwider⟩ := (covering_widens clash).2 y (.alone now hy)
  refine ⟨hends, hclash, htwice, y, z, .alone now hy, hz, (hwider hclash).1 _ _,
    (hwider hclash).2, ?_⟩
  exact ((covering_widens twice).2 z hz).2.1 htwice Event

end Silence

end AlertSilences
