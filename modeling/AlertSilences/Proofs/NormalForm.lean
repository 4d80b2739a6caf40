import AlertSilences.Proofs.Record.Document
import AlertSilences.Proofs.Stamp
import AlertSilences.Proofs.Text.Order

/-! What silences come back as when they are written and read again: whole seconds, filters sorted
by name with one value each, and everything else as it was. Only the second of the epoch is lost,
since it stands for a time that was not given. -/

namespace AlertSilences

open Json

namespace Instant

/-- The last whole second at or before a time, also before the epoch. -/
def floorSecond (t : Instant) : Int := t.toNanos.fdiv nanosPerSecond

theorem floorSecond_eq_second (t : Instant) : t.floorSecond = t.second := by
  have hn := t.nano_lt
  rw [floorSecond, toNanos, Int.fdiv_eq_ediv_of_nonneg _ (Int.natCast_nonneg _)]
  simp only [nanosPerSecond] at hn ⊢
  omega

theorem second_eq_of_toNanos {t : Instant} {second : Int}
    (h : t.toNanos = second * nanosPerSecond) : t.second = second := by
  have hn := t.nano_lt
  simp only [toNanos, nanosPerSecond] at h hn
  omega

theorem ofSecond?_of_le {second : Int} (hmin : minSecond ≤ second) (hmax : second ≤ maxSecond) :
    ∃ t, ofSecond? second = some t ∧ t.toNanos = second * nanosPerSecond := by
  have h : (minSecond ≤ second ∧ second ≤ maxSecond) ∧ 0 < nanosPerSecond :=
    ⟨⟨hmin, hmax⟩, by decide⟩
  exact ⟨_, dif_pos h, by simp [toNanos]⟩

theorem toInt_ofInt_second (t : Instant) : (Int64.ofInt t.second).toInt = t.second := by
  have hge := t.second_ge
  have hle := t.second_le
  simp only [minSecond, maxSecond] at hge hle
  exact Int64.toInt_ofInt_of_le (by omega) (by omega)

/-- The second that a time counts as when it is read, if zero stands for `default`. -/
def secondOr (t : Instant) (default : Int) : Int :=
  if t.floorSecond = 0 then default else t.floorSecond

theorem ofSecond?_secondOr (t : Instant) {default : Int} (hmin : minSecond ≤ default)
    (hmax : t.floorSecond = 0 → default ≤ maxSecond) :
    ∃ u, ofSecond? (t.secondOr default) = some u ∧
      u.toNanos = t.secondOr default * nanosPerSecond := by
  rw [secondOr]
  split_ifs with hzero
  · exact ofSecond?_of_le hmin (hmax hzero)
  · rw [floorSecond_eq_second]
    exact ofSecond?_of_le t.second_ge t.second_le

theorem orElse_second (t : Instant) (default : Int) :
    Record.orElse (Int64.ofInt t.second) default = t.secondOr default := by
  have hzero : Int64.ofInt t.second = 0 ↔ t.second = 0 := by
    rw [← Int64.toInt_inj, toInt_ofInt_second, Int64.toInt_zero]
  simp only [Record.orElse, secondOr, floorSecond_eq_second, hzero, toInt_ofInt_second]

end Instant

namespace Filters

def last? (filters : Filters) (name : String) : Option String :=
  filters.toPairs.reverse.lookup name

theorem getElem?_foldl_insert (pairs : List (String × String)) (labels : Labels) (name : String) :
    (pairs.foldl (fun acc p => acc.insert p.1 p.2) labels)[name]? =
      (pairs.reverse.lookup name).or labels[name]? := by
  induction pairs generalizing labels with
  | nil => simp
  | cons p pairs ih =>
    obtain ⟨key, value⟩ := p
    rw [List.foldl_cons, ih, List.reverse_cons, List.lookup_append, Option.or_assoc,
      OrderedMap.getElem?_insert]
    congr 1
    by_cases h : key = name
    · simp [h]
    · simp [List.lookup_cons, h, beq_eq_false_iff_ne.2 (Ne.symm h)]

/-- Labels made of a list have the last value of each name in it. -/
theorem getElem?_ofList (pairs : List (String × String)) (name : String) :
    (Std.ExtTreeMap.ofList pairs : Labels)[name]? = pairs.reverse.lookup name := by
  rw [Std.ExtTreeMap.ofList_eq_foldl, getElem?_foldl_insert]
  simp

@[simp] theorem getElem?_toLabels (filters : Filters) (name : String) :
    filters.toLabels[name]? = filters.last? name := getElem?_ofList _ _

@[simp] theorem toPairs_ofLabels (labels : Labels) : (ofLabels labels).toPairs = labels.toList := by
  rw [toPairs, ofLabels, ofPairs, List.map_map]
  exact List.map_id _

@[simp] theorem toLabels_ofLabels (labels : Labels) : (ofLabels labels).toLabels = labels := by
  rw [toLabels, toPairs_ofLabels, OrderedMap.ofList_toList]

theorem eq_of_toPairs_eq {a b : Filters} (h : a.toPairs = b.toPairs) : a = b := by
  have hinj : Function.Injective fun f : Filter => (f.name, f.value) := by
    rintro ⟨n, v⟩ ⟨n', v'⟩ heq
    obtain ⟨rfl, rfl⟩ := Prod.mk.inj heq
    rfl
  exact congrArg Filters.mk (List.map_injective_iff.2 hinj h)

/-- Sorted by name, the same filters come in the same order. -/
theorem eq_of_sorted {a b : Filters}
    (ha : a.toPairs.Pairwise fun p q => Text.bytes p.1 < Text.bytes q.1)
    (hb : b.toPairs.Pairwise fun p q => Text.bytes p.1 < Text.bytes q.1)
    (h : ∀ name value, (name, value) ∈ a.toPairs ↔ (name, value) ∈ b.toPairs) : a = b := by
  have nodup {pairs : List (String × String)}
      (hs : pairs.Pairwise fun p q => Text.bytes p.1 < Text.bytes q.1) : pairs.Nodup := by
    refine hs.imp ?_
    rintro p _ hlt rfl
    exact List.lt_irrefl _ hlt
  refine eq_of_toPairs_eq (List.Perm.eq_of_pairwise ?_ ha hb ?_)
  · intro p q _ _ hpq hqp
    exact absurd hqp (List.lt_asymm hpq)
  · exact (List.perm_ext_iff_of_nodup (nodup ha) (nodup hb)).2 fun p => h p.1 p.2

end Filters

namespace Silence

/-- What a silence `x` is as `y` when it was written and is read again at `now`. -/
structure Restored (now : Instant) (x y : Silence) : Prop where
  id : y.id = x.id
  createdBy : y.createdBy = x.createdBy
  comment : y.comment = x.comment
  createdAt : y.createdAt.toNanos = x.createdAt.secondOr now.floorSecond * nanosPerSecond
  endsAt : y.endsAt.toNanos =
    x.endsAt.secondOr (now.floorSecond + defaultSeconds) * nanosPerSecond
  sorted : y.filters.toPairs.Pairwise fun a b => Text.bytes a.1 < Text.bytes b.1
  last : ∀ name value, (name, value) ∈ y.filters.toPairs ↔ x.filters.last? name = some value

/-- A silence without an end gets one, unless that lies behind the last second of the calendar. -/
def EndsInTime (now : Instant) (x : Silence) : Prop :=
  x.endsAt.floorSecond = 0 → now.floorSecond + defaultSeconds ≤ maxSecond

theorem sorted_toList (labels : Labels) :
    labels.toList.Pairwise fun a b => Text.bytes a.1 < Text.bytes b.1 := by
  refine labels.ordered_keys_toList.imp ?_
  intro a b h
  exact Text.bytes_lt (compareOfLessAndEq_eq_lt.1 (show compareOfLessAndEq a.1 b.1 = .lt from h))

theorem toSilence_ofSilence {now : Instant} {x : Silence} (h : x.EndsInTime now) :
    ∃ y, (Record.ofSilence x).toSilence now = .ok y ∧ x.Restored now y ∧
      y.filters = .ofLabels x.filters.toLabels := by
  have hnow := now.floorSecond_eq_second
  have hge := now.second_ge
  have hlater : minSecond ≤ now.second + defaultSeconds := by
    simp only [defaultSeconds]
    omega
  obtain ⟨created, hcreated, hcreatedAt⟩ :=
    x.createdAt.ofSecond?_secondOr hge fun _ => now.second_le
  obtain ⟨ends, hends, hendsAt⟩ := x.endsAt.ofSecond?_secondOr hlater (hnow ▸ h)
  refine ⟨⟨x.id, x.createdBy, created, ends, x.comment, .ofLabels x.filters.toLabels⟩, ?_, ?_, rfl⟩
  · simp only [Record.toSilence, Record.ofSilence, Instant.timeScale_second, Instant.orElse_second,
      hcreated, hends]
  · refine ⟨rfl, rfl, rfl, hnow ▸ hcreatedAt, hnow ▸ hendsAt, ?_, ?_⟩
    · rw [Filters.toPairs_ofLabels]
      exact sorted_toList _
    · intro name value
      rw [Filters.toPairs_ofLabels, Std.ExtTreeMap.mem_toList_iff_getElem?_eq_some,
        Filters.getElem?_toLabels]

/-- In one second there is only one silence that another comes back as. -/
theorem Restored.unique {now now' : Instant} (hsecond : now.floorSecond = now'.floorSecond)
    {x y y' : Silence} (h : x.Restored now y) (h' : x.Restored now' y') : y = y' := by
  have hcreated : y.createdAt = y'.createdAt :=
    Instant.eq_of_toNanos_eq (h.createdAt.trans (hsecond ▸ h'.createdAt.symm))
  have hends : y.endsAt = y'.endsAt :=
    Instant.eq_of_toNanos_eq (h.endsAt.trans (hsecond ▸ h'.endsAt.symm))
  have hfilters : y.filters = y'.filters := by
    refine Filters.eq_of_sorted h.sorted h'.sorted fun name value => ?_
    rw [h.last, h'.last]
  obtain ⟨id, createdBy, createdAt, endsAt, comment, filters⟩ := y
  obtain ⟨id', createdBy', createdAt', endsAt', comment', filters'⟩ := y'
  dsimp only at hcreated hends hfilters
  have hid := h.id.trans h'.id.symm
  have hby := h.createdBy.trans h'.createdBy.symm
  have hcomment := h.comment.trans h'.comment.symm
  dsimp only at hid hby hcomment
  rw [hid, hby, hcomment, hcreated, hends, hfilters]

theorem second_of_restored {now : Instant} {x y : Silence} (h : x.Restored now y)
    (hcreated : x.createdAt.floorSecond ≠ 0) (hends : x.endsAt.floorSecond ≠ 0) :
    y.createdAt.second = x.createdAt.second ∧ y.endsAt.second = x.endsAt.second := by
  rw [Instant.second_eq_of_toNanos h.createdAt, Instant.second_eq_of_toNanos h.endsAt,
    Instant.secondOr, Instant.secondOr, if_neg hcreated, if_neg hends]
  exact ⟨x.createdAt.floorSecond_eq_second, x.endsAt.floorSecond_eq_second⟩

theorem write_of_restored {now : Instant} {x y : Silence} (h : x.Restored now y)
    (hfilters : y.filters = .ofLabels x.filters.toLabels)
    (hcreated : x.createdAt.floorSecond ≠ 0) (hends : x.endsAt.floorSecond ≠ 0) :
    y.write = x.write := by
  obtain ⟨hc, he⟩ := second_of_restored h hcreated hends
  simp only [SilenceOf.write, Record.ofSilence, Instant.timeScale_second]
  rw [h.id, h.createdBy, h.comment, hc, he, hfilters, Filters.toLabels_ofLabels]

theorem opens_write (x : Silence) : Opens x.write :=
  ⟨ascii '\x7b', _, rfl, by decide, by decide⟩

theorem takes_read {now : Instant} {x y : Silence}
    (h : (Record.ofSilence x).toSilence now = .ok y) : Takes (read now) x.write y := by
  intro rest hrest
  simp only [read, SilenceOf.write, Record.takes_read (Record.ofSilence x) rest hrest, h]

/-- Silence by silence a list that was written is read back. -/
theorem elements_read (clock : Nat → Instant) (index : Nat) {xs : List Silence}
    (h : ∀ i (x : Silence), xs[i]? = some x → x.EndsInTime (clock (index + i))) :
    ∃ ys, Elements (fun i => read (clock i)) index (xs.map write) ys ∧ ys.length = xs.length ∧
      ∀ i (x y : Silence), xs[i]? = some x → ys[i]? = some y →
        x.Restored (clock (index + i)) y ∧ y.filters = .ofLabels x.filters.toLabels := by
  induction xs generalizing index with
  | nil => exact ⟨[], .nil index, rfl, by simp⟩
  | cons x xs ih =>
    obtain ⟨y, hread, hrestored, hfilters⟩ := toSilence_ofSilence (h 0 x rfl)
    obtain ⟨ys, helements, hlength, hmore⟩ := ih (index + 1) fun i x' hx' => by
      rw [Nat.add_right_comm]
      exact h (i + 1) x' hx'
    refine ⟨y :: ys, .cons x.opens_write (takes_read hread) helements, by simp [hlength], ?_⟩
    intro i x' y' hx' hy'
    cases i with
    | zero =>
      cases hx'
      cases hy'
      exact ⟨hrestored, hfilters⟩
    | succ i =>
      rw [← Nat.add_assoc, Nat.add_right_comm]
      exact hmore i x' y' hx' hy'

/-- What was written of silences is read as silences, each restored in its place. -/
theorem decodeAll_written (clock : Nat → Instant) {xs : List Silence}
    (h : ∀ i (x : Silence), xs[i]? = some x → x.EndsInTime (clock i)) :
    ∃ ys, decodeAll clock (encodeAll xs) = .ok ys ∧ ys.length = xs.length ∧
      ∀ i (x y : Silence), xs[i]? = some x → ys[i]? = some y →
        x.Restored (clock i) y ∧ y.filters = .ofLabels x.filters.toLabels := by
  obtain ⟨ys, helements, hlength, hmore⟩ := elements_read clock 0 fun i x hx =>
    (Nat.zero_add i).symm ▸ h i x hx
  simp only [Nat.zero_add] at hmore
  refine ⟨ys, ?_, hlength, hmore⟩
  have hread := readList_written helements []
  rw [List.append_nil] at hread
  rw [decodeAll, encodeAll, SilenceOf.encodeAll, hread]
  rfl

/-- The silence that has each time at the start of its second. -/
def floored (x : SilenceOf Stamp) : Silence :=
  ⟨x.id, x.createdBy, x.createdAt.start, x.endsAt.start, x.comment, x.filters⟩

/-- Of a time only its second is written. -/
@[simp] theorem write_floored (x : SilenceOf Stamp) : write (floored x) = SilenceOf.write x := rfl

/-- What is written of silences is read back, each silence restored in its place from the one that
has its times at the starts of their seconds; and if no time was in the second of the epoch, what
came back is written in the same bytes. -/
theorem decodeAll_encodeAll (clock : Nat → Instant) (xs : List (SilenceOf Stamp))
    (h : ∀ i (x : SilenceOf Stamp), xs[i]? = some x → (floored x).EndsInTime (clock i)) :
    ∃ ys, decodeAll clock (SilenceOf.encodeAll xs) = .ok ys ∧ ys.length = xs.length ∧
      (∀ i (x : SilenceOf Stamp) (y : Silence), xs[i]? = some x → ys[i]? = some y →
        (floored x).Restored (clock i) y ∧ x.createdAt.IsFloor (floored x).createdAt ∧
          x.endsAt.IsFloor (floored x).endsAt) ∧
      ((∀ x ∈ xs, (floored x).createdAt.floorSecond ≠ 0 ∧ (floored x).endsAt.floorSecond ≠ 0) →
        encodeAll ys = SilenceOf.encodeAll xs) := by
  have hwritten : SilenceOf.encodeAll xs = encodeAll (xs.map floored) := by
    rw [encodeAll, SilenceOf.encodeAll, SilenceOf.encodeAll, List.map_map]
    rfl
  have hat {i : Nat} {x : SilenceOf Stamp} (hx : xs[i]? = some x) :
      (xs.map floored)[i]? = some (floored x) := by
    rw [List.getElem?_map, hx]
    rfl
  have hends (i : Nat) (z : Silence) (hz : (xs.map floored)[i]? = some z) :
      z.EndsInTime (clock i) := by
    rw [List.getElem?_map, Option.map_eq_some_iff] at hz
    obtain ⟨x, hx, rfl⟩ := hz
    exact h i x hx
  obtain ⟨ys, hread, hlength, hmore⟩ := decodeAll_written clock hends
  rw [List.length_map] at hlength
  refine ⟨ys, hwritten ▸ hread, hlength, fun i x y hx hy => ⟨(hmore i _ y (hat hx) hy).1,
    x.createdAt.isFloor_start, x.endsAt.isFloor_start⟩, fun hzero => ?_⟩
  have hwrite : ys.map write = xs.map SilenceOf.write := by
    apply List.ext_getElem (by simp [hlength])
    intro i hy hx
    rw [List.length_map] at hx hy
    rw [List.getElem_map, List.getElem_map, ← write_floored]
    obtain ⟨hrestored, hfilters⟩ := hmore i _ ys[i] (hat (List.getElem?_eq_getElem hx))
      (List.getElem?_eq_getElem hy)
    obtain ⟨hcreated, hends⟩ := hzero xs[i] (List.getElem_mem hx)
    exact write_of_restored hrestored hfilters hcreated hends
  rw [encodeAll, SilenceOf.encodeAll, SilenceOf.encodeAll, hwrite]

/-- Half a second before the epoch is the second before it, half a second into a leap second is the
second before that, and an end within the first second becomes an hour from now; the last of two
filters on one name stays, and so does the empty name. -/
theorem decodeAll_encodeAll_around_the_epoch :
    let before : Stamp := ⟨-1, 500000000, by decide, by decide, by decide⟩
    let leap : Stamp := ⟨1483228799, 1500000000, by decide, by decide, by decide⟩
    let within : Stamp := ⟨0, 999999999, by decide, by decide, by decide⟩
    let now : Instant := ⟨1700000000, 5, by decide, by decide, by decide⟩
    let x : SilenceOf Stamp := ⟨⟨18446744073709551615⟩, "\x00\"\\😀\n", before, within, "é",
      .ofPairs [("b", "1"), ("", "2"), ("b", "3")]⟩
    (∀ (i : Nat) (s : SilenceOf Stamp), [x, { x with endsAt := leap }][i]? = some s →
        (floored s).EndsInTime now) ∧
      ∃ y z, decodeAll (fun _ => now) (SilenceOf.encodeAll [x, { x with endsAt := leap }]) =
          .ok [y, z] ∧ y.createdBy = x.createdBy ∧
        y.createdAt.toNanos = -1 * nanosPerSecond ∧
        y.endsAt.toNanos = 1700003600 * nanosPerSecond ∧
        z.endsAt.toNanos = 1483228799 * nanosPerSecond ∧
        ("b", "3") ∈ y.filters.toPairs ∧ ("", "2") ∈ y.filters.toPairs ∧
        ("b", "1") ∉ y.filters.toPairs := by
  intro before leap within now x
  have hends : ∀ (i : Nat) (s : SilenceOf Stamp), [x, { x with endsAt := leap }][i]? = some s →
      (floored s).EndsInTime now := by
    intro _ s _ _
    decide
  obtain ⟨ys, hread, hlength, hrestored, -⟩ :=
    decodeAll_encodeAll (fun _ => now) [x, { x with endsAt := leap }] hends
  obtain ⟨y, z, rfl⟩ := List.length_eq_two.1 hlength
  have hy := (hrestored 0 x y rfl rfl).1
  have hz := (hrestored 1 _ z rfl rfl).1
  refine ⟨hends, y, z, hread, hy.createdBy, hy.createdAt.trans (by decide),
    hy.endsAt.trans (by decide), hz.endsAt.trans (by decide), (hy.last _ _).2 (by decide),
    (hy.last _ _).2 (by decide), ?_⟩
  rw [hy.last]
  decide

end Silence

end AlertSilences
