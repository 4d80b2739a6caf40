import AlertSilences.Proofs.NormalForm

/-! What is read of a document is in a form that writing and reading keep: whole seconds, none of
them that of the epoch, and filters sorted by name with one value each. So whatever a document looks
like, what was read of it is written and read again as it is, at any time. -/

namespace AlertSilences

open Json

namespace Json

section Lists

variable {α β : Type} {element : Nat → Reader α} {other : Nat → Reader β} {R : Nat → β → α → Prop}

/-- If where one reader takes an element another takes one as well, up to the same place, then they
read the same lists, and what they read corresponds. -/
theorem corresponds_of_readElements
    (helement : ∀ i s a rest, element i s = .ok (a, rest) →
      ∃ b, other i s = .ok (b, rest) ∧ R i b a)
    {bound : Bytes} {index : Nat} {acc as : List α} {s rest : Bytes}
    (h : readElements element bound index acc s = .ok (as, rest)) (acc' : List β) :
    ∃ more more', as = acc.reverse ++ more ∧
      readElements other bound index acc' s = .ok (acc'.reverse ++ more', rest) ∧
      more.length = more'.length ∧
      ∀ i a b, more[i]? = some a → more'[i]? = some b → R (index + i) b a := by
  induction bound generalizing index acc s acc' with
  | nil => cases h
  | cons _ bound ih =>
    rw [readElements] at h
    split at h
    · cases h
    · next hnext =>
      cases h
      exact ⟨[], [], by simp, by simp [readElements, hnext], rfl, by simp⟩
    · next left hnext =>
      split at h
      · cases h
      · next a left' hread =>
        obtain ⟨b, hother, hab⟩ := helement _ _ _ _ hread
        obtain ⟨more, more', rfl, hmore', hlength, hmore⟩ := ih h (b :: acc')
        refine ⟨a :: more, b :: more', by simp, ?_, by simp [hlength], fun i a' b' ha hb => ?_⟩
        · simp [readElements, hnext, hother, hmore']
        · cases i with
          | zero =>
            cases ha
            cases hb
            exact hab
          | succ i =>
            rw [← Nat.add_assoc, Nat.add_right_comm]
            exact hmore i a' b' ha hb

theorem corresponds_of_readList
    (helement : ∀ i s a rest, element i s = .ok (a, rest) →
      ∃ b, other i s = .ok (b, rest) ∧ R i b a)
    {as : List α} {s rest : Bytes} (h : readList element s = .ok (as, rest)) :
    ∃ bs, readList other s = .ok (bs, rest) ∧ as.length = bs.length ∧
      ∀ i a b, as[i]? = some a → bs[i]? = some b → R i b a := by
  rw [readList] at h ⊢
  split at h
  · cases h
  · split at h
    · next hbracket =>
      obtain ⟨as, bs, rfl, hother, hlength, hmore⟩ := corresponds_of_readElements helement h []
      exact ⟨bs, by simpa [hbracket] using hother, hlength, by simpa using hmore⟩
    · exact absurd h (refuse_ne_ok _ _ _)

/-- Every element of a list is what the reader of its place has read. -/
theorem elements_of_readList {as : List α} {s rest : Bytes}
    (h : readList element s = .ok (as, rest)) (i : Nat) (a : α) (ha : as[i]? = some a) :
    ∃ s rest, element i s = .ok (a, rest) := by
  obtain ⟨bs, -, hlength, hmore⟩ :=
    corresponds_of_readList (R := fun i _ a => ∃ s rest, element i s = .ok (a, rest))
      (fun i s a rest h => ⟨a, h, s, rest, h⟩) h
  have hi : i < bs.length := hlength ▸ (List.getElem?_eq_some_iff.1 ha).1
  exact hmore i a bs[i] ha (List.getElem?_eq_getElem hi)

end Lists

theorem eq_ok_of_finish {α : Type} {read : Except Error (α × Bytes)} {a : α}
    (h : finish read = .ok a) : ∃ rest, read = .ok (a, rest) := by
  unfold finish at h
  split at h
  · cases h
  · split at h
    · cases h
      exact ⟨_, rfl⟩
    · cases h

end Json

namespace Instant

theorem of?_eq_some {second : Int} {nano : Nat} {t : Instant} (h : of? second nano = some t) :
    t.second = second ∧ t.nano = nano := by
  unfold of? at h
  split at h
  · cases h
    exact ⟨rfl, rfl⟩
  · cases h

/-- The start of a second that does not stand for a time that was not given. -/
def Given (t : Instant) : Prop := t.nano = 0 ∧ t.floorSecond ≠ 0

/-- Neither the time nor an hour after it is in the second of the epoch, which would be taken for a
time that was not given. -/
def OffEpoch (now : Instant) : Prop :=
  now.floorSecond ≠ 0 ∧ now.floorSecond + defaultSeconds ≠ 0

theorem Given.toNanos_eq {t : Instant} (h : t.Given) (default : Int) :
    t.toNanos = t.secondOr default * nanosPerSecond := by
  rw [secondOr, if_neg h.2, floorSecond_eq_second, toNanos, h.1]
  simp

theorem given_of_ofSecond? {second : Int64} {default : Int} {t : Instant} (hdefault : default ≠ 0)
    (h : ofSecond? (Record.orElse second default) = some t) : t.Given := by
  obtain ⟨hsecond, hnano⟩ := of?_eq_some h
  refine ⟨hnano, ?_⟩
  rw [floorSecond_eq_second, hsecond, Record.orElse]
  split_ifs with hzero
  · exact hdefault
  · rwa [← Int64.toInt_zero, ne_eq, Int64.toInt_inj]

end Instant

namespace Filters

/-- Of filters with different names each is the last on its name. -/
theorem mem_toPairs_iff_last? {filters : Filters}
    (h : filters.toPairs.Pairwise fun a b => Text.bytes a.1 < Text.bytes b.1) (name value : String) :
    (name, value) ∈ filters.toPairs ↔ filters.last? name = some value := by
  have hnames : filters.toPairs.Pairwise fun a b => ¬compare a.1 b.1 = .eq := by
    refine h.imp fun hlt heq => ?_
    rw [Std.LawfulEqCmp.eq_of_compare heq] at hlt
    exact List.lt_irrefl _ hlt
  have hlast {value : String} (hmem : (name, value) ∈ filters.toPairs) :
      filters.toLabels[name]? = some value :=
    Std.ExtTreeMap.getElem?_ofList_of_mem Std.ReflCmp.compare_self hnames hmem
  rw [← getElem?_toLabels]
  refine ⟨hlast, fun hvalue => ?_⟩
  have hname : name ∈ filters.toLabels := by
    rw [Std.ExtTreeMap.mem_iff_isSome_getElem?, hvalue]
    rfl
  rw [toLabels, Std.ExtTreeMap.mem_ofList, List.contains_iff_mem] at hname
  obtain ⟨⟨_, other⟩, hmem, rfl⟩ := List.mem_map.1 hname
  rw [hlast hmem] at hvalue
  exact Option.some.inj hvalue ▸ hmem

end Filters

/-- What a record has to give for there to be a silence, and which silence that is. -/
theorem Record.exists_of_toSilence {now : Instant} {r : Record} {x : Silence}
    (h : r.toSilence now = .ok x) :
    ∃ createdAt endsAt, Instant.ofSecond? (orElse r.createdAtSeconds now.second) = some createdAt ∧
      Instant.ofSecond? (orElse r.endsAtSeconds (now.second + defaultSeconds)) = some endsAt ∧
      x = ⟨⟨r.id⟩, r.createdBy, createdAt, endsAt, r.comment, .ofLabels r.filters⟩ := by
  rw [toSilence] at h
  split at h
  · cases h
  · next createdAt hcreated =>
    split at h
    · cases h
    · next endsAt hends =>
      cases h
      exact ⟨createdAt, endsAt, hcreated, hends, rfl⟩

namespace Silence

/-- The form in which silences come out of a document. -/
structure Canonical (x : Silence) : Prop where
  createdAt : x.createdAt.Given
  endsAt : x.endsAt.Given
  sorted : x.filters.toPairs.Pairwise fun a b => Text.bytes a.1 < Text.bytes b.1

/-- A canonical silence comes back as itself, whenever it is read. -/
theorem Canonical.restored {x : Silence} (h : x.Canonical) (now : Instant) : x.Restored now x :=
  ⟨rfl, rfl, rfl, h.createdAt.toNanos_eq _, h.endsAt.toNanos_eq _, h.sorted,
    Filters.mem_toPairs_iff_last? h.sorted⟩

theorem Canonical.endsInTime {x : Silence} (h : x.Canonical) (now : Instant) : x.EndsInTime now :=
  fun hzero => absurd hzero h.endsAt.2

theorem canonical_of_toSilence {now : Instant} (hnow : now.OffEpoch) {r : Record} {x : Silence}
    (h : r.toSilence now = .ok x) : x.Canonical := by
  obtain ⟨hcreated, hends⟩ := hnow
  rw [Instant.floorSecond_eq_second] at hcreated hends
  obtain ⟨createdAt, endsAt, hcreatedAt, hendsAt, rfl⟩ := Record.exists_of_toSilence h
  refine ⟨Instant.given_of_ofSecond? hcreated hcreatedAt,
    Instant.given_of_ofSecond? hends hendsAt, ?_⟩
  rw [Filters.toPairs_ofLabels]
  exact sorted_toList r.filters

/-- A silence that is read is that of a record. -/
theorem exists_record_of_read {now : Instant} {s rest : Bytes} {x : Silence}
    (h : read now s = .ok (x, rest)) :
    ∃ r, Record.read s = .ok (r, rest) ∧ r.toSilence now = .ok x := by
  rw [read] at h
  split at h
  · cases h
  · split at h
    · cases h
    · next hr _ _ hx =>
      cases h
      exact ⟨_, hr, hx⟩

theorem canonical_of_read {now : Instant} (hnow : now.OffEpoch) {s rest : Bytes} {x : Silence}
    (h : read now s = .ok (x, rest)) : x.Canonical := by
  obtain ⟨r, -, hx⟩ := exists_record_of_read h
  exact canonical_of_toSilence hnow hx

theorem canonical_of_decodeAll {clock : Nat → Instant} {document : Bytes} {xs : List Silence}
    (h : decodeAll clock document = .ok xs) (hclock : ∀ i < xs.length, (clock i).OffEpoch) :
    ∀ x ∈ xs, x.Canonical := by
  intro x hx
  obtain ⟨i, hi, rfl⟩ := List.mem_iff_getElem.1 hx
  obtain ⟨_, hread⟩ := eq_ok_of_finish h
  obtain ⟨_, _, helement⟩ := elements_of_readList hread i _ (List.getElem?_eq_getElem hi)
  exact canonical_of_read (hclock i hi) helement

/-- Canonical silences are read as they were written. -/
theorem decodeAll_encodeAll_of_canonical (clock : Nat → Instant) {xs : List Silence}
    (h : ∀ x ∈ xs, x.Canonical) : decodeAll clock (encodeAll xs) = .ok xs := by
  obtain ⟨ys, hread, hlength, hmore⟩ := decodeAll_written clock fun i x hx =>
    (h x (List.mem_of_getElem? hx)).endsInTime (clock i)
  have hsame : ys = xs := by
    apply List.ext_getElem hlength
    intro i hy hx
    have hrestored := (hmore i _ _ (List.getElem?_eq_getElem hx) (List.getElem?_eq_getElem hy)).1
    exact hrestored.unique rfl ((h _ (List.getElem_mem hx)).restored (clock i))
  rw [hread, hsame]

/-- Whatever document silences were read of, with no clock in the second of the epoch: what was read
is written and read again as it is, whatever the clock shows then, and is written in the same bytes
once more. -/
theorem decodeAll_encodeAll_of_decodeAll {clock : Nat → Instant} {document : Bytes}
    {xs : List Silence} (h : decodeAll clock document = .ok xs)
    (hclock : ∀ i < xs.length, (clock i).OffEpoch) (later : Nat → Instant) :
    decodeAll later (encodeAll xs) = .ok xs ∧
      (decodeAll later (encodeAll xs)).map encodeAll = .ok (encodeAll xs) := by
  have hread := decodeAll_encodeAll_of_canonical later (canonical_of_decodeAll h hclock)
  refine ⟨hread, ?_⟩
  rw [hread]
  rfl

/-- A list with missing ends and a map with two filters on one name, an escape and a member that
means nothing: what is read of them is kept as it is, even by a clock that stands at the epoch. -/
theorem decodeAll_encodeAll_of_loose_document :
    let now : Instant := ⟨1700000000, 5, by decide, by decide, by decide⟩
    let document := Text.bytes
      " [[7,null,0,-1], \x7b\"x\":[1e9],\"filters\":\x7b\"b\":\"1\",\"a\":\"2\",\"b\":\"\\u0033\"\x7d\x7d ]"
    ∃ xs, decodeAll (fun _ => now) document = .ok xs ∧ now.OffEpoch ∧
      xs.map (fun x => (x.id.value, x.filters.toPairs)) = [(7, []), (0, [("a", "2"), ("b", "3")])] ∧
      decodeAll (fun _ => default) (encodeAll xs) = .ok xs ∧ encodeAll xs ≠ document := by
  intro now document
  have hnow : now.OffEpoch := ⟨by decide, by decide⟩
  have hfacts : (decodeAll (fun _ => now) document).toOption.map (fun xs =>
      (xs.map fun x => (x.id.value, x.filters.toPairs), decide (encodeAll xs ≠ document))) =
      some ([(7, []), (0, [("a", "2"), ("b", "3")])], true) := by
    decide +kernel
  cases hread : decodeAll (fun _ => now) document with
  | error e =>
    rw [hread] at hfacts
    cases hfacts
  | ok xs =>
    rw [hread] at hfacts
    obtain ⟨hfilters, hother⟩ := Prod.mk.inj (Option.some.inj hfacts)
    have hkept := decodeAll_encodeAll_of_decodeAll hread (fun _ _ => hnow) fun _ => default
    exact ⟨xs, rfl, hnow, hfilters, hkept.1, of_decide_eq_true hother⟩

end Silence

end AlertSilences
