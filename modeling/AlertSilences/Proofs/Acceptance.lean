import AlertSilences.Proofs.Canonical
import AlertSilences.Proofs.Record.Reading
import AlertSilences.Proofs.Record.Spelling

/-! Which documents are read as silences, and as which: lists, of which every element has to be one
whose seconds are on the calendar. A list is read as a whole or not at all. -/

namespace AlertSilences

open Json

namespace Instant

def OnCalendar (second : Int) : Prop := minSecond ≤ second ∧ second ≤ maxSecond

theorem onCalendar_floorSecond (t : Instant) : OnCalendar t.floorSecond :=
  t.floorSecond_eq_second ▸ ⟨t.second_ge, t.second_le⟩

theorem ofSecond?_eq_some_iff {second : Int} {t : Instant} :
    ofSecond? second = some t ↔ t.toNanos = second * nanosPerSecond := by
  constructor
  · intro h
    obtain ⟨hsecond, hnano⟩ := of?_eq_some h
    rw [toNanos, hsecond, hnano, Int.natCast_zero, Int.add_zero]
  · intro h
    have hsecond := second_eq_of_toNanos h
    obtain ⟨u, hu, hnanos⟩ := ofSecond?_of_le (hsecond ▸ t.second_ge) (hsecond ▸ t.second_le)
    rw [hu, eq_of_toNanos_eq (hnanos.trans h.symm)]

theorem exists_toNanos_iff {second : Int} :
    (∃ t : Instant, t.toNanos = second * nanosPerSecond) ↔ OnCalendar second := by
  constructor
  · rintro ⟨t, h⟩
    exact second_eq_of_toNanos h ▸ ⟨t.second_ge, t.second_le⟩
  · rintro ⟨hmin, hmax⟩
    obtain ⟨t, -, h⟩ := ofSecond?_of_le hmin hmax
    exact ⟨t, h⟩

theorem onCalendar_orElse {second : Int64} {default : Int} :
    OnCalendar (Record.orElse second default) ↔
      (second ≠ 0 → OnCalendar second.toInt) ∧ (second = 0 → OnCalendar default) := by
  rw [Record.orElse]
  split_ifs with h <;> simp [h]

end Instant

open Instant

namespace Fields

/-- The silence that fields stand for when they are read at `now`. -/
structure Gives (f : Fields) (now : Instant) (x : Silence) : Prop where
  id : x.id = ⟨f.id⟩
  createdBy : x.createdBy = f.createdBy
  comment : x.comment = f.comment
  createdAt : x.createdAt.toNanos =
    Record.orElse f.createdAtSeconds now.floorSecond * nanosPerSecond
  endsAt : x.endsAt.toNanos =
    Record.orElse f.endsAtSeconds (now.floorSecond + defaultSeconds) * nanosPerSecond
  sorted : x.filters.toPairs.Pairwise fun a b => Text.bytes a.1 < Text.bytes b.1
  last : ∀ name value,
    (name, value) ∈ x.filters.toPairs ↔ f.filters.reverse.lookup name = some value

def InRange (f : Fields) : Prop :=
  ∀ second ∈ [f.createdAtSeconds, f.endsAtSeconds], second ≠ 0 → OnCalendar second.toInt

/-- An end that was not given is on the calendar as well. -/
def EndsInTime (f : Fields) (now : Instant) : Prop :=
  f.endsAtSeconds = 0 → now.floorSecond + defaultSeconds ≤ maxSecond

theorem sorted_ofLabels (labels : Labels) :
    (Filters.ofLabels labels).toPairs.Pairwise fun a b => Text.bytes a.1 < Text.bytes b.1 := by
  rw [Filters.toPairs_ofLabels]
  exact Silence.sorted_toList labels

/-- Of filters that are kept by name the last one on a name is there. -/
theorem mem_ofLabels_iff (f : Fields) (name value : String) :
    (name, value) ∈ (Filters.ofLabels f.toRecord.filters).toPairs ↔
      f.filters.reverse.lookup name = some value := by
  rw [Filters.toPairs_ofLabels, Std.ExtTreeMap.mem_toList_iff_getElem?_eq_some, toRecord,
    Filters.getElem?_ofList]

/-- A record is the silence that its fields stand for, or none. -/
theorem toSilence_eq_ok_iff {f : Fields} {now : Instant} {x : Silence} :
    f.toRecord.toSilence now = .ok x ↔ f.Gives now x := by
  have hnow := now.floorSecond_eq_second
  constructor
  · intro h
    obtain ⟨createdAt, endsAt, hcreated, hends, rfl⟩ := Record.exists_of_toSilence h
    exact ⟨rfl, rfl, rfl, hnow ▸ ofSecond?_eq_some_iff.1 hcreated,
      hnow ▸ ofSecond?_eq_some_iff.1 hends, sorted_ofLabels _, f.mem_ofLabels_iff⟩
  · intro h
    have hcreated := ofSecond?_eq_some_iff.2 (hnow ▸ h.createdAt)
    have hends := ofSecond?_eq_some_iff.2 (hnow ▸ h.endsAt)
    have hfilters : x.filters = .ofLabels f.toRecord.filters :=
      Filters.eq_of_sorted h.sorted (sorted_ofLabels _) fun name value => by
        rw [h.last, mem_ofLabels_iff]
    obtain ⟨id, createdBy, createdAt, endsAt, comment, filters⟩ := x
    obtain ⟨hid, hby, hcomment⟩ := And.intro h.id (And.intro h.createdBy h.comment)
    dsimp only at hcreated hends hfilters hid hby hcomment
    subst hid hby hcomment hfilters
    rw [Record.toSilence]
    simp only [toRecord, hcreated, hends]

/-- Fields stand for a silence when both of its times are on the calendar. -/
theorem exists_gives_iff {f : Fields} {now : Instant} :
    (∃ x, f.Gives now x) ↔ f.InRange ∧ f.EndsInTime now := by
  have hnow := now.onCalendar_floorSecond
  have hlater : OnCalendar (now.floorSecond + defaultSeconds) ↔
      now.floorSecond + defaultSeconds ≤ maxSecond := by
    have hge := hnow.1
    simp only [OnCalendar, defaultSeconds]
    omega
  have hrange : OnCalendar (Record.orElse f.createdAtSeconds now.floorSecond) ∧
      OnCalendar (Record.orElse f.endsAtSeconds (now.floorSecond + defaultSeconds)) ↔
        f.InRange ∧ f.EndsInTime now := by
    simp [onCalendar_orElse, hlater, InRange, EndsInTime, hnow, and_assoc]
  rw [← hrange]
  constructor
  · rintro ⟨x, h⟩
    exact ⟨exists_toNanos_iff.1 ⟨_, h.createdAt⟩, exists_toNanos_iff.1 ⟨_, h.endsAt⟩⟩
  · rintro ⟨hcreated, hends⟩
    obtain ⟨createdAt, hcreatedAt⟩ := exists_toNanos_iff.2 hcreated
    obtain ⟨endsAt, hendsAt⟩ := exists_toNanos_iff.2 hends
    exact ⟨⟨⟨f.id⟩, f.createdBy, createdAt, endsAt, f.comment, .ofLabels f.toRecord.filters⟩,
      rfl, rfl, rfl, hcreatedAt, hendsAt, sorted_ofLabels _, f.mem_ofLabels_iff⟩

end Fields

namespace Json.Tree

def Denotes (t : Tree) (now : Instant) (x : Silence) : Prop :=
  ∃ f, Fields.of? t = some f ∧ f.Gives now x

def Acceptable (t : Tree) : Prop := ∃ f, Fields.of? t = some f ∧ f.InRange

/-- One that is acceptable at `now`, where an hour may be left of the calendar or not. -/
def AcceptableAt (t : Tree) (now : Instant) : Prop :=
  ∃ f, Fields.of? t = some f ∧ f.InRange ∧ f.EndsInTime now

theorem exists_denotes_iff {t : Tree} {now : Instant} :
    (∃ x, t.Denotes now x) ↔ t.AcceptableAt now := by
  constructor
  · rintro ⟨x, f, hf, hx⟩
    exact ⟨f, hf, Fields.exists_gives_iff.1 ⟨x, hx⟩⟩
  · rintro ⟨f, hf, hrange⟩
    obtain ⟨x, hx⟩ := Fields.exists_gives_iff.2 hrange
    exact ⟨x, f, hf, hx⟩

theorem acceptableAt_iff {t : Tree} {now : Instant}
    (h : now.floorSecond + defaultSeconds ≤ maxSecond) : t.AcceptableAt now ↔ t.Acceptable :=
  exists_congr fun _ => and_congr_right fun _ => and_iff_left fun _ => h

def silence? (now : Instant) (t : Tree) : Option Silence :=
  (Fields.of? t).bind fun f => (f.toRecord.toSilence now).toOption

theorem silence?_eq_some_iff {t : Tree} {now : Instant} {x : Silence} :
    t.silence? now = some x ↔ t.Denotes now x := by
  rw [silence?, Option.bind_eq_some_iff]
  refine exists_congr fun f => and_congr_right fun _ => ?_
  rw [← Fields.toSilence_eq_ok_iff]
  exact ⟨eq_ok_of_toOption, fun h => h ▸ rfl⟩

end Json.Tree

theorem mapM_eq_some_iff {α β : Type} {value? : α → Option β} {as : List α} {bs : List β} :
    as.mapM value? = some bs ↔ as.map value? = bs.map some := by
  induction as generalizing bs with
  | nil => cases bs <;> simp
  | cons a as ih =>
    cases bs with
    | nil => simp [List.mapM_cons, Option.bind_eq_some_iff]
    | cons b bs => simp [List.mapM_cons, Option.bind_eq_some_iff, ih]

/-- A list of values one by one, each with its number. -/
theorem mapM_zipIdx_eq_some_iff {α β : Type} {value? : Nat → α → Option β} {as : List α}
    {bs : List β} :
    (as.zipIdx.mapM fun e => value? e.2 e.1) = some bs ↔
      bs.length = as.length ∧ ∀ i a b, as[i]? = some a → bs[i]? = some b → value? i a = some b := by
  rw [mapM_eq_some_iff]
  constructor
  · intro h
    have hlength := congrArg List.length h
    rw [List.length_map, List.length_map, List.length_zipIdx] at hlength
    refine ⟨hlength.symm, fun i a b ha hb => ?_⟩
    simpa [ha, hb] using congrArg (·[i]?) h
  · rintro ⟨hlength, hall⟩
    refine List.ext_getElem (by simp [hlength]) fun i ha hb => ?_
    rw [List.length_map, List.length_zipIdx] at ha
    rw [List.length_map] at hb
    simpa using hall i as[i] bs[i] (List.getElem?_eq_getElem ha) (List.getElem?_eq_getElem hb)

theorem exists_mapM_eq_some_iff {α β : Type} {value? : α → Option β} {as : List α} :
    (∃ bs, as.mapM value? = some bs) ↔ ∀ a ∈ as, ∃ b, value? a = some b := by
  induction as with
  | nil => simp
  | cons a as ih =>
    rw [List.forall_mem_cons, ← ih]
    simp [List.mapM_cons, Option.bind_eq_some_iff]

namespace Silence

variable {clock : Nat → Instant} {elements : List Tree} {document : Bytes}

theorem yields_read {t : Tree} {core : Bytes} (h : Spells t core) (now : Instant) :
    Yields (read now) core (t.silence? now) := by
  intro before rest hb hrest
  have hrecord := Record.yields_read h before rest hb hrest
  rw [read, Tree.silence?]
  cases hf : Fields.of? t with
  | none =>
    rw [hf] at hrecord
    obtain ⟨e, he⟩ := exists_error_of_toOption hrecord
    rw [he]
    rfl
  | some f =>
    rw [hf] at hrecord
    rw [eq_ok_of_toOption hrecord, Option.bind_some]
    dsimp only
    cases f.toRecord.toSilence now <;> rfl

theorem toOption_decodeAll (h : Document (.list elements) document) :
    (decodeAll clock document).toOption =
      elements.zipIdx.mapM fun e => e.1.silence? (clock e.2) := by
  obtain ⟨p, hspells, rfl⟩ := h
  have hafter : Stops p.after := List.append_nil p.after ▸ Stops.blank p.blank_after rfl
  have hdrop : dropBlank p.after = [] := by
    rw [← List.append_nil p.after, dropBlank_append p.blank_after]
    rfl
  have hlist := yields_readList (fun index t core h => yields_read h (clock index)) hspells p.before
    p.after p.blank_before hafter
  rw [decodeAll, Padded.bytes]
  cases hread : elements.zipIdx.mapM fun e => e.1.silence? (clock e.2) with
  | none =>
    rw [hread] at hlist
    obtain ⟨e, he⟩ := exists_error_of_toOption hlist
    rw [he]
    rfl
  | some xs =>
    rw [hread] at hlist
    rw [eq_ok_of_toOption hlist, finish, hdrop]
    rfl

theorem decodeAll_eq_ok_iff_mapM (h : Document (.list elements) document) (xs : List Silence) :
    decodeAll clock document = .ok xs ↔
      (elements.zipIdx.mapM fun e => e.1.silence? (clock e.2)) = some xs := by
  rw [← toOption_decodeAll h]
  exact ⟨fun h => h ▸ rfl, eq_ok_of_toOption⟩

theorem exists_decodeAll_iff (h : Document (.list elements) document) :
    (∃ xs, decodeAll clock document = .ok xs) ↔
      ∀ i (t : Tree), elements[i]? = some t → t.AcceptableAt (clock i) := by
  rw [exists_congr (decodeAll_eq_ok_iff_mapM h), exists_mapM_eq_some_iff]
  constructor
  · intro hall i t ht
    obtain ⟨x, hx⟩ := hall (t, i) (List.mem_zipIdx_iff_getElem?.2 ht)
    exact Tree.exists_denotes_iff.1 ⟨x, Tree.silence?_eq_some_iff.1 hx⟩
  · rintro hall ⟨t, i⟩ ht
    obtain ⟨x, hx⟩ := Tree.exists_denotes_iff.2 (hall i t (List.mem_zipIdx_iff_getElem?.1 ht))
    exact ⟨x, Tree.silence?_eq_some_iff.2 hx⟩

theorem takesValues_read (now : Instant) : TakesValues (read now) := by
  intro s x rest h
  rw [read] at h
  split at h
  · cases h
  · next hrecord =>
    split at h
    · cases h
    · cases h
      exact Record.takesValues_read _ _ _ hrecord

/-- Nothing but a list is read as silences. -/
theorem exists_document_of_decodeAll {xs : List Silence} (h : decodeAll clock document = .ok xs) :
    ∃ elements, Document (.list elements) document := by
  unfold decodeAll finish at h
  split at h
  · cases h
  · next rest hread =>
    split_ifs at h with hend
    obtain ⟨before, elements, core, hbefore, hspells, rfl⟩ :=
      exists_list_of_readList (fun i => takesValues_read (clock i)) hread
    obtain ⟨after, hafter, hrest⟩ := exists_blank rest
    rw [List.isEmpty_iff.1 hend, List.append_nil] at hrest
    exact ⟨elements, ⟨before, core, rest, hbefore, hrest ▸ hafter⟩, hspells, rfl⟩

/-- Only a list is read, if and only if all of its elements are acceptable, and then as one silence
for each of them, in their order. The clock plays a part only where less than an hour is left of
the calendar. -/
theorem decodeAll_eq_ok_iff (clock : Nat → Instant) (document : Bytes) :
    (∀ xs, decodeAll clock document = .ok xs → ∃ elements, Document (.list elements) document) ∧
    ∀ elements, Document (.list elements) document →
      (∀ xs, decodeAll clock document = .ok xs ↔ xs.length = elements.length ∧
        ∀ i (t : Tree) (x : Silence), elements[i]? = some t → xs[i]? = some x →
          t.Denotes (clock i) x) ∧
      ((∃ xs, decodeAll clock document = .ok xs) ↔
        ∀ i (t : Tree), elements[i]? = some t → t.AcceptableAt (clock i)) ∧
      ((∀ i < elements.length, (clock i).floorSecond + defaultSeconds ≤ maxSecond) →
        ((∃ xs, decodeAll clock document = .ok xs) ↔ ∀ t ∈ elements, t.Acceptable)) := by
  refine ⟨fun xs => exists_document_of_decodeAll, fun elements h =>
    ⟨fun xs => ?_, exists_decodeAll_iff h, fun hclock => ?_⟩⟩
  · rw [decodeAll_eq_ok_iff_mapM h]
    simpa only [Tree.silence?_eq_some_iff] using
      @mapM_zipIdx_eq_some_iff _ _ (fun i (t : Tree) => t.silence? (clock i)) elements xs
  · rw [exists_decodeAll_iff h, List.forall_mem_iff_getElem]
    constructor
    · intro hall i hi
      exact (Tree.acceptableAt_iff (hclock i hi)).1 (hall i _ (List.getElem?_eq_getElem hi))
    · intro hall i t ht
      obtain ⟨hi, rfl⟩ := List.getElem?_eq_some_iff.1 ht
      exact (Tree.acceptableAt_iff (hclock i hi)).2 (hall i hi)

/-- A list with all its fields by name and one in their order; white space, escapes and members of
other names change nothing. -/
theorem decodeAll_eq_ok_iff_of_two_spellings :
    let now : Instant := ⟨1700000000, 5, by decide, by decide, by decide⟩
    let document := "[[8,null] ,\x7b\"i\\u0064\": 7,\"x\":-1.5e2\x7d]".toList.map ascii
    ∃ elements, Document (.list elements) document ∧ (∀ t ∈ elements, t.Acceptable) ∧
      ∃ x y, decodeAll (fun _ => now) document = .ok [x, y] ∧ x.id = ⟨8⟩ ∧ x.createdBy = "" ∧
        y.id = ⟨7⟩ ∧ y.endsAt.toNanos = 1700003600 * nanosPerSecond ∧ y.filters.toPairs = [] := by
  intro now document
  let i : Piece := .plain (ascii 'i') (by decide)
  let d : Piece := .unit ⟨⟨ascii '0', 0, by decide⟩, ⟨ascii '0', 0, by decide⟩,
    ⟨ascii '6', 6, by decide⟩, ⟨ascii '4', 4, by decide⟩⟩
  let x : Piece := .plain (ascii 'x') (by decide)
  let number : RealNumeral := ⟨true, 1, [ascii '.', ascii '5'], [ascii 'e', ascii '2'],
    .inr ⟨[ascii '5'], ⟨['5'], by decide, List.forall_mem_singleton.2 rfl, rfl⟩, rfl⟩,
    .inr ⟨ascii 'e', [], [ascii '2'], by decide, by decide,
      ⟨['2'], by decide, List.forall_mem_singleton.2 rfl, rfl⟩, rfl⟩,
    .inl (by decide)⟩
  let bare (core : Bytes) : Padded := ⟨[], core, [], nofun, nofun⟩
  let row : List (Tree × Padded) := [(.integer 8, bare (writeInteger 8)),
    (.null, bare (ascii 'n' :: [ascii 'u', ascii 'l', ascii 'l']))]
  let named : List (Tree × Member) :=
    [(.integer 7, ⟨[], [i, d], [], ⟨[ascii ' '], writeInteger 7, [], by decide, nofun⟩,
        nofun, nofun⟩),
      (.real, ⟨[], [x], [], bare number.bytes, nofun, nofun⟩)]
  have hrow := @Spells.list row nofun (by
    simp only [row, List.forall_mem_cons]
    exact ⟨.integer 8, .null, nofun⟩)
  have hnamed := @Spells.map named nofun (by
    simp only [named, List.forall_mem_cons]
    exact ⟨.integer 7, .real number, nofun⟩)
  have hlist (t u : Tree) (b c : Bytes) (ht : Spells t b) (hu : Spells u c) :=
    @Spells.list [(t, ⟨[], b, [ascii ' '], nofun, by decide⟩), (u, bare c)] nofun (by
      simp only [List.forall_mem_cons]
      exact ⟨ht, hu, nofun⟩)
  have hdocument : Document _ document := ⟨bare _, hlist _ _ _ _ hrow hnamed, by decide +kernel⟩
  have hf : Fields.of? (.list (row.map Prod.fst)) = some ⟨8, "", 0, 0, "", []⟩ := by
    decide +kernel
  have hg : Fields.of? (.map (named.map fun p => (p.2.key, p.1))) =
      some ⟨7, "", 0, 0, "", []⟩ := by
    decide +kernel
  have hall : ∀ t ∈ [Tree.list (row.map Prod.fst), .map (named.map fun p => (p.2.key, p.1))],
      t.Acceptable := by
    simp only [List.forall_mem_cons]
    exact ⟨⟨_, hf, by simp [Fields.InRange]⟩, ⟨_, hg, by simp [Fields.InRange]⟩, nofun⟩
  obtain ⟨hok, -, hread⟩ := (decodeAll_eq_ok_iff (fun _ => now) document).2 _ hdocument
  obtain ⟨xs, hxs⟩ := (hread fun _ _ => by decide).2 hall
  obtain ⟨hlength, hdenotes⟩ := (hok xs).1 hxs
  obtain ⟨x, y, rfl⟩ := List.length_eq_two.1 hlength
  obtain ⟨f, hf', hx⟩ := hdenotes 0 _ x rfl rfl
  obtain ⟨g, hg', hy⟩ := hdenotes 1 _ y rfl rfl
  obtain rfl := Option.some.inj (hf.symm.trans hf')
  obtain rfl := Option.some.inj (hg.symm.trans hg')
  refine ⟨_, hdocument, hall, x, y, hxs, hx.id, hx.createdBy, hy.id,
    hy.endsAt.trans (by decide), ?_⟩
  rw [List.eq_nil_iff_forall_not_mem]
  rintro ⟨name, value⟩ hmem
  cases (hy.last name value).1 hmem

end Silence

end AlertSilences
