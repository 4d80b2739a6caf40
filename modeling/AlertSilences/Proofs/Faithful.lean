import AlertSilences.Proofs.Widening

/-! Records, events and maps of labels are read back from what is written of them. So no two of
them are written in the same bytes, and two lists of silences are only if their records are the
same, one by one. -/

namespace AlertSilences

open Json

namespace Json

variable {α : Type} {read : Reader α}

theorem Takes.finish {part : Bytes} {a : α} (h : Takes read part a) :
    finish (read part) = .ok a := by
  have hread := h [] rfl
  rw [List.append_nil] at hread
  rw [hread]
  rfl

/-- What can be read back is written in bytes of its own. -/
theorem Takes.injective {write : α → Bytes} (h : ∀ a, Takes read (write a) a) :
    Function.Injective write := by
  intro a b hab
  have ha := (h a).finish
  rw [hab, (h b).finish] at ha
  exact (Except.ok.inj ha).symm

end Json

namespace Event

theorem takes_read (event : Event) : Takes Event.read event.write event := by
  intro rest hrest
  have hentry : Takes (readEntry none "labels") (ascii ':' :: event.labels.write)
      (some event.labels) := by
    intro rest hrest
    rw [readEntry, (Labels.takes_read event.labels).colon rest hrest]
    rfl
  have h := readMap_written (.cons hentry (.nil _)) rest
  rw [write, writeMap_append, read, dropBlank_cons (by decide)]
  simp only [if_true, h]
  rfl

end Event

namespace Record

theorem decodeAll_written (rs : List Record) : decodeAll (writeList (rs.map write)) = .ok rs :=
  Takes.finish fun rest _ => readList_written (elements_read 0 rs) rest

/-- Two silences have one record if they differ within a second, or in filters before the last one
on their name, at most. -/
theorem ofSilence_eq_iff (x y : Silence) :
    ofSilence x = ofSilence y ↔ x.id = y.id ∧ x.createdBy = y.createdBy ∧
      x.createdAt.floorSecond = y.createdAt.floorSecond ∧
      x.endsAt.floorSecond = y.endsAt.floorSecond ∧ x.comment = y.comment ∧
      ∀ name, x.filters.last? name = y.filters.last? name := by
  have hsecond (t u : Instant) : Int64.ofInt t.second = Int64.ofInt u.second ↔
      t.floorSecond = u.floorSecond := by
    rw [← Int64.toInt_inj, Instant.toInt_ofInt_second, Instant.toInt_ofInt_second,
      Instant.floorSecond_eq_second, Instant.floorSecond_eq_second]
  have hid : x.id.value = y.id.value ↔ x.id = y.id :=
    ⟨congrArg SilenceId.mk, congrArg SilenceId.value⟩
  have hfilters : x.filters.toLabels = y.filters.toLabels ↔
      ∀ name, x.filters.last? name = y.filters.last? name := by
    simp only [← Filters.getElem?_toLabels]
    exact ⟨fun h name => by rw [h], fun h => Std.ExtTreeMap.ext_getElem? h⟩
  simp only [ofSilence, mk.injEq, Instant.timeScale_second, hsecond, hid, hfilters]

end Record

namespace Silence

theorem encodeAll_eq (xs : List Silence) :
    encodeAll xs = writeList ((xs.map Record.ofSilence).map Record.write) := by
  rw [List.map_map]
  rfl

theorem encodeAll_eq_iff (xs ys : List Silence) :
    encodeAll xs = encodeAll ys ↔ xs.map Record.ofSilence = ys.map Record.ofSilence := by
  rw [encodeAll_eq, encodeAll_eq]
  constructor
  · intro h
    have hread := Record.decodeAll_written (xs.map Record.ofSilence)
    rw [h, Record.decodeAll_written] at hread
    exact (Except.ok.inj hread).symm
  · exact fun h => by rw [h]

/-- Records, events and labels come back from their bytes, so that these are theirs alone. Lists of
silences share theirs exactly if they are as long and their silences have the same ids, texts and
seconds, and the same last filter on each name. -/
theorem written_bytes_are_faithful :
    (∀ r : Record, Record.decode r.write = .ok r) ∧
    (∀ rs : List Record, Record.decodeAll (writeList (rs.map Record.write)) = .ok rs) ∧
    (∀ event : Event, Event.decode event.write = .ok event) ∧
    (∀ labels : Labels, finish (Labels.read labels.write) = .ok labels) ∧
    Function.Injective Record.write ∧ Function.Injective Event.write ∧
    Function.Injective Labels.write ∧
    (∀ xs ys : List Silence, encodeAll xs = encodeAll ys ↔
      List.Forall₂ (fun x y => Record.ofSilence x = Record.ofSilence y) xs ys) ∧
    ∀ x y : Silence, Record.ofSilence x = Record.ofSilence y ↔
      x.id = y.id ∧ x.createdBy = y.createdBy ∧
        x.createdAt.floorSecond = y.createdAt.floorSecond ∧
        x.endsAt.floorSecond = y.endsAt.floorSecond ∧ x.comment = y.comment ∧
        ∀ name, x.filters.last? name = y.filters.last? name := by
  refine ⟨fun r => r.takes_read.finish, Record.decodeAll_written, fun e => e.takes_read.finish,
    fun l => (Labels.takes_read l).finish, Takes.injective Record.takes_read,
    Takes.injective Event.takes_read, Takes.injective Labels.takes_read, fun xs ys => ?_,
    Record.ofSilence_eq_iff⟩
  rw [encodeAll_eq_iff, ← List.forall₂_eq_eq_eq, List.forall₂_map_left_iff,
    List.forall₂_map_right_iff]

end Silence

end AlertSilences
