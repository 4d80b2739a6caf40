import AlertSilences.Proofs.Json.Shape
import AlertSilences.Proofs.OrderedMap
import AlertSilences.Record.Document

/-! A flat record that was written is read back as it was: ids and seconds of any size, any texts,
and any map of labels. -/

namespace AlertSilences

open Json

namespace Json

theorem takes_readUnsigned (id : UInt64) : Takes readUnsigned (writeNatural id.toNat) id :=
  fun _ hrest => readUnsigned_written id hrest

theorem takes_readSigned (second : Int64) : Takes readSigned (writeInteger second.toInt) second :=
  fun _ hrest => readSigned_written second hrest

theorem takes_readString (text : String) : Takes readString (writeText text) text := by
  intro rest _
  rw [writeText_append, readString, dropBlank_cons (by decide)]
  simp only [if_true, readText_written]

/-- Where null may stand, a value that does not begin like null is read all the same. -/
theorem Takes.orNull {α : Type} {read : Reader α} {part : Bytes} {a : α} (h : Takes read part a)
    (hpart : ∃ b more, part = b :: more ∧ isBlank b = false ∧ b ≠ ascii 'n') (default : α) :
    Takes (readOrNull default read) part a := by
  intro rest hrest
  obtain ⟨b, more, rfl, hblank, hnull⟩ := hpart
  have hread := h rest hrest
  rw [List.cons_append] at hread ⊢
  rw [readOrNull, dropBlank_cons hblank]
  simp only [if_neg hnull, hread]

theorem Takes.once {α : Type} {read : Reader α} {part : Bytes} {a : α} (h : Takes read part a)
    (key : String) : Takes (Record.readOnce key none read) (ascii ':' :: part) a := by
  intro rest hrest
  exact h.colon rest hrest

theorem writeMap_append (members : List (String × Bytes)) (rest : Bytes) :
    writeMap members ++ rest = ascii '\x7b' ::
      (separated (members.map fun m => writeMember m.1 m.2) ++ ascii '\x7d' :: rest) := by
  simp [writeMap]

end Json

namespace Labels

/-- Members of a map of labels are put in one after the other. -/
theorem members_readEntry (entries : List (String × String)) (labels : Labels) :
    Members readEntry labels (entries.map fun e => (e.1, writeText e.2))
      (entries.foldl (fun acc e => acc.insert e.1 e.2) labels) := by
  induction entries generalizing labels with
  | nil => exact .nil labels
  | cons e entries ih =>
    have htakes : Takes (readEntry labels e.1) (ascii ':' :: writeText e.2)
        (labels.insert e.1 e.2) := by
      intro rest hrest
      rw [readEntry, (takes_readString e.2).colon rest hrest]
      rfl
    exact .cons htakes (ih _)

theorem takes_read (labels : Labels) : Takes Labels.read labels.write labels := by
  intro rest hrest
  have h := readMap_written (members_readEntry labels.toList ∅) rest
  rw [← Std.ExtTreeMap.ofList_eq_foldl, OrderedMap.ofList_toList] at h
  rw [write, writeMap_append, read, dropBlank_cons (by decide)]
  simp only [if_true, h]

end Labels

namespace Record

theorem takes_readTextOrNull (text : String) : Takes readTextOrNull (writeText text) text :=
  (takes_readString text).orNull ⟨quote, _, rfl, by decide, by decide⟩ ""

theorem takes_readLabelsOrNull (labels : Labels) : Takes readLabelsOrNull labels.write labels :=
  (Labels.takes_read labels).orNull ⟨ascii '\x7b', _, rfl, by decide, by decide⟩ ∅

/-- A member whose name is that of a field not met yet fills this field. -/
theorem takes_entry {α : Type} {read : Reader α} {written : Bytes} {a : α}
    (h : Takes read written a) {d : Draft} {key : String} (fill : α → Draft)
    (reads : ∀ s, readEntry d key s = do
      let (value, rest) ← readOnce key none read s
      return (fill value, rest)) :
    Takes (readEntry d key) (ascii ':' :: written) (fill a) := by
  intro rest hrest
  rw [reads, h.once key rest hrest]
  rfl

/-- The fields of a written record fill a blank draft. -/
theorem members_readEntry (r : Record) :
    Members readEntry .blank
      [("id", writeNatural r.id.toNat), ("createdBy", writeText r.createdBy),
        ("createdAtSeconds", writeInteger r.createdAtSeconds.toInt),
        ("endsAtSeconds", writeInteger r.endsAtSeconds.toInt),
        ("comment", writeText r.comment), ("filters", r.filters.write)]
      ⟨some r.id, some r.createdBy, some r.createdAtSeconds, some r.endsAtSeconds,
        some r.comment, some r.filters⟩ := by
  refine .cons (takes_entry (takes_readUnsigned r.id)
      (fun id => ⟨some id, none, none, none, none, none⟩) ?_) <|
    .cons (takes_entry (takes_readTextOrNull r.createdBy)
      (fun name => ⟨some r.id, some name, none, none, none, none⟩) ?_) <|
    .cons (takes_entry (takes_readSigned r.createdAtSeconds)
      (fun second => ⟨some r.id, some r.createdBy, some second, none, none, none⟩) ?_) <|
    .cons (takes_entry (takes_readSigned r.endsAtSeconds)
      (fun second => ⟨some r.id, some r.createdBy, some r.createdAtSeconds, some second, none,
        none⟩) ?_) <|
    .cons (takes_entry (takes_readTextOrNull r.comment)
      (fun comment => ⟨some r.id, some r.createdBy, some r.createdAtSeconds,
        some r.endsAtSeconds, some comment, none⟩) ?_) <|
    .cons (takes_entry (takes_readLabelsOrNull r.filters)
      (fun filters => ⟨some r.id, some r.createdBy, some r.createdAtSeconds,
        some r.endsAtSeconds, some r.comment, some filters⟩) ?_) <| .nil _
  all_goals
    intro s
    simp only [readEntry, Draft.blank, reduceIte, String.reduceEq]

theorem takes_read (r : Record) : Takes Record.read r.write r := by
  intro rest hrest
  have h := readMap_written r.members_readEntry rest
  rw [write, writeMap_append, read, dropBlank_cons (by decide)]
  simp only [if_true, h]
  rfl

/-- Written records are read in their places. -/
theorem elements_read (index : Nat) (rs : List Record) :
    Elements (fun _ => Record.read) index (rs.map write) rs := by
  induction rs generalizing index with
  | nil => exact .nil index
  | cons r rs ih =>
    exact .cons ⟨ascii '\x7b', _, rfl, by decide, by decide⟩ r.takes_read (ih (index + 1))

end Record

end AlertSilences
