import AlertSilences.Proofs.Json.Taken
import AlertSilences.Record.Document

/-! Only elements that are spelled are read as records, also where members of other names are passed
over. -/

namespace AlertSilences

open Json

theorem Labels.takesValues_read : TakesValues Labels.read := by
  have hentry (labels : Labels) (name : String) : TakesMember (readEntry labels name) := by
    intro s a rest h
    rw [readEntry] at h
    obtain ⟨r, hread, heq⟩ := exists_of_map_eq_ok h
    cases heq
    exact takesValues_readString.member _ _ _ hread
  intro s a rest h
  refine spelled_of_dropBlank ?_
  rw [Labels.read] at h
  split at h
  · cases h
  · next b more hdrop =>
    rw [hdrop]
    split_ifs at h with hbrace
    · exact hbrace ▸ spelled_of_within (within_of_readMap hentry h)
    · exact absurd h (refuse_ne_ok _ _ _)

namespace Record

variable {α : Type} {read : Reader α} {s rest : Bytes}

theorem takesMember_readOnce (hread : TakesValues read) (key : String) (before : Option α) :
    TakesMember (readOnce key before read) := by
  intro s a rest h
  rw [readOnce] at h
  split_ifs at h
  exact hread.member _ _ _ h

theorem takesMember_readEntry (d : Draft) (key : String) : TakesMember (readEntry d key) := by
  intro s d' rest h
  have hfield {α : Type} {read : Reader α} (hread : TakesValues read) {before : Option α}
      (fill : α → Draft)
      (h : (readOnce key before read s >>= fun r => pure (fill r.1, r.2)) = .ok (d', rest)) :
      ∃ after left, Blank after ∧ s = after ++ ascii ':' :: left ∧ Spelled left rest := by
    obtain ⟨⟨a, left⟩, hopen, heq⟩ := exists_of_bind_eq_ok h
    cases heq
    exact takesMember_readOnce hread key before _ _ _ hopen
  have htext : TakesValues readTextOrNull := takesValues_readString.orNull ""
  have hlabels : TakesValues readLabelsOrNull := Labels.takesValues_read.orNull ∅
  rw [readEntry] at h
  split_ifs at h
  · exact hfield takesValues_readUnsigned (fun id => { d with id := some id }) h
  · exact hfield htext (fun name => { d with createdBy := some name }) h
  · exact hfield takesValues_readSigned (fun second => { d with createdAtSeconds := some second }) h
  · exact hfield takesValues_readSigned (fun second => { d with endsAtSeconds := some second }) h
  · exact hfield htext (fun comment => { d with comment := some comment }) h
  · exact hfield hlabels (fun filters => { d with filters := some filters }) h
  · obtain ⟨left, hskip, heq⟩ := exists_of_bind_eq_ok h
    cases heq
    exact exists_skipped hskip

/-- A field by its place, in a list that goes on behind it. -/
theorem from_of_readElement (hread : TakesValues read) {first : Bool} {default a : α}
    {left : Bytes} (h : readElement first default read s = .ok (a, left))
    (hbehind : Bracket.list.Behind left rest) : Bracket.list.From first s rest := by
  rw [readElement] at h
  split at h
  · cases h
  · next hnext =>
    cases h
    obtain ⟨gap, hgap, ⟨-, hs⟩ | ⟨_, _, hnone, -⟩⟩ := nextElement_cases hnext
    · have hclose := congrArg dropBlank hs
      rw [dropBlank_append hgap, dropBlank_cons (by decide)] at hclose
      obtain ⟨gap', parts, hgap', -, rfl⟩ := hbehind
      cases parts with
      | nil => exact from_close first hgap' rest
      | cons part parts =>
        rw [following_cons, dropBlank_append hgap', dropBlank_cons (by decide)] at hclose
        cases (List.cons.inj hclose).1
    · cases hnone
  · next value hnext =>
    obtain ⟨gap, hgap, ⟨hnone, -⟩ | ⟨_, blank, hsome, hblank, rfl⟩⟩ := nextElement_cases hnext
    · cases hnone
    · cases hsome
      exact from_element hgap hblank (hread _ _ _ h) hbehind

theorem behind_of_endList (h : endList s = .ok rest) : Bracket.list.Behind s rest := by
  obtain ⟨gap, hgap, hs⟩ := exists_blank s
  rw [endList] at h
  split at h
  · cases h
  · next b more hdrop =>
    split_ifs at h with hclose
    cases h
    rw [hs, hdrop, hclose]
    exact behind_close hgap rest

theorem within_of_readPositional {r : Record} (h : readPositional s = .ok (r, rest)) :
    Bracket.list.Within s rest := by
  have htext : TakesValues readTextOrNull := takesValues_readString.orNull ""
  have hlabels : TakesValues readLabelsOrNull := Labels.takesValues_read.orNull ∅
  rw [readPositional] at h
  obtain ⟨⟨_, _⟩, h₁, h⟩ := exists_of_bind_eq_ok h
  obtain ⟨⟨_, _⟩, h₂, h⟩ := exists_of_bind_eq_ok h
  obtain ⟨⟨_, _⟩, h₃, h⟩ := exists_of_bind_eq_ok h
  obtain ⟨⟨_, _⟩, h₄, h⟩ := exists_of_bind_eq_ok h
  obtain ⟨⟨_, _⟩, h₅, h⟩ := exists_of_bind_eq_ok h
  obtain ⟨⟨_, _⟩, h₆, h⟩ := exists_of_bind_eq_ok h
  obtain ⟨_, hend, h⟩ := exists_of_bind_eq_ok h
  cases h
  exact from_of_readElement takesValues_readUnsigned h₁ <|
    from_of_readElement htext h₂ <|
    from_of_readElement takesValues_readSigned h₃ <|
    from_of_readElement takesValues_readSigned h₄ <|
    from_of_readElement htext h₅ <|
    from_of_readElement hlabels h₆ (behind_of_endList hend)

theorem takesValues_read : TakesValues Record.read := by
  intro s a rest h
  refine spelled_of_dropBlank ?_
  rw [Record.read] at h
  split at h
  · cases h
  · next b more hdrop =>
    rw [hdrop]
    split_ifs at h with hbrace hbracket
    · obtain ⟨r, hmap, heq⟩ := exists_of_map_eq_ok h
      cases heq
      exact hbrace ▸ spelled_of_within (within_of_readMap takesMember_readEntry hmap)
    · exact hbracket ▸ spelled_of_within (within_of_readPositional h)
    · exact absurd h (refuse_ne_ok _ _ _)

end Record

end AlertSilences
