import AlertSilences.Disk.Path
import Mathlib.Data.List.Basic
import Mathlib.Tactic.SplitIfs

/-! The path beside another, whose text has a suffix at its end: the same names, but the last one
with the suffix; or behind a slash at the end the suffix as one more name. -/

namespace AlertSilences.Disk

theorem pieces_of_not_mem {text : List Char} (h : '/' ∉ text) : pieces text = [text] := by
  induction text with
  | nil => rfl
  | cons c rest ih =>
    obtain ⟨hc, hrest⟩ := not_or.1 (mt List.mem_cons.2 h)
    rw [pieces, if_neg (Ne.symm hc), ih hrest]

/-- Of the pieces of a text only the last one grows with the text, until the next slash. -/
theorem exists_pieces_append (text : List Char) :
    ∃ front last, ∀ more, '/' ∉ more → pieces (text ++ more) = front ++ [last ++ more] := by
  induction text with
  | nil => exact ⟨[], [], fun more h => pieces_of_not_mem h⟩
  | cons c rest ih =>
    obtain ⟨front, last, hmore⟩ := ih
    by_cases hc : c = '/'
    · refine ⟨[] :: front, last, fun more h => ?_⟩
      rw [List.cons_append, pieces, if_pos hc, hmore more h, List.cons_append]
    · cases front with
      | nil =>
        refine ⟨[], c :: last, fun more h => ?_⟩
        rw [List.cons_append, pieces, if_neg hc, hmore more h]
        rfl
      | cons piece front =>
        refine ⟨(c :: piece) :: front, last, fun more h => ?_⟩
        rw [List.cons_append, pieces, if_neg hc, hmore more h]
        rfl

namespace Path

theorem names_concat (front : List (List Char)) {last : List Char} (h : last ≠ []) :
    ((front ++ [last]).filter (!·.isEmpty)).map String.ofList =
      (front.filter (!·.isEmpty)).map String.ofList ++ [String.ofList last] := by
  simp [h]

theorem names_concat_nil (front : List (List Char)) :
    ((front ++ [[]]).filter fun piece : List Char => !piece.isEmpty).map String.ofList =
      (front.filter (!·.isEmpty)).map String.ofList := by
  rw [List.filter_append]
  exact congrArg _ (List.append_nil _)

theorem head?_append (text : String) {suffix : String} (hslash : '/' ∉ suffix.toList)
    (hempty : suffix ≠ "") :
    ((text ++ suffix).toList.head? == some '/') = (text.toList.head? == some '/') := by
  cases htext : text.toList with
  | nil =>
    cases hsuffix : suffix.toList with
    | nil => exact absurd (String.toList_eq_nil_iff.1 hsuffix) hempty
    | cons c more =>
      rw [hsuffix] at hslash
      have hc : c ≠ '/' := fun h => hslash (h ▸ List.mem_cons_self)
      simp [htext, hsuffix, hc]
  | cons c more => simp [htext]

/-- A suffix goes to the end of the last name, or is a name of its own behind a slash. -/
theorem exists_ofText_append (text : String) :
    ∃ rooted front stem,
      (ofText text = ⟨rooted, front ++ [stem], false⟩ ∨ ofText text = ⟨rooted, front, true⟩) ∧
      ∀ suffix, '/' ∉ suffix.toList → suffix ≠ "" →
        ofText (text ++ suffix) = ⟨rooted, front ++ [stem ++ suffix], false⟩ := by
  obtain ⟨front, last, hpieces⟩ := exists_pieces_append text.toList
  have hself := hpieces [] List.not_mem_nil
  rw [List.append_nil, List.append_nil] at hself
  refine ⟨text.toList.head? == some '/', (front.filter (!·.isEmpty)).map String.ofList,
    String.ofList last, ?_, fun suffix hslash hempty => ?_⟩
  · rw [ofText, hself]
    cases last with
    | nil =>
      rw [names_concat_nil, List.getLast?_concat, beq_self_eq_true]
      exact .inr rfl
    | cons c last =>
      rw [names_concat front (List.cons_ne_nil c last), List.getLast?_concat]
      exact .inl rfl
  · have hlast : last ++ suffix.toList ≠ [] := by
      intro h
      exact hempty (String.toList_eq_nil_iff.1 (List.append_eq_nil_iff.1 h).2)
    have hends : (some (last ++ suffix.toList) == some []) = false := by simpa using hlast
    rw [ofText, head?_append text hslash hempty, String.toList_append, hpieces _ hslash,
      names_concat front hlast, List.getLast?_concat, hends, String.ofList_append,
      String.ofList_toList]

/-- Without a slash behind it there is a last name. -/
theorem exists_names_of_slash {text : String} (h : (ofText text).slash = false) :
    ∃ front name, (ofText text).names = front ++ [name] := by
  obtain ⟨rooted, front, stem, htext, -⟩ := exists_ofText_append text
  rcases htext with htext | htext
  · exact ⟨front, stem, by rw [htext]⟩
  · rw [htext] at h
    cases h

theorem ofText?_eq_ok {text : String} {p : Path} (h : ofText? text = .ok p) : p = ofText text := by
  rw [ofText?] at h
  split_ifs at h
  exact (Except.ok.inj h).symm

end Path

end AlertSilences.Disk
