import AlertSilences.Proofs.Record.Meaning

/-! An element is read as the record of its fields, in whatever way it is spelled, and nothing else
is read as a record. -/

namespace AlertSilences

open Json

theorem toOption_bind {ε α β : Type} (x : Except ε α) (f : α → Except ε β) :
    (x >>= f).toOption = x.toOption.bind fun a => (f a).toOption := by
  cases x <;> rfl

theorem toOption_map {ε α β : Type} (x : Except ε α) (f : α → β) :
    (x.map f).toOption = x.toOption.map f := by
  cases x <;> rfl

namespace Labels

variable {t : Tree} {core : Bytes}

theorem pairs?_cons (m : List Piece × Tree) (members : List (List Piece × Tree)) :
    Fields.pairs? (.map (m :: members)) =
      (text? m.1).bind fun name => m.2.string?.bind fun value =>
        (Fields.pairs? (.map members)).map ((name, value) :: ·) := by
  rw [Fields.pairs?, Fields.pairs?, List.mapM_cons]
  simp [Option.map_eq_bind, Option.bind_assoc]

theorem foldlM_insert (members : List (List Piece × Tree)) (labels : Labels) :
    members.foldlM (fun (labels : Labels) m =>
        (text? m.1).bind fun name => m.2.string?.map (labels.insert name)) labels =
      (Fields.pairs? (.map members)).map fun pairs =>
        pairs.foldl (fun acc p => acc.insert p.1 p.2) labels := by
  induction members generalizing labels with
  | nil => rfl
  | cons m members ih =>
    rw [List.foldlM_cons, pairs?_cons]
    cases text? m.1 with
    | none => rfl
    | some name =>
      cases m.2.string? with
      | none => rfl
      | some value => simp [ih, Function.comp_def]

theorem yields_read (h : Spells t core) : Yields Labels.read core (Fields.labels? t) := by
  intro before rest hb hrest
  obtain ⟨b, more, hbegins, hcore, hdrop⟩ := h.dropBlank hb rest
  have hrefuse (hbrace : b ≠ ascii '\x7b') :
      (Labels.read (before ++ (core ++ rest))).toOption = none := by
    rw [Labels.read, hdrop]
    simp only [if_neg hbrace, toOption_refuse]
  cases t with
  | map members =>
    have hentry (labels : Labels) (name : String) (t : Tree) (core : Bytes) (h : Spells t core) :
        YieldsMember (readEntry labels name) core (t.string?.map (labels.insert name)) := by
      intro after before rest hafter hbefore hrest
      rw [readEntry, toOption_map, (yields_readString h).member after before rest hafter hbefore
        hrest, Option.map_map, Option.map_map]
      rfl
    obtain ⟨body, hbody, hmap⟩ := readMap_spelled hentry h ∅
    obtain ⟨rfl, rfl⟩ := List.cons.inj (hcore.symm.trans hbody)
    rw [Labels.read, hdrop]
    simp only [if_true, hmap, foldlM_insert, Fields.labels?, Std.ExtTreeMap.ofList_eq_foldl]
  | _ => exact hrefuse (hbegins.ne (by simp only [Tree.Begins]; decide))

end Labels

namespace Record

variable {t : Tree} {core : Bytes}

theorem yieldsMember_readOnce {α : Type} {read : Reader α} {a? : Option α}
    (h : Yields read core a?) (key : String) (before : Option α) :
    YieldsMember (readOnce key before read) core (once? before a?) := by
  intro after before' rest hafter hbefore hrest
  rw [readOnce, once?]
  split_ifs
  · rfl
  · exact h.member after before' rest hafter hbefore hrest

/-- A member of a record, also one whose value is passed over. -/
theorem yieldsMember_readEntry (h : Spells t core) (d : Draft) (key : String) :
    YieldsMember (readEntry d key) core (d.next? key t) := by
  intro after before rest hafter hbefore hrest
  have hfield {α : Type} {read : Reader α} {a? : Option α} (hread : Yields read core a?)
      (met : Option α) (fill : α → Draft) :
      (readOnce key met read (after ++ ascii ':' :: (before ++ (core ++ rest))) >>=
        fun r => pure (fill r.1, r.2)).toOption = ((once? met a?).map fill).map (·, rest) := by
    rw [toOption_bind,
      yieldsMember_readOnce hread key met after before rest hafter hbefore hrest]
    cases once? met a? <;> rfl
  have htext := (yields_readString h).orNull h ""
  rw [readEntry, Draft.next?]
  split_ifs
  · exact hfield (yields_readUnsigned h) d.id fun id => { d with id := some id }
  · exact hfield htext d.createdBy fun name => { d with createdBy := some name }
  · exact hfield (yields_readSigned h) d.createdAtSeconds fun second =>
      { d with createdAtSeconds := some second }
  · exact hfield (yields_readSigned h) d.endsAtSeconds fun second =>
      { d with endsAtSeconds := some second }
  · exact hfield htext d.comment fun comment => { d with comment := some comment }
  · exact hfield ((Labels.yields_read h).orNull h ∅) d.filters fun filters =>
      { d with filters := some filters }
  · rw [skipMember, readColon_blank hafter]
    simp only [skipValue_spelled h hbefore hrest]
    rfl

theorem foldlM_named (members : List (List Piece × Tree)) (d : Draft) :
    members.foldlM (fun (d : Draft) m => (text? m.1).bind (d.next? · m.2)) d =
      (Fields.named? (.map members)).bind fun named =>
        named.foldlM (fun (d : Draft) p => d.next? p.1 p.2) d := by
  rw [Fields.named?]
  induction members generalizing d with
  | nil => rfl
  | cons m members ih =>
    rw [List.foldlM_cons, List.mapM_cons]
    cases text? m.1 with
    | none => rfl
    | some key =>
      cases hnext : d.next? key m.2 with
      | none => simp [hnext, Option.bind_assoc]
      | some next => simp [hnext, ih, Option.bind_assoc]

/-- A field of a record that is written as a list, and where reading stands behind it. -/
theorem readElement_standing {α : Type} {read : Reader α} {value? : Tree → Option α}
    (hread : ∀ t core, Spells t core → Yields read core (value? t)) (default : α) (first : Bool)
    {gap : Bytes} (hgap : Blank gap) {parts : List (Tree × Padded)}
    (each : ∀ p ∈ parts, Spells p.1 p.2.core) (rest : Bytes) :
    ∃ gap', Blank gap' ∧
      (readElement first default read
          (standing (ascii ']') first gap (parts.map (·.2.bytes)) rest)).toOption =
        (element? default value? (parts.map Prod.fst)).map
          (·, standing (ascii ']') false gap' ((parts.drop 1).map (·.2.bytes)) rest) := by
  cases parts with
  | nil =>
    refine ⟨gap, hgap, ?_⟩
    rw [readElement, List.map_nil, nextElement_standing_nil first hgap, standing_nil]
    simp only [List.drop_nil, List.map_nil, standing_nil]
    rfl
  | cons p parts =>
    refine ⟨p.2.after, p.2.blank_after, ?_⟩
    have hvalue := hread p.1 p.2.core (each p List.mem_cons_self) []
      (standing (ascii ']') false p.2.after (parts.map (·.2.bytes)) rest) blank_nil
      (stops_standing (.inl rfl) p.2.blank_after _ _)
    rw [readElement, List.map_cons,
      nextElement_standing first hgap (each p List.mem_cons_self).opens]
    exact hvalue

/-- A list that has no room for more elements ends only if there are none. -/
theorem endList_standing {gap : Bytes} (hgap : Blank gap) (parts : List Bytes) (rest : Bytes) :
    (endList (standing (ascii ']') false gap parts rest)).toOption =
      if parts.isEmpty then some rest else none := by
  cases parts with
  | nil =>
    rw [standing_nil, endList, dropBlank_append hgap, dropBlank_cons (by decide)]
    rfl
  | cons part parts =>
    have hcomma : ascii ',' ≠ ascii ']' := by decide
    rw [standing_later, endList, dropBlank_append hgap, dropBlank_cons (by decide)]
    simp only [if_neg hcomma]
    split_ifs <;> first | rfl | contradiction

/-- A record that is written as a list, behind the bracket. -/
theorem readPositional_standing {gap : Bytes} (hgap : Blank gap) {parts : List (Tree × Padded)}
    (each : ∀ p ∈ parts, Spells p.1 p.2.core) (rest : Bytes) :
    (readPositional (standing (ascii ']') true gap (parts.map (·.2.bytes)) rest)).toOption =
      (positional? (parts.map Prod.fst)).map (·, rest) := by
  have hmore (k : Nat) : ∀ p ∈ parts.drop k, Spells p.1 p.2.core :=
    fun p hp => each p (List.mem_of_mem_drop hp)
  have htext (t : Tree) (core : Bytes) (h : Spells t core) :
      Yields readTextOrNull core (t.orNull "" Tree.string?) := (yields_readString h).orNull h ""
  have hsigned (t : Tree) (core : Bytes) (h : Spells t core) := yields_readSigned h
  obtain ⟨gap₁, hgap₁, h₁⟩ := readElement_standing (fun _ _ h => yields_readUnsigned h) 0 true hgap
    each rest
  obtain ⟨gap₂, hgap₂, h₂⟩ := readElement_standing htext "" false hgap₁ (hmore 1) rest
  obtain ⟨gap₃, hgap₃, h₃⟩ := readElement_standing hsigned 0 false hgap₂ (hmore 2) rest
  obtain ⟨gap₄, hgap₄, h₄⟩ := readElement_standing hsigned 0 false hgap₃ (hmore 3) rest
  obtain ⟨gap₅, hgap₅, h₅⟩ := readElement_standing htext "" false hgap₄ (hmore 4) rest
  obtain ⟨gap₆, hgap₆, h₆⟩ := readElement_standing
    (fun t _ h => (Labels.yields_read h).orNull h ∅) ∅ false hgap₅ (hmore 5) rest
  have hend := endList_standing hgap₆ ((parts.drop 6).map (·.2.bytes)) rest
  simp only [List.drop_drop, Nat.reduceAdd] at h₂ h₃ h₄ h₅ h₆
  rw [← readLabelsOrNull, element?_labels] at h₆
  simp only [readPositional, positional?, toOption_bind, ← List.map_drop, Option.bind_eq_bind,
    Option.map_bind, Option.bind_map, Function.comp_def, h₁, h₂, h₃, h₄, h₅, h₆, hend,
    List.isEmpty_map]
  cases (parts.drop 6).isEmpty <;> rfl

/-- An element is read as its fields, and any other value is refused. -/
theorem yields_read (h : Spells t core) :
    Yields Record.read core ((Fields.of? t).map Fields.toRecord) := by
  intro before rest hb hrest
  obtain ⟨b, more, hbegins, hcore, hdrop⟩ := h.dropBlank hb rest
  have hrefuse (hbrace : b ≠ ascii '\x7b') (hbracket : b ≠ ascii '[') :
      (Record.read (before ++ (core ++ rest))).toOption = none := by
    rw [Record.read, hdrop]
    simp only [if_neg hbrace, if_neg hbracket, toOption_refuse]
  cases t with
  | map members =>
    obtain ⟨body, hbody, hmap⟩ :=
      readMap_spelled (fun d key t core h => yieldsMember_readEntry h d key) h Draft.blank
    obtain ⟨rfl, rfl⟩ := List.cons.inj (hcore.symm.trans hbody)
    rw [Record.read, hdrop]
    simp only [if_true, toOption_map, hmap, foldlM_named]
    cases hnamed : Fields.named? (.map members) with
    | none => simp [Fields.of?, hnamed]
    | some named =>
      rw [← toRecord_foldlM_next? hnamed]
      simp [Function.comp_def]
  | list elements =>
    obtain ⟨gap, parts, hgap, each, rfl, hstanding⟩ := h.list_cases
    have hbracket : ascii '[' ≠ ascii '\x7b' := by decide
    have hsame := hstanding rest
    rw [hcore, List.cons_append] at hsame
    obtain ⟨rfl, htext⟩ := List.cons.inj hsame
    rw [Record.read, hdrop]
    simp only [if_neg hbracket, if_true]
    rw [htext, readPositional_standing hgap each, positional?_eq]
  | _ =>
    exact hrefuse (hbegins.ne (by simp only [Tree.Begins]; decide))
      (hbegins.ne (by simp only [Tree.Begins]; decide))

end Record

end AlertSilences
