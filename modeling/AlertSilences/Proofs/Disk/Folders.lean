import AlertSilences.Proofs.Disk.Files

/-! Making folders only adds to a disk: what has a name keeps it, and every file stays as it is. -/

namespace AlertSilences.Disk

/-- Folders have been added under names that were free. -/
structure Widens (d d' : Disk) : Prop where
  formed : d'.Formed
  sound : d.Sound → d'.Sound
  keeps : d.Keeps d'
  child : ∀ {g m k}, d.child? g m = some k → d'.child? g m = some k
  new : ∀ {g m k}, d'.child? g m = some k → d.child? g m = some k ∨ d'.content? k = none
  contents : ∀ k, d'.content? k = d.content? k
  locks : d'.locks = d.locks

namespace Widens

theorem refl {d : Disk} (formed : d.Formed) : d.Widens d :=
  ⟨formed, fun h => h, .refl d, fun h => h, .inl, fun _ => rfl, rfl⟩

theorem trans {d d' d'' : Disk} (h : d.Widens d') (h' : d'.Widens d'') : d.Widens d'' := by
  refine ⟨h'.formed, fun sound => h'.sound (h.sound sound), h.keeps.trans h'.keeps,
    fun hk => h'.child (h.child hk), fun hk => ?_, fun k => (h'.contents k).trans (h.contents k),
    h'.locks.trans h.locks⟩
  rcases h'.new hk with hk | hk
  · exact (h.new hk).imp_right fun hk => (h'.contents _).trans hk
  · exact .inr hk

/-- The file at a path that leads to a name stays as it is, also if there is none. -/
theorem file?_eq {d d' : Disk} (h : d.Widens d') {text : String} {i : Inode} {name : String}
    (hnames : d.Names text i name) : d'.file? text = d.file? text := by
  rw [file?_of_names hnames, file?_of_names (hnames.keeps h.keeps)]
  cases hj : d.child? i name with
  | some j =>
    rw [h.child hj]
    exact h.contents j
  | none =>
    cases hj' : d'.child? i name with
    | none => rfl
    | some j =>
      rcases h.new hj' with hold | hnew
      · exact absurd (hj.symm.trans hold) nofun
      · exact hnew

theorem file?_beside {d d' : Disk} (formed : d.Formed) (h : d.Widens d') {text suffix : String}
    (hslash : '/' ∉ suffix.toList) (hempty : suffix ≠ "") {i : Inode} {name : String}
    (hnames : d.Names (text ++ suffix) i name) : d'.file? text = d.file? text := by
  rcases names_beside hslash hempty hnames with ⟨last, hlast, -⟩ | hnever
  · exact h.file?_eq hlast
  · rw [file?_eq_none formed (hnever d), file?_eq_none h.formed (hnever d')]

theorem holds {d d' : Disk} (h : d.Widens d') {text : String} {file : Inode}
    {content : Bytes} (hholds : d.Holds text file content) : d'.Holds text file content := by
  obtain ⟨i, name, hnames, hchild, hcontent⟩ := hholds
  exact ⟨i, name, hnames.keeps h.keeps, h.child hchild, (h.contents file).trans hcontent⟩

end Widens

/-- A folder is made under the last name of its path. -/
theorem makeFolder_eq_ok {d d' : Disk} {text : String} (h : d.makeFolder text = .ok d') :
    ∃ p i parent names front name, Path.ofText? text = .ok p ∧
      d.node? i = some (.folder parent names) ∧ p.names = front ++ [name] ∧ name ≠ "." ∧
      name ≠ ".." ∧ d.walk p front = .ok i ∧ checkName name = .ok () ∧ names[name]? = none ∧
      d' = d.link i parent names name (.folder i ∅) := by
  rw [makeFolder] at h
  obtain ⟨p, hp, h⟩ := bind_eq_ok.1 h
  obtain ⟨⟨i, parent, names, last⟩, hplace, h⟩ := bind_eq_ok.1 h
  cases last with
  | none => cases h
  | some name =>
    obtain ⟨hi, front, hnames, hdot, hdots, hwalk⟩ := place_eq_ok.1 hplace
    obtain ⟨u, hname, h⟩ := bind_eq_ok.1 h
    cases hfree : names[name]? with
    | some j =>
      simp only [hfree] at h
      cases h
    | none =>
      simp only [hfree] at h
      exact ⟨p, i, parent, names, front, name, hp, hi, hnames, hdot, hdots, hwalk, hname, hfree,
        (Except.ok.inj h).symm⟩

theorem widens_makeFolder {d d' : Disk} (formed : d.Formed) {text : String}
    (h : d.makeFolder text = .ok d') : d.Widens d' := by
  obtain ⟨p, i, parent, names, front, name, -, hi, -, -, -, -, -, hfree, rfl⟩ := makeFolder_eq_ok h
  have hnew : Node.folder i ∅ = .file [] ∨ Node.folder i ∅ = .folder i ∅ := .inr rfl
  have hchange : Change d (d.link i parent names name (.folder i ∅)) :=
    .link name _ hi hfree hnew
  have hchildren := child?_link formed hi name hnew
  have hcontents (k : Inode) :
      (d.link i parent names name (.folder i ∅)).content? k = d.content? k := by
    rcases eq_or_ne k d.next with rfl | hk
    · rw [content?, content?, node?_link, if_pos rfl, formed.fresh (Nat.le_refl _)]
    · exact content?_link hi name hk
  refine ⟨hchange.formed formed, fun sound => hchange.sound sound, hchange.keeps formed,
    fun {g m k} hk => ?_, fun {g m k} hk => ?_, hcontents, rfl⟩
  · rw [hchildren, if_neg, hk]
    rintro ⟨rfl, rfl⟩
    rw [child?_of_node? hi, hfree] at hk
    cases hk
  · rw [hchildren] at hk
    split_ifs at hk with hgm
    · obtain rfl := Option.some.inj hk
      refine .inr ((hcontents d.next).trans ?_)
      rw [content?, formed.fresh (Nat.le_refl _)]
    · exact .inl hk

theorem widens_ensureFolder {d : Disk} (formed : d.Formed) (text : String) :
    d.Widens (d.ensureFolder text).1 := by
  rw [ensureFolder]
  split
  · next d' h => exact widens_makeFolder formed h
  · exact .refl formed

theorem widens_makeWithin {d : Disk} (formed : d.Formed) (text : String) (around : List String) :
    d.Widens (d.makeWithin text around).1 := by
  induction around generalizing text with
  | nil => exact widens_ensureFolder formed text
  | cons outer more ih =>
    rw [makeWithin]
    split
    · have houter := ih outer
      split
      · next d' fault h => rwa [h] at houter
      · next d' h =>
        rw [h] at houter
        exact houter.trans (widens_ensureFolder houter.formed text)
    · exact widens_ensureFolder formed text

theorem widens_makeParents {d : Disk} (formed : d.Formed) (text : String) :
    d.Widens (d.makeParents text).1 := by
  rw [makeParents]
  split
  · exact .refl formed
  · rw [makeFolders]
    split_ifs
    · exact .refl formed
    · split
      · exact .refl formed
      · exact widens_makeWithin formed _ _

end AlertSilences.Disk
