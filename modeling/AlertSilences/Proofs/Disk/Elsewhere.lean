import AlertSilences.Proofs.Disk.Files

/-! What does not change. An operation on files leaves a disk as it was everywhere but under a few
names, and so at every path that leads to none of these. -/

namespace AlertSilences.Disk

theorem isFolderAt_of_find {d : Disk} {text : String} {p : Path} (hp : Path.ofText? text = .ok p)
    {k : Inode} (hk : d.find p = .ok k) : d.isFolderAt text = d.isFolder k := by
  have hbind : (Path.ofText? text).bind d.find = .ok k := bind_eq_ok.2 ⟨p, hp, hk⟩
  rw [isFolderAt, hbind]

theorem isFolderAt_eq_false_of_find {d : Disk} {text : String} {p : Path}
    (hp : Path.ofText? text = .ok p) {fault : Fault} (hk : d.find p = .error fault) :
    d.isFolderAt text = false := by
  have hbind : (Path.ofText? text).bind d.find = .error fault := by
    rw [hp]
    exact hk
  rw [isFolderAt, hbind]

/-- Only certain names may have come or gone or be those of other files, and only certain files may
hold something else. -/
structure Confined (places : Inode → String → Prop) (files : Inode → Prop) (d d' : Disk) : Prop where
  keeps : d.Keeps d'
  back : d'.Keeps d
  child : ∀ {g m}, ¬places g m → d'.child? g m = d.child? g m
  content : ∀ {k}, ¬files k → d'.content? k = d.content? k

structure Untouched (d d' : Disk) (text : String) : Prop where
  file : d'.file? text = d.file? text
  there : d'.exists? text = d.exists? text
  folder : d'.isFolderAt text = d.isFolderAt text

theorem Untouched.refl (d : Disk) (text : String) : Untouched d d text := ⟨rfl, rfl, rfl⟩

/-- Folders that stay and are not joined by others are the same folders before and after. -/
theorem Keeps.back {d d' : Disk} (keeps : d.Keeps d')
    (folders : ∀ k, d'.isFolder k = true → d.isFolder k = true)
    (inside : ∀ {g m k}, d'.child? g m = some k → d'.isFolder k = true → d.child? g m = some k) :
    d'.Keeps d := by
  refine ⟨keeps.home.symm, fun {i parent names} hi => ?_, inside⟩
  obtain ⟨parent', names', hi'⟩ := isFolder_iff.1 (folders i (isFolder_of_node? hi))
  obtain ⟨names'', hi''⟩ := keeps.parent hi'
  obtain ⟨rfl, -⟩ := Node.folder.inj (Option.some.inj (hi.symm.trans hi''))
  exact ⟨names', hi'⟩

namespace Confined

variable {places : Inode → String → Prop} {files : Inode → Prop} {d d' d'' : Disk}

theorem refl (places : Inode → String → Prop) (files : Inode → Prop) (d : Disk) :
    Confined places files d d :=
  ⟨.refl d, .refl d, fun _ => rfl, fun _ => rfl⟩

theorem trans (h : Confined places files d d') (h' : Confined places files d' d'') :
    Confined places files d d'' :=
  ⟨h.keeps.trans h'.keeps, h'.back.trans h.back, fun hne => (h'.child hne).trans (h.child hne),
    fun hne => (h'.content hne).trans (h.content hne)⟩

theorem mono {places' : Inode → String → Prop} {files' : Inode → Prop}
    (h : Confined places files d d') (more : ∀ g m, places g m → places' g m)
    (more' : ∀ k, files k → files' k) : Confined places' files' d d' :=
  ⟨h.keeps, h.back, fun hne => h.child (mt (more _ _) hne),
    fun hne => h.content (mt (more' _) hne)⟩

theorem symm (h : Confined places files d d') : Confined places files d' d :=
  ⟨h.back, h.keeps, fun hne => (h.child hne).symm, fun hne => (h.content hne).symm⟩

theorem isFolder_eq (h : Confined places files d d') (k : Inode) : d'.isFolder k = d.isFolder k :=
  Bool.eq_iff_iff.2 ⟨h.back.isFolder, h.keeps.isFolder⟩

/-- The same node is at a path that leads to none of the names. -/
theorem at_iff (h : Confined places files d d') {text : String}
    (hne : ∀ i name, d.Names text i name → ¬places i name) (k : Inode) :
    d'.At text k ↔ d.At text k := by
  constructor
  · rintro ⟨i, name, hnames, hchild⟩
    have hbefore := hnames.keeps h.back
    exact ⟨i, name, hbefore, (h.child (hne i name hbefore)).symm.trans hchild⟩
  · rintro ⟨i, name, hnames, hchild⟩
    exact ⟨i, name, hnames.keeps h.keeps, (h.child (hne i name hnames)).trans hchild⟩

/-- A path that leads to none of the names leads to the same node as before. -/
theorem find (h : Confined places files d d') (formed : d.Formed) {text : String} {p : Path}
    (hp : Path.ofText? text = .ok p) (hne : ∀ i name, d.Names text i name → ¬places i name)
    {k : Inode} (hk : d.find p = .ok k) : d'.find p = .ok k := by
  cases hfolder : d.isFolder k with
  | true =>
    have hkeeps := h.keeps.isFolder hfolder
    exact find_eq_ok.2 ⟨h.keeps.walk (find_eq_ok.1 hk).1 hfolder, fun _ => hkeeps⟩
  | false =>
    obtain ⟨i, name, hleads, hname, hchild⟩ := leads_of_find formed hp hk hfolder
    have hleads' := hleads.keeps h.keeps
    rw [find_of_leads hleads', enter_of_leads hleads' hname,
      h.child (hne i name ⟨p, hp, hleads, hname⟩), hchild]

theorem find_iff (h : Confined places files d d') (formed : d.Formed) (formed' : d'.Formed)
    {text : String} {p : Path} (hp : Path.ofText? text = .ok p)
    (hne : ∀ i name, d.Names text i name → ¬places i name) (k : Inode) :
    d'.find p = .ok k ↔ d.find p = .ok k :=
  ⟨h.symm.find formed' hp fun i name hnames => hne i name (hnames.keeps h.back),
    h.find formed hp hne⟩

/-- A file at a path is as it was, if it is none of those that may hold something else. -/
theorem content?_eq (h : Confined places files d d') (formed : d.Formed) {text : String}
    {p : Path} (hp : Path.ofText? text = .ok p) (hne : ∀ k, d.At text k → ¬files k) {k : Inode}
    (hk : d.find p = .ok k) : d'.content? k = d.content? k := by
  cases hfolder : d.isFolder k with
  | true => rw [content?_of_isFolder hfolder, content?_of_isFolder (h.keeps.isFolder hfolder)]
  | false =>
    obtain ⟨i, name, hleads, hname, hchild⟩ := leads_of_find formed hp hk hfolder
    exact h.content (hne k ⟨i, name, ⟨p, hp, hleads, hname⟩, hchild⟩)

/-- What is at a path that leads to none of the names, and has none of the files, is as it was. -/
theorem untouched (h : Confined places files d d') (formed : d.Formed) (formed' : d'.Formed)
    {text : String} (hne : ∀ i name, d.Names text i name → ¬places i name)
    (hne' : ∀ k, d.At text k → ¬files k) : Untouched d d' text := by
  cases hp : Path.ofText? text with
  | error fault =>
    refine ⟨?_, ?_, ?_⟩
    · rw [file?, file?, readText, readText, hp]
      rfl
    · rw [exists?, exists?, hp]
    · rw [isFolderAt, isFolderAt, hp]
      rfl
  | ok p =>
    have hiff := h.find_iff formed formed' hp hne
    refine ⟨?_, ?_, ?_⟩
    · ext content
      rw [file?_eq_some, file?_eq_some]
      constructor
      · rintro ⟨q, k, hq, hk, hcontent⟩
        obtain rfl := Except.ok.inj (hp.symm.trans hq)
        have hk' := (hiff k).1 hk
        exact ⟨p, k, hp, hk', (h.content?_eq formed hp hne' hk').symm.trans hcontent⟩
      · rintro ⟨q, k, hq, hk, hcontent⟩
        obtain rfl := Except.ok.inj (hp.symm.trans hq)
        exact ⟨p, k, hp, (hiff k).2 hk, (h.content?_eq formed hp hne' hk).trans hcontent⟩
    · rw [exists?, exists?, hp]
      dsimp only
      cases hk : d.find p with
      | ok k => rw [(hiff k).2 hk]
      | error fault =>
        cases hk' : d'.find p with
        | ok k => rw [(hiff k).1 hk'] at hk; cases hk
        | error fault' => rfl
    · cases hk : d.find p with
      | ok k =>
        rw [isFolderAt_of_find hp hk, isFolderAt_of_find hp ((hiff k).2 hk)]
        exact h.isFolder_eq k
      | error fault =>
        cases hk' : d'.find p with
        | ok k => rw [(hiff k).1 hk'] at hk; cases hk
        | error fault' =>
          rw [isFolderAt_eq_false_of_find hp hk, isFolderAt_eq_false_of_find hp hk']

end Confined

section Operations

variable {d d' : Disk} (formed : d.Formed) {i j file : Inode} {name name' : String}

include formed

theorem Created.confined (h : Created d d' i name file) :
    Confined (fun g m => g = i ∧ m = name) (· = file) d d' := by
  have keeps := h.change.keeps formed
  refine ⟨keeps, keeps.back h.folders fun {g m k} hk hfolder => ?_, fun hne => h.others _ _ hne,
    fun hne => h.contents _ hne⟩
  by_cases hplace : g = i ∧ m = name
  · obtain ⟨rfl, rfl⟩ := hplace
    obtain rfl := Option.some.inj (h.child.symm.trans hk)
    rw [isFolder_of_content? h.content] at hfolder
    cases hfolder
  · exact (h.others g m hplace).symm.trans hk

omit formed in
/-- The file opened is the one that was at the path, or it is new. -/
theorem Created.at_or_new (h : Created d d' i name file) {text : String}
    (hnames : d.Names text i name) : d.At text file ∨ d.next ≤ file := by
  rcases h.before with hthere | ⟨-, rfl⟩
  · exact .inl (hnames.at_iff.2 hthere)
  · exact .inr (Nat.le_refl _)

theorem confined_fill (nofolder : d.isFolder file = false) (made : file < d.next)
    (content : Bytes) :
    Confined (fun _ _ => False) (· = file) d (d.setNode file (.file content)) := by
  have change : Change d (d.setNode file (.file content)) := .fill file content nofolder made
  refine ⟨change.keeps formed, (change.keeps formed).back (fun k hk => ?_) fun hk _ => ?_,
    fun _ => child?_fill nofolder content _ _, fun {k} hne => ?_⟩
  · rwa [isFolder_fill nofolder] at hk
  · rwa [child?_fill nofolder] at hk
  · rw [content?_fill, if_neg (Ne.symm hne)]

theorem confined_writeAt (file : Inode) (offset : Nat) (bytes : Bytes) :
    Confined (fun _ _ => False) (· = file) d (d.writeAt file offset bytes) := by
  cases h : d.content? file with
  | none =>
    rw [writeAt, h]
    exact .refl _ _ d
  | some old =>
    rw [writeAt_eq d file offset bytes h]
    exact confined_fill formed (isFolder_of_content? h) (formed.lt_next_of_content? h) _

theorem Renamed.confined (h : Renamed d d' i name j name' file) :
    Confined (fun g m => g = i ∧ m = name ∨ g = j ∧ m = name') (fun _ => False) d d' := by
  have keeps := h.change.keeps formed
  have folders : ∀ k, d'.isFolder k = true → d.isFolder k = true :=
    fun k hk => (h.folders k).symm.trans hk
  refine ⟨keeps, keeps.back folders fun {g m k} hk hfolder => ?_,
    fun hne => h.others _ _ (fun heq => hne (.inl heq)) fun heq => hne (.inr heq),
    fun _ => h.contents _⟩
  by_cases hnew : g = j ∧ m = name'
  · obtain ⟨rfl, rfl⟩ := hnew
    obtain rfl := Option.some.inj (h.child.symm.trans hk)
    rw [h.folders, h.file] at hfolder
    cases hfolder
  · by_cases hold : g = i ∧ m = name
    · obtain ⟨rfl, rfl⟩ := hold
      rw [h.gone] at hk
      cases hk
    · exact (h.others g m hold hnew).symm.trans hk

end Operations

end AlertSilences.Disk
