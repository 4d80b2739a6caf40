import AlertSilences.Proofs.Disk.Place

/-! The files at paths. What is in a file is known from one name in one folder, and an operation on
files changes that of the names and contents it is about. -/

namespace AlertSilences.Disk

/-- A path leads to a name in a folder, and one that can be given. -/
def Names (d : Disk) (text : String) (i : Inode) (name : String) : Prop :=
  ∃ p, Path.ofText? text = .ok p ∧ d.Leads p i name ∧ checkName name = .ok ()

theorem Names.unique {d : Disk} {text : String} {i i' : Inode} {name name' : String}
    (h : d.Names text i name) (h' : d.Names text i' name') : i = i' ∧ name = name' := by
  obtain ⟨p, hp, hleads, -⟩ := h
  obtain ⟨p', hp', hleads', -⟩ := h'
  obtain rfl := Except.ok.inj (hp.symm.trans hp')
  exact hleads.unique hleads'

theorem Names.keeps {d d' : Disk} {text : String} {i : Inode} {name : String}
    (h : d.Names text i name) (keeps : d.Keeps d') : d'.Names text i name := by
  obtain ⟨p, hp, hleads, hname⟩ := h
  exact ⟨p, hp, hleads.keeps keeps, hname⟩

/-- What is in the file at a path, if there is one. -/
def file? (d : Disk) (text : String) : Option Bytes := (d.readText text).toOption

theorem readText_eq_ok {d : Disk} {text : String} {content : Bytes} :
    d.readText text = .ok content ↔ d.file? text = some content := by
  rw [file?]
  cases d.readText text with
  | error fault => exact ⟨nofun, nofun⟩
  | ok found => simp [Except.toOption]

theorem file?_eq_some {d : Disk} {text : String} {content : Bytes} :
    d.file? text = some content ↔
      ∃ p j, Path.ofText? text = .ok p ∧ d.find p = .ok j ∧ d.content? j = some content := by
  rw [← readText_eq_ok, readText, bind_eq_ok]
  constructor
  · rintro ⟨p, hp, h⟩
    rw [read, bind_eq_ok] at h
    obtain ⟨j, hj, h⟩ := h
    split at h
    · next found hfound => exact ⟨p, j, hp, hj, hfound.trans (congrArg some (Except.ok.inj h))⟩
    · cases h
  · rintro ⟨p, j, hp, hj, hcontent⟩
    refine ⟨p, hp, bind_eq_ok.2 ⟨j, hj, ?_⟩⟩
    rw [hcontent]
    rfl

theorem find_of_leads {d : Disk} {p : Path} {i : Inode} {name : String} (h : d.Leads p i name) :
    d.find p = d.enter i name := by
  obtain ⟨front, hnames, hslash, -, -, hwalk, -⟩ := h
  rw [walk] at hwalk
  rw [find, walk, hnames, List.foldlM_append, hwalk, hslash]
  change (List.foldlM d.enter i [name] >>= fun i => pure i) = d.enter i name
  rw [bind_pure, List.foldlM_cons]
  exact bind_pure _

theorem enter_of_leads {d : Disk} {p : Path} {i j : Inode} {name : String} (h : d.Leads p i name)
    (hname : checkName name = .ok ()) : d.enter i name = .ok j ↔ d.child? i name = some j := by
  obtain ⟨front, -, -, hdot, hdots, -, hfolder⟩ := h
  obtain ⟨parent, names, hi⟩ := isFolder_iff.1 hfolder
  rw [enter_eq_ok]
  constructor
  · rintro ⟨-, -, -, ⟨rfl, -⟩ | ⟨rfl, -⟩ | ⟨-, -, -, hchild⟩⟩
    · exact absurd rfl hdot
    · exact absurd rfl hdots
    · exact hchild
  · intro hchild
    exact ⟨parent, names, hi, .inr (.inr ⟨hdot, hdots, hname, hchild⟩)⟩

/-- The file at a path is the one under the name that it leads to. -/
theorem file?_of_names {d : Disk} {text : String} {i : Inode} {name : String}
    (h : d.Names text i name) : d.file? text = (d.child? i name).bind d.content? := by
  obtain ⟨p, hp, h, hname⟩ := h
  ext content
  rw [file?_eq_some, Option.bind_eq_some_iff]
  constructor
  · rintro ⟨p', j, hp', hj, hcontent⟩
    obtain rfl := Except.ok.inj (hp.symm.trans hp')
    rw [find_of_leads h, enter_of_leads h hname] at hj
    exact ⟨j, hj, hcontent⟩
  · rintro ⟨j, hj, hcontent⟩
    exact ⟨p, j, hp, (find_of_leads h).trans ((enter_of_leads h hname).2 hj), hcontent⟩

def At (d : Disk) (text : String) (k : Inode) : Prop :=
  ∃ i name, d.Names text i name ∧ d.child? i name = some k

/-- No file is at both of two paths. -/
def Apart (d : Disk) (text text' : String) : Prop := ∀ k, d.At text k → ¬d.At text' k

theorem Names.at_iff {d : Disk} {text : String} {i k : Inode} {name : String}
    (h : d.Names text i name) : d.At text k ↔ d.child? i name = some k := by
  refine ⟨fun ⟨i', name', h', hk⟩ => ?_, fun hk => ⟨i, name, h, hk⟩⟩
  obtain ⟨rfl, rfl⟩ := h.unique h'
  exact hk

theorem At.unique {d : Disk} {text : String} {k k' : Inode} (h : d.At text k) (h' : d.At text k') :
    k = k' := by
  obtain ⟨i, name, hnames, hk⟩ := h
  exact Option.some.inj (hk.symm.trans (hnames.at_iff.1 h'))

theorem At.lt_next {d : Disk} (formed : d.Formed) {text : String} {k : Inode} (h : d.At text k) :
    k < d.next := by
  obtain ⟨i, name, -, hk⟩ := h
  exact formed.named hk

/-- With a slash behind it a path leads to folders only. -/
theorem find_eq_ok {d : Disk} {p : Path} {k : Inode} : d.find p = .ok k ↔
    d.walk p p.names = .ok k ∧ (p.slash = true → d.isFolder k = true) := by
  rw [find, bind_eq_ok]
  constructor
  · rintro ⟨j, hwalk, hj⟩
    cases hfile : p.slash && !d.isFolder j with
    | true =>
      simp only [hfile] at hj
      cases hj
    | false =>
      simp only [hfile] at hj
      obtain rfl := Except.ok.inj hj
      exact ⟨hwalk, by simpa using hfile⟩
  · rintro ⟨hwalk, hfolder⟩
    have hfile : (p.slash && !d.isFolder k) = false := by simpa using hfolder
    refine ⟨k, hwalk, ?_⟩
    simp only [hfile]
    rfl

/-- A path leads to what is no folder by a name. -/
theorem leads_of_find {d : Disk} (formed : d.Formed) {text : String} {p : Path} {j : Inode}
    (hp : Path.ofText? text = .ok p) (hj : d.find p = .ok j) (hfile : d.isFolder j = false) :
    ∃ i name, d.Leads p i name ∧ checkName name = .ok () ∧ d.child? i name = some j := by
  obtain ⟨hwalk, hfolder⟩ := find_eq_ok.1 hj
  have hslash : p.slash = false := by
    by_contra hs
    rw [hfolder (Bool.not_eq_false _ ▸ hs)] at hfile
    cases hfile
  obtain rfl := Path.ofText?_eq_ok hp
  obtain ⟨front, name, hnames⟩ := Path.exists_names_of_slash hslash
  rw [walk, hnames, List.foldlM_append, bind_eq_ok] at hwalk
  obtain ⟨i, hwalk, hj⟩ := hwalk
  rw [List.foldlM_cons, bind_eq_ok] at hj
  obtain ⟨j, henter, hj⟩ := hj
  obtain rfl := Except.ok.inj hj
  obtain ⟨parent, names, hi, hcases⟩ := enter_eq_ok.1 henter
  have hfolder := isFolder_of_node? hi
  rcases hcases with ⟨-, rfl⟩ | ⟨-, rfl⟩ | ⟨hdot, hdots, hname, hchild⟩
  · rw [hfolder] at hfile
    cases hfile
  · rw [formed.around hi] at hfile
    cases hfile
  · exact ⟨i, name, ⟨front, hnames, hslash, hdot, hdots, hwalk, hfolder⟩, hname, hchild⟩

/-- Only a path that leads to a name has a file. -/
theorem names_of_file? {d : Disk} (formed : d.Formed) {text : String} {content : Bytes}
    (h : d.file? text = some content) : ∃ i name, d.Names text i name := by
  obtain ⟨p, j, hp, hj, hcontent⟩ := file?_eq_some.1 h
  obtain ⟨i, name, hleads, hname, -⟩ := leads_of_find formed hp hj (isFolder_of_content? hcontent)
  exact ⟨i, name, p, hp, hleads, hname⟩

theorem file?_congr {d d' : Disk} {text : String} {i : Inode} {name : String}
    (h : d.Names text i name) (keeps : d.Keeps d') (child : d'.child? i name = d.child? i name)
    (content : ∀ j, d.child? i name = some j → d'.content? j = d.content? j) :
    d'.file? text = d.file? text := by
  rw [file?_of_names h, file?_of_names (h.keeps keeps), child]
  cases hj : d.child? i name with
  | none => rfl
  | some j => exact content j hj

theorem exists?_of_names {d : Disk} {text : String} {i : Inode} {name : String}
    (h : d.Names text i name) : d.exists? text = (d.child? i name).isSome := by
  obtain ⟨p, hp, h, hname⟩ := h
  rw [exists?, hp]
  dsimp only
  rw [find_of_leads h]
  cases hj : d.child? i name with
  | some j =>
    rw [(enter_of_leads h hname).2 hj]
    rfl
  | none =>
    cases henter : d.enter i name with
    | error fault => rfl
    | ok j => rw [(enter_of_leads h hname).1 henter] at hj; cases hj

theorem file?_eq_none {d : Disk} (formed : d.Formed) {text : String}
    (h : ∀ i name, ¬d.Names text i name) : d.file? text = none := by
  by_contra hfile
  obtain ⟨content, hfile⟩ := Option.ne_none_iff_exists'.1 hfile
  obtain ⟨i, name, hnames⟩ := names_of_file? formed hfile
  exact h i name hnames

/-- Where there is a path with a suffix, there is the path without it, in the same folder; or else
that leads to a name on no disk. -/
theorem names_beside {d : Disk} {text suffix : String} (hslash : '/' ∉ suffix.toList)
    (hempty : suffix ≠ "") {i : Inode} {name : String} (h : d.Names (text ++ suffix) i name) :
    (∃ last, d.Names text i last ∧ name = last ++ suffix) ∨
      ∀ (d' : Disk) j last, ¬d'.Names text j last := by
  by_cases hever : ∃ (d' : Disk) (j : Inode) (last : String), d'.Names text j last
  · obtain ⟨d', j, last, p, hp, ⟨front, hnames, hs, hdot, hdots, -, -⟩, hlast⟩ := hever
    obtain ⟨q, hq, ⟨front', hnames', -, -, -, hwalk, hfolder⟩, -⟩ := h
    obtain ⟨rooted, before, stem, htext, hmore⟩ := Path.exists_ofText_append text
    obtain rfl := (Path.ofText?_eq_ok hq).trans (hmore suffix hslash hempty)
    obtain rfl := Path.ofText?_eq_ok hp
    rcases htext with htext | htext
    · rw [htext] at hp hnames
      obtain ⟨rfl, hl⟩ := List.append_inj' hnames rfl
      obtain ⟨rfl, hl'⟩ := List.append_inj' hnames' rfl
      obtain rfl := List.singleton_inj.1 hl
      exact .inl ⟨stem, ⟨_, hp, ⟨before, rfl, rfl, hdot, hdots, hwalk, hfolder⟩, hlast⟩,
        (List.singleton_inj.1 hl').symm⟩
    · rw [htext] at hs
      cases hs
  · exact .inr fun d' j last hnames => hever ⟨d', j, last, hnames⟩

theorem Names.ne_beside {d : Disk} {text suffix : String} (hslash : '/' ∉ suffix.toList)
    (hempty : suffix ≠ "") {i i' : Inode} {name name' : String} (h : d.Names text i name)
    (h' : d.Names (text ++ suffix) i' name') : name ≠ name' := by
  rcases names_beside hslash hempty h' with ⟨last, hlast, rfl⟩ | hnever
  · obtain ⟨-, rfl⟩ := h.unique hlast
    intro heq
    exact hempty (String.append_eq_left_iff.1 heq.symm)
  · exact absurd h (hnever d i name)

/-- Paths beside one path with two suffixes lead to two names of one folder. -/
theorem names_beside_ne {d : Disk} {text suffix suffix' : String} (hslash : '/' ∉ suffix.toList)
    (hempty : suffix ≠ "") (hslash' : '/' ∉ suffix'.toList) (hempty' : suffix' ≠ "")
    (hne : suffix ≠ suffix') {i i' : Inode} {name name' : String}
    (h : d.Names (text ++ suffix) i name) (h' : d.Names (text ++ suffix') i' name') :
    i = i' ∧ name ≠ name' := by
  obtain ⟨q, hq, ⟨front, hnames, -, -, -, hwalk, -⟩, -⟩ := h
  obtain ⟨q', hq', ⟨front', hnames', -, -, -, hwalk', -⟩, -⟩ := h'
  obtain ⟨rooted, before, stem, -, hmore⟩ := Path.exists_ofText_append text
  obtain rfl := (Path.ofText?_eq_ok hq).trans (hmore suffix hslash hempty)
  obtain rfl := (Path.ofText?_eq_ok hq').trans (hmore suffix' hslash' hempty')
  obtain ⟨rfl, hl⟩ := List.append_inj' hnames rfl
  obtain ⟨rfl, hl'⟩ := List.append_inj' hnames' rfl
  refine ⟨Except.ok.inj (hwalk.symm.trans hwalk'), fun h => ?_⟩
  rw [← List.singleton_inj.1 hl, ← List.singleton_inj.1 hl', String.append_right_inj] at h
  exact hne h

/-- Where every file has one name, no file is at two paths that lead to two names. -/
theorem Sound.apart {d : Disk} (sound : d.Sound) {text text' : String}
    (hne : ∀ {i i' name name'}, d.Names text i name → d.Names text' i' name' → name ≠ name') :
    d.Apart text text' := by
  rintro k ⟨i, name, hnames, hk⟩ ⟨i', name', hnames', hk'⟩
  exact hne hnames hnames' (sound.single hk hk').2

theorem Sound.apart_beside {d : Disk} (sound : d.Sound) {text suffix : String}
    (hslash : '/' ∉ suffix.toList) (hempty : suffix ≠ "") : d.Apart text (text ++ suffix) :=
  sound.apart fun h h' => h.ne_beside hslash hempty h'

/-- Opening for writing makes a file of no bytes under a free name, or empties the file there. -/
theorem create_cases {d d' : Disk} {p : Path} {j : Inode} (h : d.create p = .ok (j, d')) :
    ∃ i parent names name, d.Leads p i name ∧ checkName name = .ok () ∧
      d.node? i = some (.folder parent names) ∧
      (names[name]? = none ∧ j = d.next ∧ d' = d.link i parent names name (.file []) ∨
        names[name]? = some j ∧ d.isFolder j = false ∧ d' = d.setNode j (.file [])) := by
  rw [create] at h
  obtain ⟨⟨i, parent, names, last⟩, hplace, h⟩ := bind_eq_ok.1 h
  cases last with
  | none => cases h
  | some name =>
    obtain ⟨hi, front, hnames, hdot, hdots, hwalk⟩ := place_eq_ok.1 hplace
    cases hslash : p.slash with
    | true =>
      simp only [hslash, if_true] at h
      cases h
    | false =>
      simp only [hslash] at h
      obtain ⟨u, hname, h⟩ := bind_eq_ok.1 h
      refine ⟨i, parent, names, name,
        ⟨front, hnames, hslash, hdot, hdots, hwalk, isFolder_of_node? hi⟩, hname, hi, ?_⟩
      split at h
      · next hfree =>
        obtain ⟨rfl, rfl⟩ := Prod.mk.inj (Except.ok.inj h)
        exact .inl ⟨hfree, rfl, rfl⟩
      · next j' htaken =>
        cases hfolder : d.isFolder j' with
        | true =>
          simp only [hfolder, if_true] at h
          cases h
        | false =>
          simp only [hfolder] at h
          obtain ⟨rfl, rfl⟩ := Prod.mk.inj (Except.ok.inj h)
          exact .inr ⟨htaken, hfolder, rfl⟩

structure Created (d d' : Disk) (i : Inode) (name : String) (j : Inode) : Prop where
  change : Change d d'
  child : d'.child? i name = some j
  content : d'.content? j = some []
  others : ∀ g m, ¬(g = i ∧ m = name) → d'.child? g m = d.child? g m
  contents : ∀ k, k ≠ j → d'.content? k = d.content? k
  locks : d'.locks = d.locks
  before : d.child? i name = some j ∨ d.child? i name = none ∧ j = d.next
  folders : ∀ k, d'.isFolder k = true → d.isFolder k = true

theorem created_of_create {d d' : Disk} (formed : d.Formed) {text : String} {j : Inode}
    (h : (Path.ofText? text).bind d.create = .ok (j, d')) :
    ∃ i name, d.Names text i name ∧ Created d d' i name j := by
  obtain ⟨p, hp, h⟩ := bind_eq_ok.1 h
  obtain ⟨i, parent, names, name, hleads, hname, hi, hcases⟩ := create_cases h
  refine ⟨i, name, ⟨p, hp, hleads, hname⟩, ?_⟩
  have hchild := child?_of_node? hi name
  rcases hcases with ⟨hfree, rfl, rfl⟩ | ⟨htaken, hfile, rfl⟩
  · have hchildren := child?_link formed hi name (.inl rfl : Node.file [] = .file [] ∨ _)
    refine ⟨.link name _ hi hfree (.inl rfl), ?_, ?_, fun g m hne => ?_,
      fun k hk => content?_link hi name hk, rfl, .inr ⟨hchild.trans hfree, rfl⟩, fun k hk => ?_⟩
    · rw [hchildren, if_pos ⟨rfl, rfl⟩]
    · rw [content?, node?_link, if_pos rfl]
    · rw [hchildren, if_neg hne]
    · rw [isFolder, node?_link] at hk
      split_ifs at hk with hnext hik
      · rw [← hik]
        exact isFolder_of_node? hi
      · exact hk
  · have hthere := hchild.trans htaken
    refine ⟨.fill j [] hfile (formed.named hthere), ?_, ?_, fun g m _ => child?_fill hfile [] g m,
      fun k hk => ?_, rfl, .inl hthere, fun k hk => ?_⟩
    · rw [child?_fill hfile, hthere]
    · simp
    · rw [content?_fill, if_neg hk.symm]
    · rwa [isFolder_fill hfile] at hk

namespace Created

variable {d d' : Disk} {i j : Inode} {name : String} (h : Created d d' i name j)
  (formed : d.Formed)

include h formed

/-- What is at another path that has no file in common with the one opened is another file. -/
theorem ne_of_at {text text' : String} (hnames : d.Names text' i name)
    (apart : d.Apart text text') {k : Inode} (hk : d.At text k) : k ≠ j := by
  rintro rfl
  rcases h.before with hthere | ⟨-, rfl⟩
  · exact apart k hk (hnames.at_iff.2 hthere)
  · exact Nat.lt_irrefl _ (hk.lt_next formed)

/-- Opening a file beside a path leaves the file at the path as it is, if that is another. -/
theorem file?_beside {text suffix : String} (hslash : '/' ∉ suffix.toList) (hempty : suffix ≠ "")
    (apart : d.Apart text (text ++ suffix)) (hnames : d.Names (text ++ suffix) i name) :
    d'.file? text = d.file? text := by
  rcases names_beside hslash hempty hnames with ⟨last, hlast, -⟩ | hnever
  · have hother : ¬(i = i ∧ last = name) :=
      fun heq => hlast.ne_beside hslash hempty hnames heq.2
    exact file?_congr hlast (h.change.keeps formed) (h.others i last hother) fun k hk =>
      h.contents k (h.ne_of_at formed hnames apart (hlast.at_iff.2 hk))
  · rw [file?_eq_none formed (hnever d), file?_eq_none (h.change.formed formed) (hnever d')]

end Created

/-- An open file at a path, and what is in it. -/
def Holds (d : Disk) (text : String) (file : Inode) (content : Bytes) : Prop :=
  ∃ i name, d.Names text i name ∧ d.child? i name = some file ∧ d.content? file = some content

theorem Holds.file?_eq {d : Disk} {text : String} {file : Inode} {content : Bytes}
    (h : d.Holds text file content) : d.file? text = some content := by
  obtain ⟨i, name, hnames, hchild, hcontent⟩ := h
  rw [file?_of_names hnames, hchild]
  exact hcontent

theorem Created.holds {d d' : Disk} (formed : d.Formed) {text : String} {i j : Inode} {name : String}
    (h : Created d d' i name j) (hnames : d.Names text i name) : d'.Holds text j [] :=
  ⟨i, name, hnames.keeps (h.change.keeps formed), h.child, h.content⟩

theorem exists_holds {d : Disk} (formed : d.Formed) {text : String} {content : Bytes}
    (h : d.file? text = some content) : ∃ file, d.Holds text file content := by
  obtain ⟨i, name, hnames⟩ := names_of_file? formed h
  rw [file?_of_names hnames, Option.bind_eq_some_iff] at h
  obtain ⟨file, hchild, hcontent⟩ := h
  exact ⟨file, i, name, hnames, hchild, hcontent⟩

/-- Opening a file at one path leaves an open file at another path as it is, if they are two. -/
theorem Created.holds_of_apart {d d' : Disk} (formed : d.Formed) {i file : Inode} {name : String}
    (h : Created d d' i name file) {text text' : String} (hnames : d.Names text' i name)
    (hne : ∀ g m, d.Names text g m → ¬(g = i ∧ m = name)) (apart : d.Apart text text')
    {file' : Inode} {content : Bytes} (hholds : d.Holds text file' content) :
    d'.Holds text file' content := by
  obtain ⟨g, m, hnames', hchild, hcontent⟩ := hholds
  refine ⟨g, m, hnames'.keeps (h.change.keeps formed),
    (h.others g m (hne g m hnames')).trans hchild, ?_⟩
  rw [h.contents _ (h.ne_of_at formed hnames apart (hnames'.at_iff.2 hchild)), hcontent]

section Write

variable (d : Disk) (file : Inode) (offset : Nat) (bytes : Bytes)

theorem writeAt_eq {old : Bytes} (h : d.content? file = some old) :
    d.writeAt file offset bytes = d.setNode file (.file
      (old.take offset ++ List.replicate (offset - old.length) 0 ++ bytes ++
        old.drop (offset + bytes.length))) := by
  rw [writeAt, h]

/-- Writing is no change, or the change of one content. -/
theorem change_writeAt {d : Disk} (formed : d.Formed) :
    d.writeAt file offset bytes = d ∨ Change d (d.writeAt file offset bytes) := by
  cases h : d.content? file with
  | none => exact .inl (by rw [writeAt, h])
  | some old =>
    rw [writeAt_eq d file offset bytes h]
    exact .inr (.fill file _ (isFolder_of_content? h) (formed.lt_next_of_content? h))

theorem formed_writeAt {d : Disk} (formed : d.Formed) :
    (d.writeAt file offset bytes).Formed := by
  rcases change_writeAt file offset bytes formed with h | h
  · rwa [h]
  · exact h.formed formed

theorem sound_writeAt {d : Disk} (sound : d.Sound) : (d.writeAt file offset bytes).Sound := by
  rcases change_writeAt file offset bytes sound.toFormed with h | h
  · rwa [h]
  · exact h.sound sound

theorem keeps_writeAt {d : Disk} (formed : d.Formed) : d.Keeps (d.writeAt file offset bytes) := by
  rcases change_writeAt file offset bytes formed with h | h
  · rw [h]
    exact .refl d
  · exact h.keeps formed

theorem child?_writeAt (g : Inode) (m : String) :
    (d.writeAt file offset bytes).child? g m = d.child? g m := by
  cases h : d.content? file with
  | none => rw [writeAt, h]
  | some old =>
    rw [writeAt_eq d file offset bytes h]
    exact child?_fill (isFolder_of_content? h) _ g m

theorem content?_writeAt_of_ne {k : Inode} (hk : k ≠ file) :
    (d.writeAt file offset bytes).content? k = d.content? k := by
  cases h : d.content? file with
  | none => rw [writeAt, h]
  | some old => rw [writeAt_eq d file offset bytes h, content?_fill, if_neg hk.symm]

theorem locks_writeAt : (d.writeAt file offset bytes).locks = d.locks := by
  cases h : d.content? file with
  | none => rw [writeAt, h]
  | some old =>
    rw [writeAt_eq d file offset bytes h]
    rfl

end Write

/-- What is appended to an open file stands behind what was in it. -/
theorem Holds.append {d : Disk} (formed : d.Formed) {text : String} {file : Inode} {old : Bytes}
    (h : d.Holds text file old) (bytes : Bytes) :
    (d.writeAt file old.length bytes).Holds text file (old ++ bytes) := by
  obtain ⟨i, name, hnames, hchild, hcontent⟩ := h
  refine ⟨i, name, hnames.keeps (keeps_writeAt file _ bytes formed), ?_, ?_⟩
  · rw [child?_writeAt, hchild]
  · rw [writeAt_eq d file _ bytes hcontent, content?_fill, if_pos rfl]
    simp

/-- Writing to a file beside a path leaves the file at the path as it is, if that is another. -/
theorem Holds.file?_beside {d : Disk} (formed : d.Formed) {text suffix : String}
    (hslash : '/' ∉ suffix.toList) (hempty : suffix ≠ "") (apart : d.Apart text (text ++ suffix))
    {file : Inode} {old : Bytes} (h : d.Holds (text ++ suffix) file old) (offset : Nat)
    (bytes : Bytes) : (d.writeAt file offset bytes).file? text = d.file? text := by
  obtain ⟨i, name, hnames, hchild, hcontent⟩ := h
  rcases names_beside hslash hempty hnames with ⟨last, hlast, -⟩ | hnever
  · refine file?_congr hlast (keeps_writeAt file offset bytes formed)
      (child?_writeAt d file offset bytes i last) fun j hj =>
        content?_writeAt_of_ne d file offset bytes ?_
    rintro rfl
    exact apart j (hlast.at_iff.2 hj) (hnames.at_iff.2 hchild)
  · rw [file?_eq_none formed (hnever d),
      file?_eq_none (formed_writeAt file offset bytes formed) (hnever _)]

theorem need_eq_ok {α : Type} {fault : Fault} {x : Option α} {a : α} :
    need fault x = .ok a ↔ x = some a := by
  cases x with
  | none => exact ⟨nofun, nofun⟩
  | some b => simp [need]

theorem check_eq_ok {fault : Fault} {holds : Bool} {u : Unit} :
    check fault holds = .ok u ↔ holds = true := by
  cases holds <;> simp [check]

theorem move_eq_ok {d d' : Disk} {i parent : Inode} {names : Std.ExtTreeMap String Inode}
    {name : String} {j : Inode} {name' : String} {file : Inode}
    (h : d.move i parent names name j name' file = .ok d') :
    ∃ above targets,
      (d.setNode i (.folder parent (names.erase name))).node? j = some (.folder above targets) ∧
      d' = (d.setNode i (.folder parent (names.erase name))).setNode j
        (.folder above (targets.insert name' file)) := by
  obtain ⟨⟨above, targets⟩, htargets, h⟩ := bind_eq_ok.1 h
  exact ⟨above, targets, names?_eq_ok.1 htargets, (Except.ok.inj h).symm⟩

/-- Renaming takes a file from under its name and puts it under the other, unless it has that name
too. -/
theorem rename_cases {d d' : Disk} {old new : Path} (h : d.rename old new = .ok d') :
    ∃ i parent names name j name' file,
      d.Leads old i name ∧ d.Leads new j name' ∧ checkName name = .ok () ∧
      checkName name' = .ok () ∧ d.node? i = some (.folder parent names) ∧
      names[name]? = some file ∧ d.isFolder file = false ∧
      (d.child? j name' = some file ∧ d' = d ∨
        d.child? j name' ≠ some file ∧ (∀ k, d.child? j name' = some k → d.isFolder k = false) ∧
          d.move i parent names name j name' file = .ok d') := by
  obtain ⟨⟨i, parent, names, last⟩, hplace, h⟩ := bind_eq_ok.1 h
  obtain ⟨⟨j, above, targets, last'⟩, hplace', h⟩ := bind_eq_ok.1 h
  obtain ⟨name, hlast, h⟩ := bind_eq_ok.1 h
  obtain ⟨name', hlast', h⟩ := bind_eq_ok.1 h
  rw [need_eq_ok.1 hlast] at hplace
  rw [need_eq_ok.1 hlast'] at hplace'
  obtain ⟨hi, front, hnames, hdot, hdots, hwalk⟩ := place_eq_ok.1 hplace
  obtain ⟨hj, front', hnames', hdot', hdots', hwalk'⟩ := place_eq_ok.1 hplace'
  obtain ⟨_, hname, h⟩ := bind_eq_ok.1 h
  obtain ⟨file, hfile, h⟩ := bind_eq_ok.1 h
  obtain ⟨_, htargets, h⟩ := bind_eq_ok.1 h
  obtain rfl := Except.ok.inj (htargets.symm.trans (names?_eq_ok.2 hj))
  obtain ⟨_, hname', h⟩ := bind_eq_ok.1 h
  obtain ⟨_, hfolder, h⟩ := bind_eq_ok.1 h
  obtain ⟨_, hslash, h⟩ := bind_eq_ok.1 h
  have hslash := check_eq_ok.1 hslash
  rw [Bool.not_eq_true', Bool.or_eq_false_iff] at hslash
  refine ⟨i, parent, names, name, j, name', file,
    ⟨front, hnames, hslash.1, hdot, hdots, hwalk, isFolder_of_node? hi⟩,
    ⟨front', hnames', hslash.2, hdot', hdots', hwalk', isFolder_of_node? hj⟩,
    hname, hname', hi, need_eq_ok.1 hfile, by simpa using check_eq_ok.1 hfolder, ?_⟩
  rw [child?_of_node? hj]
  split_ifs at h with hsame
  · exact .inl ⟨hsame, (Except.ok.inj h).symm⟩
  · obtain ⟨_, hfree, h⟩ := bind_eq_ok.1 h
    refine .inr ⟨hsame, fun k hk => ?_, h⟩
    simpa [hk] using check_eq_ok.1 hfree

structure Renamed (d d' : Disk) (i : Inode) (name : String) (j : Inode) (name' : String)
    (file : Inode) : Prop where
  change : Change d d'
  child : d'.child? j name' = some file
  gone : d'.child? i name = none
  others : ∀ g m, ¬(g = i ∧ m = name) → ¬(g = j ∧ m = name') → d'.child? g m = d.child? g m
  contents : ∀ k, d'.content? k = d.content? k
  locks : d'.locks = d.locks
  folders : ∀ k, d'.isFolder k = d.isFolder k
  file : d.isFolder file = false

/-- Where the two names are not of one file already, the file is moved. -/
theorem renamed_of_rename {d d' : Disk} {old new : String}
    (h : (do d.rename (← Path.ofText? old) (← Path.ofText? new)) = .ok d') :
    ∃ i name j name' file, d.Names old i name ∧ d.Names new j name' ∧
      d.child? i name = some file ∧
      (d.child? j name' = some file ∧ d' = d ∨ Renamed d d' i name j name' file) := by
  obtain ⟨p, hp, h⟩ := bind_eq_ok.1 h
  obtain ⟨q, hq, h⟩ := bind_eq_ok.1 h
  obtain ⟨i, parent, names, name, j, name', file, hold, hnew, hname, hname', hi, hfile, hnofolder,
    h⟩ := rename_cases h
  have hchild := (child?_of_node? hi name).trans hfile
  refine ⟨i, name, j, name', file, ⟨p, hp, hold, hname⟩, ⟨q, hq, hnew, hname'⟩, hchild, ?_⟩
  refine h.imp_right fun ⟨hother, hfree, hmove⟩ => ?_
  obtain ⟨above, targets, hj, rfl⟩ := move_eq_ok hmove
  have hchildren := child?_move hi hj name' file
  have hne : ¬(i = j ∧ name = name') := by
    rintro ⟨rfl, rfl⟩
    exact hother hchild
  refine ⟨.move name' hi hfile hnofolder hj hfree, ?_, ?_, fun g m hold hnew => ?_,
    content?_move hi hj name' file, rfl, isFolder_move hi hj name' file, hnofolder⟩
  · rw [hchildren, if_pos ⟨rfl, rfl⟩]
  · rw [hchildren, if_neg hne, if_pos ⟨rfl, rfl⟩]
  · rw [hchildren, if_neg hnew, if_neg hold]

end AlertSilences.Disk
