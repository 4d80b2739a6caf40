import AlertSilences.Proofs.Disk.Folders

/-! Making the folders on the way to a path makes nothing else: to each new folder the path leads up
to one of its slashes. -/

namespace AlertSilences.Disk

namespace Path

/-- A text up to one of the slashes of a path. -/
def OnTheWay (text path : String) : Prop :=
  ∃ more, text.toList ++ '/' :: more = path.toList

theorem OnTheWay.trans {text outer path : String} (h : OnTheWay text outer)
    (h' : OnTheWay outer path) : OnTheWay text path := by
  obtain ⟨more, hmore⟩ := h
  obtain ⟨rest, hrest⟩ := h'
  refine ⟨more ++ '/' :: rest, ?_⟩
  rw [← hrest, ← hmore]
  simp

/-- All but the longest text found end before a slash, since behind the end of a name comes a slash
or nothing. -/
theorem exists_slash_of_mem_stages {found : List (List Char)} {before rest : List Char}
    (h : ∀ s ∈ found, ∃ more, s.reverse ++ '/' :: more = before.reverse ++ rest) :
    ∀ s ∈ (stages found before rest).tail,
      ∃ more, s.reverse ++ '/' :: more = before.reverse ++ rest := by
  induction rest generalizing found before with
  | nil => exact fun s hs => h s (List.mem_of_mem_tail hs)
  | cons c rest ih =>
    rw [stages]
    cases rest with
    | nil =>
      -- the text that ends here is the longest
      intro s hs
      rw [stages] at hs
      split_ifs at hs
      · exact h s hs
      · exact h s (List.mem_of_mem_tail hs)
    | cons c' rest =>
      have hgrown : (c :: before).reverse ++ c' :: rest = before.reverse ++ c :: c' :: rest := by
        simp
      rw [← hgrown] at h ⊢
      refine ih fun s hs => ?_
      split_ifs at hs with hends
      · rcases List.mem_cons.1 hs with rfl | hs
        · obtain rfl : c' = '/' := by
            simp only [Bool.and_eq_true, List.head?_cons, Option.all_some, decide_eq_true_eq]
              at hends
            exact hends.1.2
          exact ⟨rest, rfl⟩
        · exact h s hs
      · exact h s hs

theorem onTheWay_of_mem_tail {path : String} {s : List Char}
    (h : s ∈ (stages [] [] path.toList).tail) : OnTheWay (String.ofList s.reverse) path := by
  obtain ⟨more, hmore⟩ := exists_slash_of_mem_stages (fun _ hs => absurd hs List.not_mem_nil) s h
  exact ⟨more, by rw [String.toList_ofList, hmore]; rfl⟩

theorem onTheWay_of_mem_ancestors {text path : String} (h : text ∈ (ancestors path).drop 1) :
    OnTheWay text path := by
  rw [ancestors, ← List.map_drop, List.drop_one] at h
  obtain ⟨s, hs, rfl⟩ := List.mem_map.1 h
  exact onTheWay_of_mem_tail hs

/-- Around a path is a folder on the way to it, unless it is the root or the working folder. -/
theorem outer?_cases {path outer : String} (h : outer? path = some outer) :
    outer = "" ∨ outer = "/" ∨ OnTheWay outer path := by
  rw [outer?] at h
  split at h
  · cases h
  · split_ifs at h
    · exact .inr (.inl (Option.some.inj h).symm)
    · exact .inl (Option.some.inj h).symm
  · next last s more hstages =>
    obtain rfl := Option.some.inj h
    refine .inr (.inr (onTheWay_of_mem_tail ?_))
    rw [hstages]
    exact List.mem_cons_self

end Path

def FolderAt (d : Disk) (text : String) (k : Inode) : Prop :=
  (Path.ofText? text).bind d.find = .ok k ∧ d.isFolder k = true

theorem FolderAt.keeps {d d' : Disk} {text : String} {k : Inode} (h : d.FolderAt text k)
    (keeps : d.Keeps d') : d'.FolderAt text k := by
  obtain ⟨hfind, hfolder⟩ := h
  obtain ⟨p, hp, hfind⟩ := bind_eq_ok.1 hfind
  have hfolder' := keeps.isFolder hfolder
  exact ⟨bind_eq_ok.2 ⟨p, hp, find_eq_ok.2
    ⟨keeps.walk (find_eq_ok.1 hfind).1 hfolder, fun _ => hfolder'⟩⟩, hfolder'⟩

theorem FolderAt.unique {d : Disk} {text : String} {k k' : Inode} (h : d.FolderAt text k)
    (h' : d.FolderAt text k') : k = k' := Except.ok.inj (h.1.symm.trans h'.1)

theorem isFolderAt_eq_true {d : Disk} {text : String} :
    d.isFolderAt text = true ↔ ∃ k, d.FolderAt text k := by
  rw [isFolderAt]
  constructor
  · intro h
    split at h
    · cases h
    · next k hk => exact ⟨k, hk, h⟩
  · rintro ⟨k, hk, hfolder⟩
    rw [hk]
    exact hfolder

/-- Every new name is that of a new folder, to which one of the texts leads. -/
def Paves (texts : String → Prop) (d d' : Disk) : Prop :=
  ∀ g m k, d'.child? g m = some k →
    d.child? g m = some k ∨ d.isFolder k = false ∧ ∃ text, texts text ∧ d'.FolderAt text k

namespace Paves

variable {texts : String → Prop} {d d' d'' : Disk}

theorem refl (texts : String → Prop) (d : Disk) : Paves texts d d := fun _ _ _ => .inl

theorem trans (h : Paves texts d d') (h' : Paves texts d' d'') (keeps : d.Keeps d')
    (keeps' : d'.Keeps d'') : Paves texts d d'' := by
  intro g m k hk
  rcases h' g m k hk with hk | ⟨hnew, hmade⟩
  · exact (h g m k hk).imp_right fun ⟨hnew, text, htext, hfolder⟩ =>
      ⟨hnew, text, htext, hfolder.keeps keeps'⟩
  · refine .inr ⟨?_, hmade⟩
    by_contra hold
    rw [keeps.isFolder (Bool.not_eq_false _ ▸ hold)] at hnew
    cases hnew

theorem mono {texts' : String → Prop} (h : Paves texts d d')
    (more : ∀ text, texts text → texts' text) : Paves texts' d d' :=
  fun g m k hk => (h g m k hk).imp_right fun ⟨hnew, text, htext, hfolder⟩ =>
    ⟨hnew, text, more text htext, hfolder⟩

end Paves

/-- The root is there. -/
theorem makeFolder_root (d d' : Disk) : d.makeFolder "/" ≠ .ok d' := by
  intro h
  obtain ⟨p, i, parent, names, front, name, hp, -, hnames, -⟩ := makeFolder_eq_ok h
  obtain rfl := Path.ofText?_eq_ok hp
  have hroot : (Path.ofText "/").names = [] := by decide
  rw [hroot] at hnames
  exact absurd hnames.symm (List.append_ne_nil_of_right_ne_nil front (List.cons_ne_nil name []))

theorem paves_makeFolder {d d' : Disk} (formed : d.Formed) {text : String}
    (h : d.makeFolder text = .ok d') : Paves (· = text) d d' := by
  have keeps := (widens_makeFolder formed h).keeps
  obtain ⟨p, i, parent, names, front, name, hp, hi, hnames, hdot, hdots, hwalk, hname, -, rfl⟩ :=
    makeFolder_eq_ok h
  have hchildren := child?_link formed hi name (.inr rfl : Node.folder i ∅ = .file [] ∨ _)
  intro g m k hk
  rw [hchildren] at hk
  split_ifs at hk with hgm
  · obtain rfl := Option.some.inj hk
    have hfolder : (d.link i parent names name (.folder i ∅)).isFolder d.next = true := by
      rw [isFolder, node?_link, if_pos rfl]
    obtain ⟨names', hi'⟩ := keeps.parent hi
    have henter : (d.link i parent names name (.folder i ∅)).enter i name = .ok d.next :=
      enter_eq_ok.2 ⟨parent, names', hi', .inr (.inr ⟨hdot, hdots, hname, by
        rw [hchildren, if_pos ⟨rfl, rfl⟩]⟩)⟩
    have hnew : d.isFolder d.next = false := by rw [isFolder, formed.fresh (Nat.le_refl _)]
    refine .inr ⟨hnew, text, rfl, bind_eq_ok.2 ⟨p, hp, find_eq_ok.2 ⟨?_, fun _ => hfolder⟩⟩,
      hfolder⟩
    have hwalk' := keeps.walk hwalk (isFolder_of_node? hi)
    rw [walk] at hwalk' ⊢
    rw [hnames, List.foldlM_append]
    exact bind_eq_ok.2 ⟨i, hwalk', bind_eq_ok.2 ⟨d.next, henter, rfl⟩⟩
  · exact .inl hk

theorem paves_ensureFolder {d : Disk} (formed : d.Formed) (text : String) :
    Paves (· = text) d (d.ensureFolder text).1 := by
  rw [ensureFolder]
  split
  · next d' h => exact paves_makeFolder formed h
  · exact .refl _ d

theorem paves_makeWithin {d : Disk} (formed : d.Formed) (text : String) (around : List String) :
    Paves (· ∈ text :: around) d (d.makeWithin text around).1 := by
  have hensure {d : Disk} (formed : d.Formed) (text : String) (around : List String) :
      Paves (· ∈ text :: around) d (d.ensureFolder text).1 :=
    (paves_ensureFolder formed text).mono fun _ h => h ▸ List.mem_cons_self
  induction around generalizing text with
  | nil => exact hensure formed text []
  | cons outer more ih =>
    rw [makeWithin]
    split
    · have houter := (ih outer).mono fun _ h => List.mem_cons_of_mem text h
      have widens := widens_makeWithin formed outer more
      split
      · next d' fault h => rwa [h] at houter
      · next d' h =>
        rw [h] at houter widens
        exact houter.trans (hensure widens.formed text _) widens.keeps
          (widens_ensureFolder widens.formed text).keeps
    · exact hensure formed text _

/-- The folders made for a path are on the way to it. -/
theorem paves_makeParents {d : Disk} (formed : d.Formed) (path : String) :
    Paves (Path.OnTheWay · path) d (d.makeParents path).1 := by
  rw [makeParents]
  split
  · exact .refl _ d
  · next outer houter =>
    rw [makeFolders]
    split_ifs with hempty
    · exact .refl _ d
    · split
      · exact .refl _ d
      · rcases Path.outer?_cases houter with rfl | rfl | hway
        · exact absurd rfl hempty
        · have hancestors : (Path.ancestors "/").drop 1 = [] := by decide
          rw [hancestors, makeWithin, ensureFolder]
          split
          · next d' h => exact absurd h (makeFolder_root d d')
          · exact .refl _ d
        · refine (paves_makeWithin formed outer _).mono fun text htext => ?_
          rcases List.mem_cons.1 htext with rfl | htext
          · exact hway
          · exact (Path.onTheWay_of_mem_ancestors htext).trans hway

end AlertSilences.Disk
