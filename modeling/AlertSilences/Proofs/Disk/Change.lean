import AlertSilences.Disk
import AlertSilences.Proofs.OrderedMap

/-! The changes that a disk can undergo, one after the other: a file gets other content, a file's
name goes or is given, a new node gets a name, locks are taken or given back. Every operation is
made of these. Folders stay where they are, and a disk in order stays in order. -/

namespace AlertSilences.Disk

/-- The node that a name stands for in a folder. -/
def child? (d : Disk) (i : Inode) (name : String) : Option Inode :=
  match d.node? i with
  | some (.folder _ names) => names[name]?
  | _ => none

theorem isFolder_iff {d : Disk} {i : Inode} :
    d.isFolder i = true ↔ ∃ parent names, d.node? i = some (.folder parent names) := by
  rw [isFolder]
  split
  · next parent names h => exact ⟨fun _ => ⟨parent, names, h⟩, fun _ => rfl⟩
  · next h => exact ⟨nofun, fun ⟨parent, names, hi⟩ => absurd hi (h parent names)⟩

theorem isFolder_of_node? {d : Disk} {i parent : Inode} {names : Std.ExtTreeMap String Inode}
    (h : d.node? i = some (.folder parent names)) : d.isFolder i = true :=
  isFolder_iff.2 ⟨parent, names, h⟩

theorem child?_of_node? {d : Disk} {i parent : Inode} {names : Std.ExtTreeMap String Inode}
    (h : d.node? i = some (.folder parent names)) (name : String) :
    d.child? i name = names[name]? := by
  rw [child?, h]

theorem child?_eq_none {d : Disk} {i : Inode} (h : d.isFolder i = false) (name : String) :
    d.child? i name = none := by
  rw [child?]
  split
  · next hi => rw [isFolder_of_node? hi] at h; exact absurd h nofun
  · rfl

theorem isFolder_of_child? {d : Disk} {i j : Inode} {name : String}
    (h : d.child? i name = some j) : d.isFolder i = true := by
  by_contra hi
  rw [child?_eq_none (Bool.eq_false_iff.2 hi)] at h
  cases h

theorem content?_of_isFolder {d : Disk} {i : Inode} (h : d.isFolder i = true) :
    d.content? i = none := by
  obtain ⟨parent, names, hi⟩ := isFolder_iff.1 h
  rw [content?, hi]

theorem isFolder_of_content? {d : Disk} {i : Inode} {content : Bytes}
    (h : d.content? i = some content) : d.isFolder i = false := by
  by_contra hfolder
  rw [content?_of_isFolder (Bool.not_eq_false _ ▸ hfolder)] at h
  cases h

@[simp] theorem node?_setNode (d : Disk) (i : Inode) (node : Node) (k : Inode) :
    (d.setNode i node).node? k = if i = k then some node else d.node? k :=
  OrderedMap.getElem?_insert _ _ _ _

@[simp] theorem node?_link (d : Disk) (i parent : Inode) (names : Std.ExtTreeMap String Inode)
    (name : String) (node : Node) (k : Inode) :
    (d.link i parent names name node).node? k =
      if d.next = k then some node
      else if i = k then some (.folder parent (names.insert name d.next)) else d.node? k := by
  rw [link]
  change ((d.setNode i _).setNode d.next node).node? k = _
  rw [node?_setNode, node?_setNode]

section Fill

variable {d : Disk} {i : Inode} (file : d.isFolder i = false) (content : Bytes)

include file

@[simp] theorem isFolder_fill (k : Inode) :
    (d.setNode i (.file content)).isFolder k = d.isFolder k := by
  rw [isFolder, node?_setNode]
  split_ifs with hk
  · subst hk
    exact file.symm
  · rfl

@[simp] theorem child?_fill (k : Inode) (name : String) :
    (d.setNode i (.file content)).child? k name = d.child? k name := by
  rcases eq_or_ne i k with rfl | hk
  · rw [child?_eq_none file, child?_eq_none (by rw [isFolder_fill file, file])]
  · rw [child?, node?_setNode, if_neg hk, child?]

omit file in
@[simp] theorem content?_fill (k : Inode) :
    (d.setNode i (.file content)).content? k = if i = k then some content else d.content? k := by
  rw [content?, node?_setNode]
  split_ifs <;> rfl

end Fill

section Relist

variable {d : Disk} {i parent : Inode} {names : Std.ExtTreeMap String Inode}
  (folder : d.node? i = some (.folder parent names)) (names' : Std.ExtTreeMap String Inode)

omit folder in
@[simp] theorem child?_relist (k : Inode) (name : String) :
    (d.setNode i (.folder parent names')).child? k name =
      if i = k then names'[name]? else d.child? k name := by
  rw [child?, node?_setNode]
  split_ifs <;> rfl

include folder

theorem node?_relist {k above : Inode} {inside : Std.ExtTreeMap String Inode}
    (hk : d.node? k = some (.folder above inside)) :
    ∃ inside', (d.setNode i (.folder parent names')).node? k = some (.folder above inside') := by
  rw [node?_setNode]
  split_ifs with hik
  · subst hik
    obtain ⟨rfl, -⟩ := Node.folder.inj (Option.some.inj (folder.symm.trans hk))
    exact ⟨names', rfl⟩
  · exact ⟨inside, hk⟩

theorem isFolder_relist (k : Inode) :
    (d.setNode i (.folder parent names')).isFolder k = d.isFolder k := by
  rw [isFolder, node?_setNode]
  split_ifs with hk
  · subst hk
    exact (isFolder_of_node? folder).symm
  · rfl

theorem child?_erase (name : String) (g : Inode) (m : String) :
    (d.setNode i (.folder parent (names.erase name))).child? g m =
      if g = i ∧ m = name then none else d.child? g m := by
  rw [child?_relist]
  by_cases hg : i = g
  · subst hg
    rw [if_pos rfl, OrderedMap.getElem?_erase, child?_of_node? folder]
    simp [eq_comm]
  · rw [if_neg hg, if_neg fun h => hg h.1.symm]

@[simp] theorem child?_insert (name : String) (j g : Inode) (m : String) :
    (d.setNode i (.folder parent (names.insert name j))).child? g m =
      if g = i ∧ m = name then some j else d.child? g m := by
  rw [child?_relist]
  by_cases hg : i = g
  · subst hg
    rw [if_pos rfl, OrderedMap.getElem?_insert, child?_of_node? folder]
    simp [eq_comm]
  · rw [if_neg hg, if_neg fun h => hg h.1.symm]

theorem content?_relist (k : Inode) :
    (d.setNode i (.folder parent names')).content? k = d.content? k := by
  rw [content?, node?_setNode]
  split_ifs with hk
  · subst hk
    exact (content?_of_isFolder (isFolder_of_node? folder)).symm
  · rfl

end Relist

/-- A disk as it is built: no node is used before it is made, and around every folder there is a
folder. A file may have many names. -/
structure Formed (d : Disk) : Prop where
  fresh : ∀ {i}, d.next ≤ i → d.node? i = none
  named : ∀ {i name j}, d.child? i name = some j → j < d.next
  around : ∀ {i parent names}, d.node? i = some (.folder parent names) → d.isFolder parent = true

/-- A disk in order, on which moreover no node has two names. -/
structure Sound (d : Disk) : Prop extends d.Formed where
  single : ∀ {i name i' name' j}, d.child? i name = some j → d.child? i' name' = some j →
    i = i' ∧ name = name'

instance (d : Disk) : Coe d.Sound d.Formed := ⟨Sound.toFormed⟩

section Link

variable {d : Disk} {i parent : Inode} {names : Std.ExtTreeMap String Inode} (formed : d.Formed)
  (folder : d.node? i = some (.folder parent names)) (name : String) {node : Node}
  (new : node = .file [] ∨ node = .folder i ∅)

include formed in
theorem Formed.lt_next {i : Inode} {node : Node} (h : d.node? i = some node) : i < d.next := by
  by_contra hi
  rw [formed.fresh (Nat.le_of_not_lt hi)] at h
  cases h

include formed in
theorem Formed.lt_next_of_content? {i : Inode} {content : Bytes} (h : d.content? i = some content) :
    i < d.next := by
  by_contra hi
  rw [content?, formed.fresh (Nat.le_of_not_lt hi)] at h
  cases h

include formed in
theorem Formed.ne_next {g j : Inode} {m : String} (h : d.child? g m = some j) : j ≠ d.next :=
  Nat.ne_of_lt (formed.named h)

theorem node?_link_of_ne {k : Inode} (hk : k ≠ d.next) :
    (d.link i parent names name node).node? k =
      (d.setNode i (.folder parent (names.insert name d.next))).node? k := by
  rw [node?_link, if_neg hk.symm, node?_setNode]

include folder

theorem content?_link {k : Inode} (hk : k ≠ d.next) :
    (d.link i parent names name node).content? k = d.content? k := by
  rw [content?, node?_link_of_ne name hk]
  exact content?_relist folder _ k

include formed new

theorem child?_link (k : Inode) (m : String) :
    (d.link i parent names name node).child? k m =
      if k = i ∧ m = name then some d.next else d.child? k m := by
  rcases eq_or_ne k d.next with rfl | hk
  · have hne : d.next ≠ i := Nat.ne_of_gt (formed.lt_next folder)
    rw [if_neg fun h => hne h.1, child?, child?, node?_link, if_pos rfl,
      formed.fresh (Nat.le_refl _)]
    rcases new with rfl | rfl
    · rfl
    · exact Std.ExtTreeMap.getElem?_empty
  · rw [child?, node?_link_of_ne name hk]
    exact child?_insert folder name d.next k m

end Link

section Move

variable {d : Disk} {i parent : Inode} {names : Std.ExtTreeMap String Inode} {name : String}
  {j above : Inode} {targets : Std.ExtTreeMap String Inode}
  (folder : d.node? i = some (.folder parent names))
  (target : (d.setNode i (.folder parent (names.erase name))).node? j =
    some (.folder above targets)) (name' : String) (file : Inode)

include folder target

theorem child?_move (g : Inode) (m : String) :
    ((d.setNode i (.folder parent (names.erase name))).setNode j
        (.folder above (targets.insert name' file))).child? g m =
      if g = j ∧ m = name' then some file
      else if g = i ∧ m = name then none else d.child? g m := by
  rw [child?_insert target, child?_erase folder]

theorem content?_move (k : Inode) :
    ((d.setNode i (.folder parent (names.erase name))).setNode j
        (.folder above (targets.insert name' file))).content? k = d.content? k := by
  rw [content?_relist target, content?_relist folder]

theorem isFolder_move (k : Inode) :
    ((d.setNode i (.folder parent (names.erase name))).setNode j
        (.folder above (targets.insert name' file))).isFolder k = d.isFolder k := by
  rw [isFolder_relist target, isFolder_relist folder]

end Move

inductive Change (d : Disk) : Disk → Prop
  | fill (i : Inode) (content : Bytes) (file : d.isFolder i = false) (made : i < d.next) :
      Change d (d.setNode i (.file content))
  | move {i parent names name file j above targets} (name' : String)
      (folder : d.node? i = some (.folder parent names)) (there : names[name]? = some file)
      (nofolder : d.isFolder file = false)
      (target : (d.setNode i (.folder parent (names.erase name))).node? j =
        some (.folder above targets))
      (free : ∀ k, d.child? j name' = some k → d.isFolder k = false) :
      Change d ((d.setNode i (.folder parent (names.erase name))).setNode j
        (.folder above (targets.insert name' file)))
  | link {i parent names} (name : String) (node : Node)
      (folder : d.node? i = some (.folder parent names)) (free : names[name]? = none)
      (new : node = .file [] ∨ node = .folder i ∅) :
      Change d (d.link i parent names name node)
  | locks (held : Std.ExtTreeMap Inode Owner) : Change d { d with locks := held }

theorem Change.next_le {d d' : Disk} (h : Change d d') : d.next ≤ d'.next := by
  cases h with
  | link _ _ _ _ _ => exact Nat.le_succ _
  | _ => exact Nat.le_refl _

/-- Folders stay folders, around and inside each other. -/
structure Keeps (d d' : Disk) : Prop where
  home : d'.home = d.home
  parent : ∀ {i parent names}, d.node? i = some (.folder parent names) →
    ∃ names', d'.node? i = some (.folder parent names')
  inside : ∀ {i name j}, d.child? i name = some j → d.isFolder j = true →
    d'.child? i name = some j

namespace Keeps

theorem refl (d : Disk) : d.Keeps d := ⟨rfl, fun h => ⟨_, h⟩, fun h _ => h⟩

theorem isFolder {d d' : Disk} (h : d.Keeps d') {i : Inode} (hi : d.isFolder i = true) :
    d'.isFolder i = true := by
  obtain ⟨parent, names, hi⟩ := isFolder_iff.1 hi
  obtain ⟨names', hi'⟩ := h.parent hi
  exact isFolder_of_node? hi'

theorem trans {d d' d'' : Disk} (h : d.Keeps d') (h' : d'.Keeps d'') : d.Keeps d'' := by
  refine ⟨h'.home.trans h.home, fun hi => ?_, fun hj hfolder => ?_⟩
  · obtain ⟨names', hi'⟩ := h.parent hi
    exact h'.parent hi'
  · exact h'.inside (h.inside hj hfolder) (h.isFolder hfolder)

end Keeps

/-- Names of folders stay if only other names change. -/
theorem keeps_relist {d : Disk} {i parent : Inode} {names names' : Std.ExtTreeMap String Inode}
    (folder : d.node? i = some (.folder parent names))
    (h : ∀ (m : String) (k : Inode), names[m]? = some k → d.isFolder k = true →
      names'[m]? = some k) :
    d.Keeps (d.setNode i (.folder parent names')) := by
  refine ⟨rfl, node?_relist folder names', fun {g m k} hk hfolder => ?_⟩
  rw [child?_relist]
  split_ifs with hg
  · subst hg
    rw [child?_of_node? folder] at hk
    exact h m k hk hfolder
  · exact hk

theorem ne_of_isFolder {d : Disk} {names : Std.ExtTreeMap String Inode} {name : String}
    (file : ∀ k, names[name]? = some k → d.isFolder k = false) {m : String} {k : Inode}
    (hk : names[m]? = some k) (hfolder : d.isFolder k = true) : name ≠ m := by
  rintro rfl
  rw [file k hk] at hfolder
  cases hfolder

/-- A change keeps the folders. -/
theorem Change.keeps {d d' : Disk} (formed : d.Formed) (h : Change d d') : d.Keeps d' := by
  cases h with
  | fill i content file made =>
    refine ⟨rfl, fun {k parent names} hk => ⟨names, ?_⟩, fun hk _ => ?_⟩
    · rw [node?_setNode, if_neg, hk]
      rintro rfl
      rw [isFolder_of_node? hk] at file
      cases file
    · rw [child?_fill file, hk]
  | @move i parent names name file j above targets name' folder there nofolder target free =>
    have hdrop : d.Keeps (d.setNode i (.folder parent (names.erase name))) := by
      refine keeps_relist folder fun m k hk hfolder => ?_
      have hm : name ≠ m := ne_of_isFolder (by simpa [there] using nofolder) hk hfolder
      rw [OrderedMap.getElem?_erase, if_neg hm, hk]
    refine hdrop.trans (keeps_relist target fun m k hk hfolder => ?_)
    have hm : name' ≠ m := by
      rintro rfl
      rw [← child?_of_node? target, child?_erase folder] at hk
      split_ifs at hk
      rw [isFolder_relist folder, free k hk] at hfolder
      cases hfolder
    rw [OrderedMap.getElem?_insert, if_neg hm, hk]
  | @link i parent names name node folder free new =>
    have hkeeps : d.Keeps (d.setNode i (.folder parent (names.insert name d.next))) := by
      refine keeps_relist folder fun m k hk hfolder => ?_
      rw [OrderedMap.getElem?_insert, if_neg (ne_of_isFolder (by simp [free]) hk hfolder), hk]
    refine ⟨rfl, fun hk => ?_, fun hk hfolder => ?_⟩
    · rw [node?_link_of_ne name (Nat.ne_of_lt (formed.lt_next hk))]
      exact hkeeps.parent hk
    · have hmore := hkeeps.inside hk hfolder
      rw [child?_insert folder] at hmore
      rw [child?_link formed folder name new, hmore]
  | locks held => exact ⟨rfl, fun hk => ⟨_, hk⟩, fun hk _ => hk⟩

/-- A folder that lists no node which is not made yet leaves a disk well formed. -/
theorem Formed.relist {d : Disk} (formed : d.Formed) {i parent : Inode}
    {names names' : Std.ExtTreeMap String Inode} (folder : d.node? i = some (.folder parent names))
    (entries : ∀ (m : String) (k : Inode), names'[m]? = some k → k < d.next) :
    (d.setNode i (.folder parent names')).Formed := by
  refine ⟨fun {k} hk => ?_, fun {g m k} hk => ?_, fun {k above inside} hk => ?_⟩
  · have hne : i ≠ k := Nat.ne_of_lt (Nat.lt_of_lt_of_le (formed.lt_next folder) hk)
    rw [node?_setNode, if_neg hne, formed.fresh hk]
  · rw [child?_relist] at hk
    split_ifs at hk with hi
    · exact entries m k hk
    · exact formed.named hk
  · rw [isFolder_relist folder]
    rw [node?_setNode] at hk
    split_ifs at hk with hi
    · obtain ⟨rfl, -⟩ := Node.folder.inj (Option.some.inj hk)
      exact formed.around folder
    · exact formed.around hk

theorem Formed.erase {d : Disk} (formed : d.Formed) {i parent : Inode}
    {names : Std.ExtTreeMap String Inode} (folder : d.node? i = some (.folder parent names))
    (name : String) : (d.setNode i (.folder parent (names.erase name))).Formed := by
  refine formed.relist folder fun m k hk => ?_
  rw [OrderedMap.getElem?_erase] at hk
  split_ifs at hk
  rw [← child?_of_node? folder] at hk
  exact formed.named hk

theorem Formed.insert {d : Disk} (formed : d.Formed) {i parent : Inode}
    {names : Std.ExtTreeMap String Inode} (folder : d.node? i = some (.folder parent names))
    (name : String) {j : Inode} (made : j < d.next) :
    (d.setNode i (.folder parent (names.insert name j))).Formed := by
  refine formed.relist folder fun m k hk => ?_
  rw [OrderedMap.getElem?_insert] at hk
  split_ifs at hk
  · exact Option.some.inj hk ▸ made
  · rw [← child?_of_node? folder] at hk
    exact formed.named hk

/-- A well formed disk is so after a change. -/
theorem Change.formed {d d' : Disk} (formed : d.Formed) (h : Change d d') : d'.Formed := by
  have hkeeps := h.keeps formed
  cases h with
  | fill i content file made =>
    refine ⟨fun {k} hk => ?_, fun hk => ?_, fun {k above inside} hk => ?_⟩
    · rw [node?_setNode, if_neg (Nat.ne_of_lt (Nat.lt_of_lt_of_le made hk)), formed.fresh hk]
    · rw [child?_fill file] at hk
      exact formed.named hk
    · rw [node?_setNode] at hk
      split_ifs at hk
      · cases hk
      · exact hkeeps.isFolder (formed.around hk)
  | @move i parent names name file j above targets name' folder there nofolder target free =>
    exact (formed.erase folder name).insert target name'
      (formed.named ((child?_of_node? folder name).trans there))
  | @link i parent names name node folder free new =>
    refine ⟨fun {k} hk => ?_, fun {g m k} hk => ?_, fun {k above inside} hk => ?_⟩
    · have hk : d.next < k := hk
      rw [node?_link, if_neg (Nat.ne_of_lt hk),
        if_neg (Nat.ne_of_lt (Nat.lt_trans (formed.lt_next folder) hk)),
        formed.fresh (Nat.le_of_lt hk)]
    · rw [child?_link formed folder name new] at hk
      split_ifs at hk
      · exact Option.some.inj hk ▸ Nat.lt_succ_self _
      · exact Nat.lt_succ_of_lt (formed.named hk)
    · refine hkeeps.isFolder ?_
      rw [node?_link] at hk
      split_ifs at hk
      · rcases new with rfl | rfl <;> cases hk
        exact isFolder_of_node? folder
      · obtain ⟨rfl, -⟩ := Node.folder.inj (Option.some.inj hk)
        exact formed.around folder
      · exact formed.around hk
  | locks held => exact ⟨formed.fresh, formed.named, formed.around⟩

/-- Order is kept where at most one name is new, and no other name has its node. -/
theorem Sound.of_entries {d d' : Disk} (sound : d.Sound) (formed : d'.Formed) (i : Inode)
    (name : String) (j : Inode)
    (entries : ∀ {g m k}, d'.child? g m = some k →
      g = i ∧ m = name ∧ k = j ∨ d.child? g m = some k ∧ k ≠ j) : d'.Sound := by
  refine ⟨formed, fun hk hk' => ?_⟩
  rcases entries hk with ⟨rfl, rfl, rfl⟩ | ⟨hk, hne⟩ <;>
    rcases entries hk' with ⟨rfl, rfl, hj⟩ | ⟨hk', hne'⟩
  · exact ⟨rfl, rfl⟩
  · exact absurd rfl hne'
  · exact absurd hj hne
  · exact sound.single hk hk'

/-- A disk in order is so after a change. -/
theorem Change.sound {d d' : Disk} (sound : d.Sound) (h : Change d d') : d'.Sound := by
  have hformed := h.formed sound.toFormed
  cases h with
  | fill i content file made =>
    refine sound.of_entries hformed i "" d.next fun hk => ?_
    rw [child?_fill file] at hk
    exact .inr ⟨hk, sound.ne_next hk⟩
  | @move i parent names name file j above targets name' folder there nofolder target free =>
    have hthere := (child?_of_node? folder name).trans there
    refine sound.of_entries hformed j name' file fun hk => ?_
    rw [child?_move folder target] at hk
    split_ifs at hk with hnew hold
    · exact .inl ⟨hnew.1, hnew.2, (Option.some.inj hk).symm⟩
    · refine .inr ⟨hk, ?_⟩
      rintro rfl
      exact hold (sound.single hk hthere)
  | @link i parent names name node folder free new =>
    refine sound.of_entries hformed i name d.next fun hk => ?_
    rw [child?_link sound.toFormed folder name new] at hk
    split_ifs at hk with hnew
    · exact .inl ⟨hnew.1, hnew.2, (Option.some.inj hk).symm⟩
    · exact .inr ⟨hk, sound.ne_next hk⟩
  | locks held => exact ⟨hformed, sound.single⟩

theorem node?_blank (i : Inode) : blank.node? i =
    if i = 1 then some (.folder 0 ∅) else if i = 0 then some (.folder 0 ∅) else none := by
  simp only [node?, blank, Std.ExtTreeMap.ofList_eq_foldl, List.foldl_cons, List.foldl_nil,
    OrderedMap.getElem?_insert, Std.ExtTreeMap.getElem?_empty, eq_comm]

theorem sound_blank : blank.Sound := by
  have hfolder {i parent names} (h : blank.node? i = some (.folder parent names)) :
      parent = 0 ∧ names = ∅ := by
    rw [node?_blank] at h
    split_ifs at h <;> cases h <;> exact ⟨rfl, rfl⟩
  have hentry {i name j} : blank.child? i name ≠ some j := by
    intro h
    obtain ⟨parent, names, hi⟩ := isFolder_iff.1 (isFolder_of_child? h)
    obtain ⟨-, rfl⟩ := hfolder hi
    rw [child?_of_node? hi, Std.ExtTreeMap.getElem?_empty] at h
    cases h
  refine ⟨⟨fun {i} hi => ?_, fun h => absurd h hentry, fun h => ?_⟩, fun h => absurd h hentry⟩
  · have hi : (2 : Nat) ≤ i := hi
    rw [node?_blank, if_neg (Nat.ne_of_gt hi), if_neg (Nat.ne_of_gt (Nat.lt_of_succ_lt hi))]
  · obtain ⟨rfl, -⟩ := hfolder h
    exact isFolder_of_node? (node?_blank 0)

def twoNames (name name' : String) (content : Bytes) : Disk :=
  ⟨.ofList [(0, Node.folder 0 ∅), (1, Node.folder 0 (.ofList [(name, 2), (name', 2)])),
    (2, Node.file content)], 3, 1, ∅⟩

theorem node?_twoNames (name name' : String) (content : Bytes) (i : Inode) :
    (twoNames name name' content).node? i = if i = 2 then some (.file content)
      else if i = 1 then some (.folder 0 (.ofList [(name, 2), (name', 2)]))
      else if i = 0 then some (.folder 0 ∅) else none := by
  simp only [node?, twoNames, Std.ExtTreeMap.ofList_eq_foldl, List.foldl_cons, List.foldl_nil,
    OrderedMap.getElem?_insert, Std.ExtTreeMap.getElem?_empty, eq_comm]

theorem formed_twoNames (name name' : String) (content : Bytes) :
    (twoNames name name' content).Formed := by
  have hfolder {i parent inside}
      (h : (twoNames name name' content).node? i = some (.folder parent inside)) :
      parent = 0 ∧ (inside = ∅ ∨ inside = .ofList [(name, 2), (name', 2)]) := by
    rw [node?_twoNames] at h
    split_ifs at h <;> cases h
    · exact ⟨rfl, .inr rfl⟩
    · exact ⟨rfl, .inl rfl⟩
  refine ⟨fun {i} hi => ?_, fun {i m j} hj => ?_, fun h => ?_⟩
  · have hi : (3 : Nat) ≤ i := hi
    rw [node?_twoNames, if_neg (Nat.ne_of_gt hi), if_neg (Nat.ne_of_gt (Nat.lt_of_succ_lt hi)),
      if_neg (Nat.ne_of_gt (Nat.zero_lt_of_lt hi))]
  · obtain ⟨parent, inside, hi⟩ := isFolder_iff.1 (isFolder_of_child? hj)
    rw [child?_of_node? hi] at hj
    have hnext : (2 : Nat) < (twoNames name name' content).next := Nat.lt_succ_self 2
    rcases (hfolder hi).2 with rfl | rfl
    · rw [Std.ExtTreeMap.getElem?_empty] at hj
      cases hj
    · simp only [Std.ExtTreeMap.ofList_eq_foldl, List.foldl_cons, List.foldl_nil,
        OrderedMap.getElem?_insert, Std.ExtTreeMap.getElem?_empty] at hj
      split_ifs at hj <;> exact Option.some.inj hj ▸ hnext
  · obtain ⟨rfl, -⟩ := hfolder h
    exact isFolder_of_node? (node?_twoNames name name' content 0)

end AlertSilences.Disk
