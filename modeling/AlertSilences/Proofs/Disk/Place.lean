import AlertSilences.Proofs.Disk.Change
import AlertSilences.Proofs.Disk.Path

/-! Where paths lead: to a name in a folder. A path goes on leading there whatever changes, since
folders stay. -/

namespace AlertSilences.Disk

theorem bind_eq_ok {ε α β : Type} {x : Except ε α} {f : α → Except ε β} {b : β} :
    (x >>= f) = .ok b ↔ ∃ a, x = .ok a ∧ f a = .ok b := by
  cases x with
  | error e => exact ⟨nofun, fun ⟨_, h, _⟩ => nomatch h⟩
  | ok a => exact ⟨fun h => ⟨a, rfl, h⟩, fun ⟨_, h, hb⟩ => Except.ok.inj h ▸ hb⟩

theorem names?_eq_ok {d : Disk} {i parent : Inode} {names : Std.ExtTreeMap String Inode} :
    d.names? i = .ok (parent, names) ↔ d.node? i = some (.folder parent names) := by
  rw [names?]
  split
  · next h => simp [h]
  · next h => simp [h]
  · next h => simp [h]

/-- Where one name leads from a folder. -/
theorem enter_eq_ok {d : Disk} {i j : Inode} {name : String} :
    d.enter i name = .ok j ↔ ∃ parent names, d.node? i = some (.folder parent names) ∧
      (name = "." ∧ j = i ∨ name = ".." ∧ j = parent ∨
        name ≠ "." ∧ name ≠ ".." ∧ checkName name = .ok () ∧ d.child? i name = some j) := by
  rw [enter, bind_eq_ok]
  constructor
  · rintro ⟨⟨parent, names⟩, hi, hj⟩
    rw [names?_eq_ok] at hi
    refine ⟨parent, names, hi, ?_⟩
    rw [child?_of_node? hi]
    dsimp only at hj
    split_ifs at hj with hdot hdots
    · exact .inl ⟨hdot, (Except.ok.inj hj).symm⟩
    · exact .inr (.inl ⟨hdots, (Except.ok.inj hj).symm⟩)
    · obtain ⟨u, hname, hj⟩ := bind_eq_ok.1 hj
      refine .inr (.inr ⟨hdot, hdots, hname, ?_⟩)
      split at hj
      · next h => rw [h, Except.ok.inj hj]
      · cases hj
  · rintro ⟨parent, names, hi, hj⟩
    refine ⟨(parent, names), names?_eq_ok.2 hi, ?_⟩
    rw [child?_of_node? hi] at hj
    dsimp only
    rcases hj with ⟨rfl, rfl⟩ | ⟨rfl, rfl⟩ | ⟨hdot, hdots, hname, hj⟩
    · rfl
    · rfl
    · rw [if_neg hdot, if_neg hdots, hname, hj]
      rfl

def Leads (d : Disk) (p : Path) (i : Inode) (name : String) : Prop :=
  ∃ front, p.names = front ++ [name] ∧ p.slash = false ∧ name ≠ "." ∧ name ≠ ".." ∧
    d.walk p front = .ok i ∧ d.isFolder i = true

theorem Leads.unique {d : Disk} {p : Path} {i i' : Inode} {name name' : String}
    (h : d.Leads p i name) (h' : d.Leads p i' name') : i = i' ∧ name = name' := by
  obtain ⟨front, hnames, -, -, -, hwalk, -⟩ := h
  obtain ⟨front', hnames', -, -, -, hwalk', -⟩ := h'
  obtain ⟨rfl, hname⟩ := List.append_inj' (hnames.symm.trans hnames') rfl
  exact ⟨Except.ok.inj (hwalk.symm.trans hwalk'), List.singleton_inj.1 hname⟩

theorem isFolder_of_enter {d : Disk} {i j : Inode} {name : String} (h : d.enter i name = .ok j) :
    d.isFolder i = true := by
  obtain ⟨parent, names, hi, -⟩ := enter_eq_ok.1 h
  exact isFolder_of_node? hi

theorem Keeps.enter {d d' : Disk} (h : d.Keeps d') {i j : Inode} {name : String}
    (hj : d.enter i name = .ok j) (hfolder : d.isFolder j = true) : d'.enter i name = .ok j := by
  obtain ⟨parent, names, hi, hcases⟩ := enter_eq_ok.1 hj
  obtain ⟨names', hi'⟩ := h.parent hi
  refine enter_eq_ok.2 ⟨parent, names', hi', ?_⟩
  rcases hcases with hdot | hdots | ⟨hdot, hdots, hname, hchild⟩
  · exact .inl hdot
  · exact .inr (.inl hdots)
  · exact .inr (.inr ⟨hdot, hdots, hname, h.inside hchild hfolder⟩)

theorem isFolder_of_foldlM_enter {d : Disk} {front : List String} {i j : Inode}
    (h : front.foldlM d.enter i = .ok j) (hfolder : d.isFolder j = true) : d.isFolder i = true := by
  cases front with
  | nil => exact Except.ok.inj h ▸ hfolder
  | cons name front =>
    rw [List.foldlM_cons] at h
    obtain ⟨k, hk, -⟩ := bind_eq_ok.1 h
    exact isFolder_of_enter hk

theorem Keeps.foldlM_enter {d d' : Disk} (h : d.Keeps d') {front : List String} {i j : Inode}
    (hj : front.foldlM d.enter i = .ok j) (hfolder : d.isFolder j = true) :
    front.foldlM d'.enter i = .ok j := by
  induction front generalizing i with
  | nil => exact hj
  | cons name front ih =>
    rw [List.foldlM_cons] at hj ⊢
    obtain ⟨k, hk, hj⟩ := bind_eq_ok.1 hj
    exact bind_eq_ok.2 ⟨k, h.enter hk (isFolder_of_foldlM_enter hj hfolder), ih hj⟩

theorem Keeps.walk {d d' : Disk} (h : d.Keeps d') {p : Path} {front : List String} {i : Inode}
    (hi : d.walk p front = .ok i) (hfolder : d.isFolder i = true) : d'.walk p front = .ok i := by
  rw [Disk.walk] at hi ⊢
  rw [h.home]
  exact h.foldlM_enter hi hfolder

theorem Leads.keeps {d d' : Disk} {p : Path} {i : Inode} {name : String} (h : d.Leads p i name)
    (keeps : d.Keeps d') : d'.Leads p i name := by
  obtain ⟨front, hnames, hslash, hdot, hdots, hwalk, hfolder⟩ := h
  exact ⟨front, hnames, hslash, hdot, hdots, keeps.walk hwalk hfolder, keeps.isFolder hfolder⟩

theorem place_eq_ok {d : Disk} {p : Path} {i parent : Inode} {names : Std.ExtTreeMap String Inode}
    {name : String} : d.place p = .ok (i, parent, names, some name) ↔
      d.node? i = some (.folder parent names) ∧
        ∃ front, p.names = front ++ [name] ∧ name ≠ "." ∧ name ≠ ".." ∧ d.walk p front = .ok i := by
  rw [place, bind_eq_ok]
  constructor
  · rintro ⟨j, hwalk, h⟩
    obtain ⟨⟨above, inside⟩, hj, h⟩ := bind_eq_ok.1 h
    rw [names?_eq_ok] at hj
    dsimp only at h
    split at h
    · cases h
    · next last hlast =>
      obtain ⟨rfl, rfl, rfl, hname⟩ : j = i ∧ above = parent ∧ inside = names ∧
          (if (decide (last = ".") || decide (last = "..")) = true then none else some last) =
            some name := by
        simpa using Except.ok.inj h
      split_ifs at hname with hdots
      obtain rfl := Option.some.inj hname
      simp only [Bool.or_eq_true, decide_eq_true_eq, not_or] at hdots
      exact ⟨hj, p.names.dropLast, (List.dropLast_append_getLast? last hlast).symm, hdots.1,
        hdots.2, hwalk⟩
  · rintro ⟨hi, front, hnames, hdot, hdots, hwalk⟩
    refine ⟨i, by rw [hnames, List.dropLast_concat, hwalk],
      bind_eq_ok.2 ⟨(parent, names), names?_eq_ok.2 hi, ?_⟩⟩
    rw [hnames, List.getLast?_concat]
    simp [hdot, hdots, pure, Except.pure]

end AlertSilences.Disk
