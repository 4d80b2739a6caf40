import AlertSilences.Proofs.Json.Passing
import AlertSilences.Record.Document

/-! What the elements of a document stand for. An element has its fields by name, as the members of
a map or as the elements of a list in their order; each may be missing, and none may be there twice.
-/

namespace AlertSilences

open Json

structure Fields where
  id : UInt64
  createdBy : String
  createdAtSeconds : Int64
  endsAtSeconds : Int64
  comment : String
  filters : List (String × String)
deriving DecidableEq

namespace Fields

def names : List String :=
  ["id", "createdBy", "createdAtSeconds", "endsAtSeconds", "comment", "filters"]

/-- What an element has, by name. Every key has to be a text, also one that names no field. -/
def named? : Tree → Option (List (String × Tree))
  | .map members => members.mapM fun m => (text? m.1).map (·, m.2)
  | .list elements =>
    if elements.length ≤ names.length then some (names.zip elements) else none
  | _ => none

def under {α : Type} (name : String) (entries : List (String × α)) : List α :=
  (entries.filter (·.1 = name)).map (·.2)

def single? {α : Type} (default : α) (value? : Tree → Option α) : List Tree → Option α
  | [] => some default
  | [t] => value? t
  | _ => none

def pairs? : Tree → Option (List (String × String))
  | .map members => members.mapM fun m => do return (← text? m.1, ← m.2.string?)
  | _ => none

def of? (t : Tree) : Option Fields := do
  let named ← named? t
  let id ← single? 0 Tree.unsigned? (under "id" named)
  let createdBy ← single? "" (Tree.orNull "" Tree.string?) (under "createdBy" named)
  let createdAtSeconds ← single? 0 Tree.signed? (under "createdAtSeconds" named)
  let endsAtSeconds ← single? 0 Tree.signed? (under "endsAtSeconds" named)
  let comment ← single? "" (Tree.orNull "" Tree.string?) (under "comment" named)
  let filters ← single? [] (Tree.orNull [] pairs?) (under "filters" named)
  return ⟨id, createdBy, createdAtSeconds, endsAtSeconds, comment, filters⟩

/-- A record keeps the last filter on each name. -/
def toRecord (f : Fields) : Record :=
  ⟨f.id, f.createdBy, f.createdAtSeconds, f.endsAtSeconds, f.comment, .ofList f.filters⟩

theorem under_cons {α : Type} (name : String) (p : String × α) (entries : List (String × α)) :
    under name (p :: entries) =
      if p.1 = name then p.2 :: under name entries else under name entries := by
  unfold under
  rw [List.filter_cons]
  split_ifs with h h' h'
  · rfl
  · exact absurd (of_decide_eq_true h) h'
  · exact absurd (decide_eq_true h') h
  · rfl

theorem under_of_not_mem {α : Type} {name : String} {entries : List (String × α)}
    (h : ∀ p ∈ entries, p.1 ≠ name) : under name entries = [] := by
  rw [under, List.map_eq_nil_iff, List.filter_eq_nil_iff]
  exact fun p hp hname => h p hp (of_decide_eq_true hname)

/-- When names are given in order, the place of a name is that of its value. -/
theorem under_zip {α : Type} {names : List String} (hn : names.Nodup) {k : Nat} {name : String}
    (hk : names[k]? = some name) (values : List α) :
    under name (names.zip values) = (values.drop k).head?.toList := by
  induction names generalizing k values with
  | nil => cases hk
  | cons n names ih =>
    obtain ⟨hnot, hn⟩ := List.nodup_cons.1 hn
    cases values with
    | nil =>
      rw [List.zip_nil_right, List.drop_nil]
      rfl
    | cons value values =>
      rw [List.zip_cons_cons, under_cons]
      cases k with
      | zero =>
        obtain rfl := Option.some.inj hk
        rw [if_pos rfl, under_of_not_mem]
        · rfl
        · rintro ⟨m, v⟩ hmem rfl
          exact hnot (List.of_mem_zip hmem).1
      | succ k =>
        have hne : n ≠ name := by
          rintro rfl
          exact hnot (List.mem_of_getElem? hk)
        rw [if_neg hne, ih hn hk, List.drop_succ_cons]

def labels? (t : Tree) : Option Labels := (pairs? t).map fun pairs => Std.ExtTreeMap.ofList pairs

theorem orNull_labels? : Tree.orNull ∅ labels? =
    fun t => (Tree.orNull [] pairs? t).map fun pairs => (Std.ExtTreeMap.ofList pairs : Labels) := by
  funext t
  cases t with
  | null => exact congrArg some Std.ExtTreeMap.ofList_nil.symm
  | _ => rfl

end Fields

namespace Record

/-- The value of a field where `before` is the one that was met before. -/
def once? {α : Type} (before a? : Option α) : Option α := if before.isSome then none else a?

def Draft.next? (d : Draft) (key : String) (t : Tree) : Option Draft :=
  if key = "id" then (once? d.id t.unsigned?).map fun id => { d with id := some id }
  else if key = "createdBy" then
    (once? d.createdBy (t.orNull "" Tree.string?)).map fun name => { d with createdBy := some name }
  else if key = "createdAtSeconds" then
    (once? d.createdAtSeconds t.signed?).map fun second =>
      { d with createdAtSeconds := some second }
  else if key = "endsAtSeconds" then
    (once? d.endsAtSeconds t.signed?).map fun second => { d with endsAtSeconds := some second }
  else if key = "comment" then
    (once? d.comment (t.orNull "" Tree.string?)).map fun comment =>
      { d with comment := some comment }
  else if key = "filters" then
    (once? d.filters (t.orNull ∅ Fields.labels?)).map fun filters =>
      { d with filters := some filters }
  else some d

def fill? {α : Type} (value? : Tree → Option α) (before : Option α) (ts : List Tree) :
    Option (Option α) :=
  ts.foldlM (fun before t => (once? before (value? t)).map some) before

theorem fill?_cons {α : Type} (value? : Tree → Option α) (before : Option α) (t : Tree)
    (ts : List Tree) :
    fill? value? before (t :: ts) =
      (once? before (value? t)).bind fun a => fill? value? (some a) ts := by
  rw [fill?, List.foldlM_cons]
  cases once? before (value? t) <;> rfl

theorem foldlM_next? (named : List (String × Tree)) (d : Draft) :
    named.foldlM (fun d p => d.next? p.1 p.2) d =
      (fill? Tree.unsigned? d.id (Fields.under "id" named)).bind fun id =>
      (fill? (Tree.orNull "" Tree.string?) d.createdBy
        (Fields.under "createdBy" named)).bind fun by' =>
      (fill? Tree.signed? d.createdAtSeconds (Fields.under "createdAtSeconds" named)).bind fun c =>
      (fill? Tree.signed? d.endsAtSeconds (Fields.under "endsAtSeconds" named)).bind fun e =>
      (fill? (Tree.orNull "" Tree.string?) d.comment
        (Fields.under "comment" named)).bind fun comment =>
      (fill? (Tree.orNull ∅ Fields.labels?) d.filters
        (Fields.under "filters" named)).bind fun filters =>
          some ⟨id, by', c, e, comment, filters⟩ := by
  induction named generalizing d with
  | nil => rfl
  | cons p named ih =>
    obtain ⟨key, t⟩ := p
    rw [List.foldlM_cons, Draft.next?]
    dsimp only
    split_ifs with h₁ h₂ h₃ h₄ h₅ h₆
    case neg => simp [Fields.under_cons, h₁, h₂, h₃, h₄, h₅, h₆, ih]
    all_goals
      subst key
      simp only [Fields.under_cons, fill?_cons, String.reduceEq, if_true, if_false]
      generalize once? _ _ = a?
      cases a? <;> simp [ih]

theorem fill?_none {α : Type} (default : α) (value? : Tree → Option α) (ts : List Tree) :
    Fields.single? default value? ts = (fill? value? none ts).map (·.getD default) := by
  rcases ts with _ | ⟨t, _ | ⟨u, ts⟩⟩
  · rfl
  · rw [fill?_cons, once?, Fields.single?]
    cases value? t <;> rfl
  · rw [fill?_cons]
    change none = _
    cases once? none (value? t) with
    | none => rfl
    | some a =>
      rw [Option.bind_some, fill?_cons]
      rfl

theorem single?_map {α β : Type} (f : α → β) (default : α) (value? : Tree → Option α)
    (ts : List Tree) :
    Fields.single? (f default) (fun t => (value? t).map f) ts =
      (Fields.single? default value? ts).map f := by
  rcases ts with _ | ⟨t, _ | ⟨u, ts⟩⟩ <;> rfl

/-- Labels are put in one by one, and then each name has the last one. -/
theorem fill?_labels {β : Type} (g : Labels → β) (ts : List Tree) :
    (fill? (Tree.orNull ∅ Fields.labels?) none ts).bind (fun filters => some (g (filters.getD ∅))) =
      (Fields.single? [] (Tree.orNull [] Fields.pairs?) ts).bind fun pairs =>
        some (g (Std.ExtTreeMap.ofList pairs)) := by
  have hsingle := single?_map (fun pairs => (Std.ExtTreeMap.ofList pairs : Labels)) []
    (Tree.orNull [] Fields.pairs?) ts
  rw [← Fields.orNull_labels?, Std.ExtTreeMap.ofList_nil, fill?_none] at hsingle
  have hmap := congrArg (·.map g) hsingle
  simpa only [Option.map_eq_bind, Function.comp_def, Option.bind_assoc, Option.bind_some] using hmap

/-- A record of the fields that a map has. -/
theorem toRecord_foldlM_next? {t : Tree} {named : List (String × Tree)}
    (h : Fields.named? t = some named) :
    (named.foldlM (fun (d : Draft) p => d.next? p.1 p.2) Draft.blank).map Draft.toRecord =
      (Fields.of? t).map Fields.toRecord := by
  rw [foldlM_next?, Fields.of?, h]
  simp only [fill?_none, Option.bind_eq_bind, Option.bind_some, Option.map_bind, Option.bind_map,
    Function.comp_def, Draft.toRecord, Draft.blank, fill?_labels, Fields.toRecord, Option.map_some,
    Option.pure_def]

def element? {α : Type} (default : α) (value? : Tree → Option α) : List Tree → Option α
  | [] => some default
  | t :: _ => value? t

theorem element?_labels (ts : List Tree) :
    element? ∅ (Tree.orNull ∅ Fields.labels?) ts =
      (element? [] (Tree.orNull [] Fields.pairs?) ts).map fun pairs =>
        (Std.ExtTreeMap.ofList pairs : Labels) := by
  rw [Fields.orNull_labels?]
  cases ts with
  | nil => exact congrArg some Std.ExtTreeMap.ofList_nil.symm
  | cons t ts => rfl

theorem single?_toList {α : Type} (default : α) (value? : Tree → Option α) (ts : List Tree) :
    Fields.single? default value? ts.head?.toList = element? default value? ts := by
  cases ts <;> rfl

def positional? (ts : List Tree) : Option Record := do
  let id ← element? 0 Tree.unsigned? ts
  let createdBy ← element? "" (Tree.orNull "" Tree.string?) (ts.drop 1)
  let createdAtSeconds ← element? 0 Tree.signed? (ts.drop 2)
  let endsAtSeconds ← element? 0 Tree.signed? (ts.drop 3)
  let comment ← element? "" (Tree.orNull "" Tree.string?) (ts.drop 4)
  let filters ← element? [] (Tree.orNull [] Fields.pairs?) (ts.drop 5)
  if (ts.drop 6).isEmpty then
    some (Fields.toRecord ⟨id, createdBy, createdAtSeconds, endsAtSeconds, comment, filters⟩)
  else none

theorem positional?_eq (ts : List Tree) :
    positional? ts = (Fields.of? (.list ts)).map Fields.toRecord := by
  have hplace {k : Nat} {name : String} (hk : Fields.names[k]? = some name) :=
    Fields.under_zip (show Fields.names.Nodup by decide) hk ts
  have hsix : (ts.drop 6).isEmpty = decide (ts.length ≤ Fields.names.length) := by
    rw [Bool.eq_iff_iff, List.isEmpty_iff, List.drop_eq_nil_iff, decide_eq_true_eq]
    rfl
  rw [Fields.of?, Fields.named?, positional?, hsix]
  by_cases hlength : ts.length ≤ Fields.names.length
  · simp only [hlength, if_true, Option.bind_eq_bind, Option.bind_some, decide_true,
      hplace (k := 0) rfl, hplace (k := 1) rfl, hplace (k := 2) rfl, hplace (k := 3) rfl,
      hplace (k := 4) rfl, hplace (k := 5) rfl, single?_toList, Option.map_bind, Function.comp_def,
      Option.pure_def, Option.map_some, List.drop_zero]
  · simp [hlength]

end Record

end AlertSilences
