import AlertSilences.Proofs.Matching
import AlertSilences.Proofs.OrderedMap
import AlertSilences.Silence
import Mathlib.Tactic.SplitIfs
import Mathlib.Tactic.Tauto

/-! What matching depends on. Of filters only which ones there are, and of labels only what is under
the names that they ask for, where nothing counts as the empty text. Neither the order of filters,
nor how often one is there, nor in what the labels are kept makes a difference. -/

namespace AlertSilences

section Labels

variable {α β : Type} [LabelSet α] [LabelSet β]

/-- Two label sets have the same under a name, what is missing being the empty text. -/
def LabelSet.Agree (e : α) (e' : β) (name : String) : Prop :=
  (LabelSet.label e name).getD "" = (LabelSet.label e' name).getD ""

theorem Filter.handles_of_agree {filter : Filter} {e : α} {e' : β}
    (h : LabelSet.Agree e e' filter.name) : filter.handles e = filter.handles e' := by
  unfold handles
  rw [h]

end Labels

/-- A label under another name changes nothing, and neither does an empty one in place of none. -/
theorem Event.agree_withLabel {event : Event} {name value other : String}
    (h : name = other → event.labels[name]? = none ∧ value = "") :
    LabelSet.Agree (event.withLabel name value) event other := by
  have hlabel : LabelSet.label (event.withLabel name value) other =
      if name = other then some value else event.labels[other]? := by
    simp [LabelSet.label, withLabel]
  rw [LabelSet.Agree, hlabel]
  split_ifs with hname
  · obtain ⟨hnone, rfl⟩ := h hname
    rw [show LabelSet.label event other = event.labels[other]? from rfl, ← hname, hnone]
    rfl
  · rfl

namespace Filters

variable {α β : Type} [LabelSet α] [LabelSet β]

def append (f g : Filters) : Filters := ⟨f.list ++ g.list⟩

theorem foldl_push (f : Filters) (more : List Filter) :
    more.foldl push f = f.append ⟨more⟩ := by
  induction more generalizing f with
  | nil => simp [append]
  | cons x more ih => simp [ih, append, push]

theorem handles_of_same {f g : Filters} {e : α} {e' : β} (same : ∀ x, x ∈ f.list ↔ x ∈ g.list)
    (agree : ∀ x ∈ f.list, LabelSet.Agree e e' x.name) : f.handles e = g.handles e' := by
  rw [Bool.eq_iff_iff, handles, handles, List.all_eq_true, List.all_eq_true]
  constructor
  · intro h x hx
    have hf := (same x).2 hx
    rw [← Filter.handles_of_agree (agree x hf)]
    exact h x hf
  · intro h x hx
    rw [Filter.handles_of_agree (agree x hx)]
    exact h x ((same x).1 hx)

theorem handles_append (f g : Filters) (e : α) :
    (f.append g).handles e = (f.handles e && g.handles e) := List.all_append

/-- The same filters match labels that agree on the names that they ask for: however the filters are
ordered and repeated, whatever else has a label, and whatever the labels are kept in. Filters behind
others match what both match, so one more filter makes no match. -/
theorem matching_by_set_and_named_labels :
    (∀ (f g : Filters) (e : α) (e' : β), (∀ x, x ∈ f.list ↔ x ∈ g.list) →
      (∀ x ∈ f.list, LabelSet.Agree e e' x.name) → f.handles e = g.handles e') ∧
    (∀ (f g : Filters) (e : α), (f.append g).handles e = (f.handles e && g.handles e) ∧
      (g.list.foldl push f).handles e = (f.handles e && g.handles e)) ∧
    (∀ (f : Filters) (x : Filter) (e : α), f.handles e = false → (f.push x).handles e = false) ∧
    (∀ (f : Filters) (labels : Labels) (table : Std.HashMap String String),
      (∀ name : String, table[name]? = labels[name]?) →
      f.handles table = f.handles labels ∧ f.handles (Event.mk labels) = f.handles labels ∧
        f.handles (Lookup.of labels) = f.handles labels) ∧
    ∀ (f : Filters) (event : Event) (name value : String),
      (∀ x ∈ f.list, name = x.name → event.labels[name]? = Option.none ∧ value = "") →
      f.handles (event.withLabel name value) = f.handles event := by
  refine ⟨fun f g e e' => handles_of_same, fun f g e => ⟨f.handles_append g e, ?_⟩,
    fun f x e h => ?_, fun f labels table htable => ?_, fun f event name value h => ?_⟩
  · rw [foldl_push]
    exact f.handles_append g e
  · have hpush : f.push x = f.append ⟨[x]⟩ := rfl
    rw [hpush, handles_append, h, Bool.false_and]
  · have hall {γ : Type} [LabelSet γ] {e : γ} (h : ∀ name, LabelSet.label e name = labels[name]?) :
        f.handles e = f.handles labels :=
      handles_of_same (fun _ => Iff.rfl) fun x _ => by rw [LabelSet.Agree, h x.name]; rfl
    exact ⟨hall htable, hall fun _ => rfl, hall fun _ => rfl⟩
  · exact handles_of_same (fun _ => Iff.rfl) fun x hx => Event.agree_withLabel (h x hx)

/-- An event and a table with an empty label and one that nobody asks for, and filters in another
order with one of them twice. -/
theorem matching_by_set_of_event_and_table :
    let f : Filters := .ofPairs [("job", "db"), ("env", "")]
    let g : Filters := (Filters.none.push ⟨"env", ""⟩).append (.ofPairs [("job", "db"), ("env", "")])
    let e := Event.empty.withLabel "job" "db"
    let e' := (((∅ : Std.HashMap String String).insert "team" "a").insert "env" "").insert "job" "db"
    (∀ x, x ∈ f.list ↔ x ∈ g.list) ∧ (∀ x ∈ f.list, LabelSet.Agree e e' x.name) ∧
      f.handles e = true ∧ f.handles e = g.handles e' ∧
      (g.push ⟨"team", "b"⟩).handles e' = false := by
  intro f g e e'
  have same : ∀ x, x ∈ f.list ↔ x ∈ g.list := by
    intro x
    simp only [f, g, ofPairs, none, push, append, List.map_cons, List.map_nil, List.nil_append,
      List.mem_append, List.mem_cons, List.not_mem_nil, or_false]
    tauto
  have table (name : String) : LabelSet.label e' name = if "job" = name then some "db" else
      if "env" = name then some "" else if "team" = name then some "a" else Option.none := by
    simp only [LabelSet.label, e', Std.HashMap.getElem?_insert, Std.HashMap.getElem?_empty, beq_iff_eq]
  have agree : ∀ x ∈ f.list, LabelSet.Agree e e' x.name := by
    intro x hx
    have hx : x = ⟨"job", "db"⟩ ∨ x = ⟨"env", ""⟩ := by simpa [f, ofPairs] using hx
    rcases hx with rfl | rfl <;> rw [LabelSet.Agree, table] <;> decide
  refine ⟨same, agree, by decide, matching_by_set_and_named_labels.1 f g e e' same agree, ?_⟩
  rw [handles, List.all_eq_false]
  exact ⟨⟨"team", "b"⟩, by decide, by rw [Filter.handles, table]; decide⟩

end Filters

end AlertSilences
