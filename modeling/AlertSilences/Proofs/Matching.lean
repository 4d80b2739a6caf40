import AlertSilences.Filter

/-! What it means that filters cover an event, whatever the order and the way in which they are
checked. -/

namespace AlertSilences

variable {α : Type} [LabelSet α]

/-- The event has the value of the filter under its name, or it has nothing there and the filter
asks for nothing. -/
def Filter.Fits (filter : Filter) (event : α) : Prop :=
  LabelSet.label event filter.name = some filter.value ∨
    LabelSet.label event filter.name = none ∧ filter.value = ""

def Filters.Cover (filters : Filters) (event : α) : Prop := ∀ f ∈ filters.list, f.Fits event

@[simp] theorem Filter.handles_iff (filter : Filter) (event : α) :
    filter.handles event = true ↔ filter.Fits event := by
  unfold Filter.handles Filter.Fits
  cases h : LabelSet.label event filter.name with
  | none => simp
  | some value => simp

namespace Filters

@[simp] theorem handles_iff (filters : Filters) (event : α) :
    filters.handles event = true ↔ filters.Cover event := by
  simp [handles, Cover]

@[simp] theorem handles_eq_false_iff (filters : Filters) (event : α) :
    filters.handles event = false ↔ ¬filters.Cover event := by
  rw [← handles_iff, Bool.not_eq_true]

end Filters

end AlertSilences
