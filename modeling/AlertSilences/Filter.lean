import AlertSilences.Label

/-! Filters on labels. A label that is missing counts as the empty text, and an
event must satisfy every filter of a list. -/

namespace AlertSilences

structure Filter where
  name : String
  value : String
deriving DecidableEq, Inhabited

def Filter.handles {α : Type} [LabelSet α] (filter : Filter) (event : α) : Bool :=
  (LabelSet.label event filter.name).getD "" == filter.value

structure Filters where
  list : List Filter
deriving DecidableEq, Inhabited

namespace Filters

def none : Filters := ⟨[]⟩

def push (filters : Filters) (filter : Filter) : Filters := ⟨filters.list ++ [filter]⟩

def ofPairs (pairs : List (String × String)) : Filters := ⟨pairs.map fun p => ⟨p.1, p.2⟩⟩

def toPairs (filters : Filters) : List (String × String) :=
  filters.list.map fun f => (f.name, f.value)

def handles {α : Type} [LabelSet α] (filters : Filters) (event : α) : Bool :=
  filters.list.all fun filter => filter.handles event

/-- The filters by name; of filters on one name the last one counts. -/
def toLabels (filters : Filters) : Labels := Std.ExtTreeMap.ofList filters.toPairs

def ofLabels (labels : Labels) : Filters := ofPairs labels.toList

end Filters

end AlertSilences
