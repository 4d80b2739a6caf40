import Std.Data.ExtTreeMap
import Std.Data.HashMap

/-! Labels of events. Whatever can be asked for a label by name is a label set;
a lookup is all that matching ever sees of it. -/

namespace AlertSilences

class LabelSet (α : Type) where
  label : α → String → Option String

/-- Labels sorted by name, one value each. -/
abbrev Labels := Std.ExtTreeMap String String

instance : LabelSet Labels := ⟨fun labels name => labels[name]?⟩

instance : LabelSet (Std.HashMap String String) := ⟨fun labels name => labels[name]?⟩

/-- A label set known by its lookups alone. -/
structure Lookup where
  find : String → Option String

instance : LabelSet Lookup := ⟨Lookup.find⟩

def Lookup.of {α : Type} [LabelSet α] (labels : α) : Lookup := ⟨LabelSet.label labels⟩

/-- An occurrence that alerts are raised for. -/
structure Event where
  labels : Labels
deriving DecidableEq

instance : LabelSet Event := ⟨fun event name => event.labels[name]?⟩

namespace Event

def empty : Event := ⟨∅⟩

def withLabel (event : Event) (name value : String) : Event := ⟨event.labels.insert name value⟩

end Event

end AlertSilences
