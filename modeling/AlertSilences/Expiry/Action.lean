import AlertSilences.Instant
import Std.Data.ExtTreeSet

/-! Actions that are to happen at a time unless they are stopped before. Handles are
numbered in the order in which they are issued, so two handles name the same action
exactly if their numbers are equal. -/

namespace AlertSilences

structure Handle where
  index : Nat
  endsAt : Instant
deriving DecidableEq, Inhabited

namespace Handle

def same (a b : Handle) : Bool := a.index == b.index

end Handle

/-- How many actions were issued, and which of them were stopped. All others are armed. -/
structure Actions where
  issued : Nat
  stopped : Std.ExtTreeSet Nat

namespace Actions

def none : Actions := ⟨0, ∅⟩

def isArmed (t : Actions) (h : Handle) : Bool := !t.stopped.contains h.index

def issue (t : Actions) (endsAt : Instant) : Handle × Actions :=
  (⟨t.issued, endsAt⟩, { t with issued := t.issued + 1 })

def disarm (t : Actions) (h : Handle) : Actions := { t with stopped := t.stopped.insert h.index }

/-- Stops an action; tells whether this call disarmed it. -/
def stop (t : Actions) (h : Handle) : Bool × Actions := (t.isArmed h, t.disarm h)

end Actions

end AlertSilences
