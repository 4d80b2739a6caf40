import AlertSilences.Expiry.Action
import AlertSilences.SilenceId
import Std.Data.ExtTreeMap

/-! The queue of actions by the time they are due; of actions due at one time the one
that arrived first goes first. Stopped actions are dropped in bulk once the queue has
doubled. -/

namespace AlertSilences

/-- The place of an action in the queue. Times are nanoseconds on the clock. -/
structure Turn where
  due : Int
  arrival : Nat
deriving DecidableEq

namespace Turn

instance : Ord Turn := ⟨compareLex (compareOn due) (compareOn arrival)⟩

instance : Std.TransOrd Turn :=
  inferInstanceAs (Std.TransCmp (compareLex (compareOn due) (compareOn arrival)))

instance : Std.LawfulEqOrd Turn where
  eq_of_compare {a b} h := by
    obtain ⟨h₁, h₂⟩ := compareLex_eq_eq.1 h
    cases a
    cases b
    exact congr (congrArg mk (Std.LawfulEqCmp.eq_of_compare h₁)) (Std.LawfulEqCmp.eq_of_compare h₂)

end Turn

/-- What is to be done: an action, and the silence it is for. -/
structure Task where
  id : SilenceId
  handle : Handle
deriving DecidableEq

abbrev Entry := Turn × Task

/-- The queue is never pruned while it is shorter than this. -/
def minPruneLength : Nat := 256

structure Queue where
  tasks : Std.ExtTreeMap Turn Task
  arrivals : Nat
  pruneAt : Nat
deriving DecidableEq

namespace Queue

def empty : Queue := ⟨∅, 0, minPruneLength⟩

def size (q : Queue) : Nat := q.tasks.size

/-- The queued actions, the next one first. -/
def entries (q : Queue) : List Entry := q.tasks.toList

def enter (q : Queue) (due : Int) (task : Task) : Queue :=
  { q with tasks := q.tasks.insert ⟨due, q.arrivals⟩ task, arrivals := q.arrivals + 1 }

def prune (actions : Actions) (q : Queue) : Queue :=
  if q.size < q.pruneAt then q
  else
    let kept := q.tasks.filter fun _ task => actions.isArmed task.handle
    { q with tasks := kept, pruneAt := max minPruneLength (2 * kept.size) }

def push (actions : Actions) (q : Queue) (due : Int) (task : Task) : Queue :=
  (q.enter due task).prune actions

def nextDue? (q : Queue) : Option Int := q.tasks.minEntry?.map (·.1.due)

def popDue? (now : Int) (q : Queue) : Option (Entry × Queue) :=
  match q.tasks.minEntry? with
  | none => none
  | some (turn, task) =>
    if turn.due ≤ now then some ((turn, task), { q with tasks := q.tasks.erase turn }) else none

end Queue

end AlertSilences
