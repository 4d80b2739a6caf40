import AlertSilences.Storage.Open

/-! What can be asked of a machine. -/

namespace AlertSilences

/-- Fields of a silence to be changed; filters may be put in place of the old ones or behind
them, and the id may be another. -/
structure Change where
  createdBy : Option String
  comment : Option String
  createdAt : Option Instant
  endsAt : Option Instant
  filters : Option Filters
  pushed : List Filter
  id : Option SilenceId

namespace Change

def apply (c : Change) (s : Silence) : Silence :=
  { id := c.id.getD s.id
    createdBy := c.createdBy.getD s.createdBy
    createdAt := c.createdAt.getD s.createdAt
    endsAt := c.endsAt.getD s.endsAt
    comment := c.comment.getD s.comment
    filters := c.pushed.foldl Filters.push (c.filters.getD s.filters) }

end Change

inductive Request
  | new
  | withConfig (config : Config)
  | openAt (config : Config)
  | clone (name : String)
  | drop
  | add (silence : Silence)
  | update (silence : Silence)
  | modify (id : SilenceId) (change : Change)
  | get (id : SilenceId)
  | delete (id : SilenceId)
  | list
  | size
  | isEmpty
  | clear
  | close
  | inhibited (labels : Labels)
  | load (path : String)
  | save (path : String)
  | persist
  | config
  | describe
  | addMany (silence : Silence) (count : Nat)
  | deleteMany (first last : SilenceId)
  | updateMany (first last : SilenceId) (silence : Silence)
  | addInThreads (silence : Silence) (threads each : Nat)
  | awaitGone (id : SilenceId)
  | sleep (millis : Nat)
  | write (path : String) (bytes : Bytes)
  | makeFolder (path : String)
  | remove (path : String)
  | read (path : String)
  | listFiles

end AlertSilences
