import AlertSilences.Failure

/-! What is told while the registry works. -/

namespace AlertSilences

inductive LogLine
  | armed (id : SilenceId)
  | neverExpires (id : SilenceId)
  | beyondClock (id : SilenceId)
  | replaced (id : SilenceId)
  | added (id : SilenceId)
  | updated (id : SilenceId)
  | deleted (id : SilenceId)
  | closed (disarmed retained : Nat)
  | cleared (removed : Nat)
  | expired (id : SilenceId)
  | stale (id : SilenceId)
  | vanished (id : SilenceId)
  | loaded (path : String) (count : Nat)
  | saved (path : String) (count : Nat)
  | workerStopped
  | workerPanicked
deriving DecidableEq

abbrev Log := List LogLine

namespace LogLine

def field (name value : String) : String := " " ++ name ++ "=" ++ value

def idField (id : SilenceId) : String := field "silence_id" id.text

def text : LogLine → String
  | .armed id => "DEBUG armed expiry" ++ idField id
  | .neverExpires id => "WARN expiry worker is gone, silence will not expire" ++ idField id
  | .beyondClock id => "DEBUG expiry beyond clock range, not scheduled" ++ idField id
  | .replaced id => "DEBUG replaced existing silence" ++ idField id
  | .added id => "DEBUG added silence" ++ idField id
  | .updated id => "DEBUG updated silence" ++ idField id
  | .deleted id => "DEBUG deleted silence" ++ idField id
  | .closed disarmed retained =>
    "INFO closed silence store" ++ field "disarmed" (toString disarmed) ++
      field "retained" (toString retained)
  | .cleared removed => "INFO cleared silence store" ++ field "removed" (toString removed)
  | .expired id => "INFO silence expired" ++ idField id
  | .stale id => "DEBUG skipping stale expiry" ++ idField id
  | .vanished id =>
    "WARN failed to delete expired silence: " ++ (Failure.notFound id).message ++ idField id
  | .loaded path count =>
    "INFO loaded silences" ++ field "path" path ++ field "count" (toString count)
  | .saved path count =>
    "INFO saved silences" ++ field "path" path ++ field "count" (toString count)
  | .workerStopped => "DEBUG expiry worker stopped"
  | .workerPanicked => "WARN expiry worker panicked"

end LogLine

end AlertSilences
