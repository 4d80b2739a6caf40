import AlertSilences.Disk.Path
import AlertSilences.Json.Error
import AlertSilences.SilenceId

/-! Why an operation of the registry fails. -/

namespace AlertSilences

inductive Failure
  | fault (cause : Disk.Fault)
  | notFound (id : SilenceId)
  | idsExhausted (last : SilenceId)
  | serialization (text : String)
  | deserialization (cause : Json.Error)
  | locked (path : String)
  | notInitialized (path : String)
deriving DecidableEq

namespace Failure

def message : Failure → String
  | .fault cause => "IO error: " ++ cause.message
  | .notFound id => "Silence with ID " ++ id.text ++ " doesn\x27t exist"
  | .idsExhausted last => "No silence IDs left after " ++ last.text
  | .serialization text => "Serialization error: " ++ text
  | .deserialization cause => "Deserialization error: " ++ cause.message
  | .locked path => "Store is locked by another process: " ++ path
  | .notInitialized path => "Store not initialized: " ++ path

def isNotFound : Failure → Bool
  | .notFound _ => true
  | _ => false

end Failure

end AlertSilences
