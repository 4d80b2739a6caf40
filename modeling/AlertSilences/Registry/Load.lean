import AlertSilences.Record.Document
import AlertSilences.Registry.Batch

/-! Loading a document into the registry. -/

namespace AlertSilences.Registry

/-- Adds the silences of a document one by one, up to the first that cannot be added; or none if the
document cannot be read. -/
def load (now : Instant) (clock : Nat → Instant) (path : String)
    (document : Except Disk.Fault Bytes) (r : Registry) : Outcome Nat :=
  match document with
  | .error fault => ⟨.error (.fault fault), r, []⟩
  | .ok bytes =>
    match Silence.decodeAll clock bytes with
    | .error cause => ⟨.error (.deserialization cause), r, []⟩
    | .ok silences =>
      match r.inTurn (add now) silences with
      | ⟨.error e, r, log⟩ => ⟨.error e, r, log⟩
      | ⟨.ok ids, r, log⟩ => ⟨.ok ids.length, r, log ++ [.loaded path ids.length]⟩

end AlertSilences.Registry
