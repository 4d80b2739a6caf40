import AlertSilences.Json.Value
import AlertSilences.Json.Writer
import AlertSilences.SilenceId

/-! Ids as documents: unsigned integers of 64 bits. -/

namespace AlertSilences.SilenceId

open Json

def write (id : SilenceId) : Bytes := writeNatural id.value.toNat

def decode (document : Bytes) : Except Error SilenceId :=
  finish ((readUnsigned document).map fun r => (⟨r.1⟩, r.2))

end AlertSilences.SilenceId
