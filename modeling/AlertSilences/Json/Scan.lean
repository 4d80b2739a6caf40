import AlertSilences.Json.Error
import AlertSilences.Text.Utf8

/-! The smallest steps of reading: a reader takes bytes off the front of a document
and leaves the rest, or says why it cannot. -/

namespace AlertSilences.Json

abbrev Reader (α : Type) := Bytes → Except Error (α × Bytes)

def ascii (c : Char) : UInt8 := UInt8.ofNat c.toNat

def isBlank (b : UInt8) : Bool := b = 0x20 || b = 0x09 || b = 0x0a || b = 0x0d

def dropBlank (s : Bytes) : Bytes := s.dropWhile isBlank

def isDigit (b : UInt8) : Bool := 0x30 ≤ b && b ≤ 0x39

def digitValue (b : UInt8) : Nat := b.toNat - 0x30

def startsWith (p : UInt8 → Bool) : Bytes → Bool
  | [] => false
  | b :: _ => p b

def readWord : Bytes → Bytes → Except Error Bytes
  | [], s => .ok s
  | _ :: _, [] => .error .endInValue
  | w :: word, b :: s => if w = b then readWord word s else .error .wordExpected

/-- Nothing but white space may follow the value of a document. -/
def finish {α : Type} (read : Except Error (α × Bytes)) : Except Error α :=
  match read with
  | .error e => .error e
  | .ok (value, rest) => if (dropBlank rest).isEmpty then .ok value else .error .trailingCharacters

end AlertSilences.Json
