import AlertSilences.Binary64.Shortest
import AlertSilences.Text.Quoted

/-! Why a document cannot be read, and what is said about it. -/

namespace AlertSilences.Json

/-- What a place in a document has room for. -/
inductive Expected
  | sequence
  | record
  | event
  | map
  | text
  | unsigned
  | signed
deriving DecidableEq

def Expected.message : Expected → String
  | .sequence => "a sequence"
  | .record => "struct WireSilence"
  | .event => "struct Event"
  | .map => "a map"
  | .text => "a string"
  | .unsigned => "u64"
  | .signed => "i64"

/-- What stands there instead. -/
inductive Found
  | null
  | boolean (value : Bool)
  | integer (value : Int)
  | real (negative : Bool) (size : Binary64)
  | text (value : String)
  | sequence
  | map
deriving DecidableEq

def Found.message : Found → String
  | .null => "null"
  | .boolean value => "boolean \x60" ++ (if value then "true" else "false") ++ "\x60"
  | .integer value => "integer \x60" ++ toString value ++ "\x60"
  | .real negative size => "floating point \x60" ++ size.text negative ++ "\x60"
  | .text value => "string " ++ Text.quoted value
  | .sequence => "sequence"
  | .map => "map"

inductive Error
  | endInValue
  | endInList
  | endInObject
  | endInText
  | valueExpected
  | wordExpected
  | colonExpected
  | listCommaExpected
  | objectCommaExpected
  | keyExpected
  | trailingComma
  | trailingCharacters
  | badNumber
  | numberOutOfRange
  | badEscape
  | controlCharacter
  | badUnicode
  | loneSurrogate
  | endOfSurrogate
  | invalidType (found : Found) (expected : Expected)
  | invalidValue (found : Found) (expected : Expected)
  | noLabels (elements : Nat)
  | missingField (name : String)
  | duplicateField (name : String)
  | timestampOutOfRange (seconds : Int)
  | other (text : String)
deriving DecidableEq

def Error.message : Error → String
  | .endInValue => "EOF while parsing a value"
  | .endInList => "EOF while parsing a list"
  | .endInObject => "EOF while parsing an object"
  | .endInText => "EOF while parsing a string"
  | .valueExpected => "expected value"
  | .wordExpected => "expected ident"
  | .colonExpected => "expected \x60:\x60"
  | .listCommaExpected => "expected \x60,\x60 or \x60]\x60"
  | .objectCommaExpected => "expected \x60,\x60 or \x60\x7d\x60"
  | .keyExpected => "key must be a string"
  | .trailingComma => "trailing comma"
  | .trailingCharacters => "trailing characters"
  | .badNumber => "invalid number"
  | .numberOutOfRange => "number out of range"
  | .badEscape => "invalid escape"
  | .controlCharacter => "control character (\\u0000-\\u001F) found while parsing a string"
  | .badUnicode => "invalid unicode code point"
  | .loneSurrogate => "lone leading surrogate in hex escape"
  | .endOfSurrogate => "unexpected end of hex escape"
  | .invalidType found expected =>
    "invalid type: " ++ found.message ++ ", expected " ++ expected.message
  | .invalidValue found expected =>
    "invalid value: " ++ found.message ++ ", expected " ++ expected.message
  | .noLabels elements =>
    "invalid length " ++ toString elements ++ ", expected struct Event with 1 element"
  | .missingField name => "missing field \x60" ++ name ++ "\x60"
  | .duplicateField name => "duplicate field \x60" ++ name ++ "\x60"
  | .timestampOutOfRange seconds => "timestamp out of range: " ++ toString seconds ++ " seconds"
  | .other text => text

end AlertSilences.Json
