import AlertSilences.Json.Number
import AlertSilences.Json.Skip

/-! Values of the kinds that records are made of. A value of another kind is read to
its end, or to its bracket, and named in the error. -/

namespace AlertSilences.Json

def refused {α : Type} (expected : Expected) (found : Found) : Except Error α :=
  .error (.invalidType found expected)

/-- Reads a value that is not of the expected kind. -/
def refuse {α : Type} (expected : Expected) (s : Bytes) : Except Error α :=
  match s with
  | [] => .error .endInValue
  | b :: rest =>
    let word (letters : List UInt8) (found : Found) :=
      (readWord letters rest).bind fun _ => refused expected found
    if b = ascii 'n' then word [ascii 'u', ascii 'l', ascii 'l'] .null
    else if b = ascii 't' then word [ascii 'r', ascii 'u', ascii 'e'] (.boolean true)
    else if b = ascii 'f' then
      word [ascii 'a', ascii 'l', ascii 's', ascii 'e'] (.boolean false)
    else if b = ascii '-' then (readNumeral true rest).bind fun n => refused expected n.1.found
    else if isDigit b then (readNumeral false s).bind fun n => refused expected n.1.found
    else if b = quote then (readText rest).bind fun t => refused expected (.text t.1)
    else if b = ascii '[' then refused expected .sequence
    else if b = ascii '\x7b' then refused expected .map
    else .error .valueExpected

def readNumber (expected : Expected) : Reader Numeral := fun s =>
  match dropBlank s with
  | [] => .error .endInValue
  | b :: rest =>
    if b = ascii '-' then readNumeral true rest
    else if isDigit b then readNumeral false (b :: rest)
    else refuse expected (b :: rest)

def readUnsigned : Reader UInt64 := fun s =>
  match readNumber .unsigned s with
  | .error e => .error e
  | .ok (.natural n, rest) => .ok (UInt64.ofNat n, rest)
  | .ok (.negative n, _) => .error (.invalidValue (.integer (-n)) .unsigned)
  | .ok (.real minus size, _) => refused .unsigned (.real minus size)

def readSigned : Reader Int64 := fun s =>
  match readNumber .signed s with
  | .error e => .error e
  | .ok (.natural n, rest) =>
    if n < Nat.pow 2 63 then .ok (Int64.ofNat n, rest)
    else .error (.invalidValue (.integer n) .signed)
  | .ok (.negative n, rest) => .ok (Int64.ofInt (-n), rest)
  | .ok (.real minus size, _) => refused .signed (.real minus size)

def readString : Reader String := fun s =>
  match dropBlank s with
  | [] => .error .endInValue
  | b :: rest => if b = quote then readText rest else refuse .text (b :: rest)

/-- A value that may be null, which stands for `default`. -/
def readOrNull {α : Type} (default : α) (read : Reader α) : Reader α := fun s =>
  match dropBlank s with
  | [] => .error .endInValue
  | b :: rest =>
    if b = ascii 'n' then
      (readWord [ascii 'u', ascii 'l', ascii 'l'] rest).map fun rest => (default, rest)
    else read (b :: rest)

def readColon (s : Bytes) : Except Error Bytes :=
  match dropBlank s with
  | [] => .error .endInObject
  | b :: rest => if b = ascii ':' then .ok rest else .error .colonExpected

/-- In a list: the rest at the next element, or none at the closing bracket. -/
def nextElement (first : Bool) (s : Bytes) : Except Error (Option Bytes) :=
  match dropBlank s with
  | [] => .error .endInList
  | b :: rest =>
    if b = ascii ']' then .ok none
    else if first then .ok (some (b :: rest))
    else if b = ascii ',' then
      match dropBlank rest with
      | [] => .error .endInValue
      | c :: rest => if c = ascii ']' then .error .trailingComma else .ok (some (c :: rest))
    else .error .listCommaExpected

/-- The end of a list that has no room for more elements. -/
def endList (s : Bytes) : Except Error Bytes :=
  match dropBlank s with
  | [] => .error .endInList
  | b :: rest =>
    if b = ascii ']' then .ok rest
    else if b = ascii ',' && startsWith (· = ascii ']') (dropBlank rest) then
      .error .trailingComma
    else .error .trailingCharacters

/-- In a map: the rest behind the quote that opens the next key, or none, with the rest behind
the closing brace. -/
def nextKey (first : Bool) (s : Bytes) : Except Error (Bool × Bytes) :=
  match dropBlank s with
  | [] => .error .endInObject
  | b :: rest =>
    if b = ascii '\x7d' then .ok (false, rest)
    else if first then
      if b = quote then .ok (true, rest) else .error .keyExpected
    else if b = ascii ',' then
      match dropBlank rest with
      | [] => .error .endInValue
      | c :: rest =>
        if c = quote then .ok (true, rest)
        else if c = ascii '\x7d' then .error .trailingComma
        else .error .keyExpected
    else .error .objectCommaExpected

/-- The elements of a list after its opening bracket, onto those before them in reverse; a reader
of elements knows how many came before. There are not more rounds than `bound` is long. -/
def readElements {α : Type} (element : Nat → Reader α) :
    Bytes → Nat → List α → Reader (List α)
  | [], _, _, _ => .error .endInList
  | _ :: bound, index, acc, s =>
    match nextElement (index == 0) s with
    | .error e => .error e
    | .ok none => .ok (acc.reverse, (dropBlank s).drop 1)
    | .ok (some s) =>
      match element index s with
      | .error e => .error e
      | .ok (a, rest) => readElements element bound (index + 1) (a :: acc) rest

/-- A list. The text is as long a bound as its elements need. -/
def readList {α : Type} (element : Nat → Reader α) : Reader (List α) := fun s =>
  match dropBlank s with
  | [] => .error .endInValue
  | b :: rest =>
    if b = ascii '[' then readElements element s 0 [] rest
    else refuse .sequence (b :: rest)

/-- The members of a map after its opening brace; `member` reads what follows a key. There are not
more rounds than `bound` is long. -/
def readMembers {σ : Type} (member : σ → String → Reader σ) : Bytes → Bool → σ → Reader σ
  | [], _, _, _ => .error .endInObject
  | _ :: bound, first, state, s =>
    match nextKey first s with
    | .error e => .error e
    | .ok (false, rest) => .ok (state, rest)
    | .ok (true, rest) =>
      match readText rest with
      | .error e => .error e
      | .ok (key, rest) =>
        match member state key rest with
        | .error e => .error e
        | .ok (state, rest) => readMembers member bound false state rest

/-- A map after its opening brace. The text is as long a bound as its members need. -/
def readMap {σ : Type} (member : σ → String → Reader σ) (start : σ) (s : Bytes) :
    Except Error (σ × Bytes) :=
  readMembers member (0 :: s) true start s

def readMember {α : Type} (read : Reader α) : Reader α := fun s =>
  match readColon s with
  | .error e => .error e
  | .ok rest => read rest

/-- A member whose key means nothing here. -/
def skipMember (s : Bytes) : Except Error Bytes :=
  match readColon s with
  | .error e => .error e
  | .ok rest => skipValue rest

end AlertSilences.Json
