import AlertSilences.Json.Text

/-! Passing over a value that is not kept. Only its syntax is looked at, and the
brackets that are open are a list, so values may be nested to any depth. -/

namespace AlertSilences.Json

inductive Bracket
  | list
  | map
deriving DecidableEq

def Bracket.closes (bracket : Bracket) (b : UInt8) : Bool :=
  match bracket with
  | .list => b = ascii ']'
  | .map => b = ascii '\x7d'

def Bracket.endError : Bracket → Error
  | .list => .endInList
  | .map => .endInObject

def Bracket.commaError : Bracket → Error
  | .list => .listCommaExpected
  | .map => .objectCommaExpected

def skipExponent (s : Bytes) : Except Error Bytes :=
  let s := if startsWith (fun b => b = ascii '+' || b = ascii '-') s then s.drop 1 else s
  if startsWith isDigit s then .ok (s.dropWhile isDigit) else .error .badNumber

def isMark (b : UInt8) : Bool := b = ascii 'e' || b = ascii 'E'

def skipFraction (s : Bytes) : Except Error Bytes :=
  if startsWith isDigit s then
    let rest := s.dropWhile isDigit
    if startsWith isMark rest then skipExponent (rest.drop 1) else .ok rest
  else .error .badNumber

/-- Passes over a number after its sign, of any size. -/
def skipNumeral (s : Bytes) : Except Error Bytes :=
  match s with
  | [] => .error .badNumber
  | b :: rest =>
    if !isDigit b then .error .badNumber
    else if b = ascii '0' && startsWith isDigit rest then .error .badNumber
    else
      let rest := rest.dropWhile isDigit
      if startsWith (· = ascii '.') rest then skipFraction (rest.drop 1)
      else if startsWith isMark rest then skipExponent (rest.drop 1)
      else .ok rest

/-- A value without brackets, or the bracket that opens one. -/
def skipScalar (s : Bytes) : Except Error (Option Bracket × Bytes) :=
  match s with
  | [] => .error .endInValue
  | b :: rest =>
    let plain (r : Except Error Bytes) := r.map fun rest => (none, rest)
    if b = ascii 'n' then plain (readWord [ascii 'u', ascii 'l', ascii 'l'] rest)
    else if b = ascii 't' then plain (readWord [ascii 'r', ascii 'u', ascii 'e'] rest)
    else if b = ascii 'f' then plain (readWord [ascii 'a', ascii 'l', ascii 's', ascii 'e'] rest)
    else if b = ascii '-' then plain (skipNumeral rest)
    else if isDigit b then plain (skipNumeral s)
    else if b = quote then plain (skipText rest)
    else if b = ascii '[' then .ok (some .list, rest)
    else if b = ascii '\x7b' then .ok (some .map, rest)
    else .error .valueExpected

def skipKey (s : Bytes) : Except Error Bytes :=
  match dropBlank s with
  | [] => .error .endInObject
  | b :: rest =>
    if b ≠ quote then .error .keyExpected
    else
      match skipText rest with
      | .error e => .error e
      | .ok rest =>
        match dropBlank rest with
        | [] => .error .endInObject
        | c :: rest => if c = ascii ':' then .ok rest else .error .colonExpected

/-- Where the reading stands: before a value; or in an open bracket, just behind it or behind
an element. -/
inductive Place
  | value
  | opened
  | element
deriving DecidableEq

/-- What is left to pass over: a place, the open brackets, innermost first, and the text. -/
structure Unread where
  place : Place
  brackets : List Bracket
  text : Bytes

def Unread.enter (brackets : List Bracket) (s : Bytes) : Except Error Unread :=
  match skipScalar (dropBlank s) with
  | .error e => .error e
  | .ok (some bracket, rest) => .ok ⟨.opened, bracket :: brackets, rest⟩
  | .ok (none, rest) => .ok ⟨.element, brackets, rest⟩

/-- The next element of an open bracket, with its key in a map. -/
def Unread.next (bracket : Bracket) (brackets : List Bracket) (s : Bytes) : Except Error Unread :=
  match bracket with
  | .list => enter (bracket :: brackets) s
  | .map =>
    match skipKey s with
    | .error e => .error e
    | .ok rest => .ok ⟨.value, bracket :: brackets, rest⟩

/-- One round; it takes a byte at least. -/
def Unread.round (u : Unread) : Except Error Unread :=
  match u.place, u.brackets with
  | .value, brackets => enter brackets u.text
  | _, [] => enter [] u.text
  | place, bracket :: brackets =>
    match dropBlank u.text with
    | [] => .error bracket.endError
    | b :: rest =>
      if bracket.closes b then .ok ⟨.element, brackets, rest⟩
      else if place = .opened then next bracket brackets (b :: rest)
      else if b = ascii ',' then next bracket brackets rest
      else .error bracket.commaError

/-- Rounds until no bracket is open, at most as many as `bound` is long. -/
def skipRounds : Bytes → Unread → Except Error Bytes
  | _, ⟨.element, [], s⟩ => .ok s
  | [], _ => .error .endInValue
  | _ :: bound, u =>
    match u.round with
    | .error e => .error e
    | .ok u => skipRounds bound u

/-- Passes over a value. The text is as long a bound as its rounds need. -/
def skipValue (s : Bytes) : Except Error Bytes := skipRounds (0 :: s) ⟨.value, [], s⟩

end AlertSilences.Json
