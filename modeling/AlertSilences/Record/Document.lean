import AlertSilences.Label.Document
import AlertSilences.Record

/-! Records as documents. A record is written as a map with all its fields in a fixed
order. When read it may be a map in any order or a list in the fixed order; fields may
be missing, and members of other names are passed over. -/

namespace AlertSilences

open Json

namespace Record

def write (r : Record) : Bytes :=
  writeMap [("id", writeNatural r.id.toNat), ("createdBy", writeText r.createdBy),
    ("createdAtSeconds", writeInteger r.createdAtSeconds.toInt),
    ("endsAtSeconds", writeInteger r.endsAtSeconds.toInt),
    ("comment", writeText r.comment), ("filters", r.filters.write)]

/-- The fields met so far. -/
structure Draft where
  id : Option UInt64
  createdBy : Option String
  createdAtSeconds : Option Int64
  endsAtSeconds : Option Int64
  comment : Option String
  filters : Option Labels

namespace Draft

def blank : Draft := ⟨none, none, none, none, none, none⟩

def toRecord (d : Draft) : Record :=
  ⟨d.id.getD 0, d.createdBy.getD "", d.createdAtSeconds.getD 0, d.endsAtSeconds.getD 0,
    d.comment.getD "", d.filters.getD ∅⟩

end Draft

/-- The value of a field, which must be the first of its name. -/
def readOnce {α : Type} (key : String) (before : Option α) (read : Reader α) : Reader α := fun s =>
  if before.isSome then .error (.duplicateField key) else readMember read s

def readTextOrNull : Reader String := readOrNull "" readString

def readLabelsOrNull : Reader Labels := readOrNull ∅ Labels.read

def readEntry (d : Draft) (key : String) : Reader Draft := fun s => do
  if key = "id" then
    let (id, rest) ← readOnce key d.id readUnsigned s
    return ({ d with id := some id }, rest)
  else if key = "createdBy" then
    let (name, rest) ← readOnce key d.createdBy readTextOrNull s
    return ({ d with createdBy := some name }, rest)
  else if key = "createdAtSeconds" then
    let (second, rest) ← readOnce key d.createdAtSeconds readSigned s
    return ({ d with createdAtSeconds := some second }, rest)
  else if key = "endsAtSeconds" then
    let (second, rest) ← readOnce key d.endsAtSeconds readSigned s
    return ({ d with endsAtSeconds := some second }, rest)
  else if key = "comment" then
    let (comment, rest) ← readOnce key d.comment readTextOrNull s
    return ({ d with comment := some comment }, rest)
  else if key = "filters" then
    let (filters, rest) ← readOnce key d.filters readLabelsOrNull s
    return ({ d with filters := some filters }, rest)
  else
    return (d, ← skipMember s)

/-- One field of a record written as a list; behind the end of the list it has its default. -/
def readElement {α : Type} (first : Bool) (default : α) (read : Reader α) : Reader α := fun s =>
  match nextElement first s with
  | .error e => .error e
  | .ok none => .ok (default, s)
  | .ok (some s) => read s

def readPositional : Reader Record := fun s => do
  let (id, s) ← readElement true 0 readUnsigned s
  let (createdBy, s) ← readElement false "" readTextOrNull s
  let (createdAtSeconds, s) ← readElement false 0 readSigned s
  let (endsAtSeconds, s) ← readElement false 0 readSigned s
  let (comment, s) ← readElement false "" readTextOrNull s
  let (filters, s) ← readElement false ∅ readLabelsOrNull s
  return (⟨id, createdBy, createdAtSeconds, endsAtSeconds, comment, filters⟩, ← endList s)

def read : Reader Record := fun s =>
  match dropBlank s with
  | [] => .error .endInValue
  | b :: rest =>
    if b = ascii '\x7b' then (readMap readEntry .blank rest).map fun r => (r.1.toRecord, r.2)
    else if b = ascii '[' then readPositional rest
    else refuse .record (b :: rest)

def decode (document : Bytes) : Except Error Record := finish (read document)

def decodeAll (document : Bytes) : Except Error (List Record) :=
  finish (readList (fun _ => read) document)

end Record

namespace SilenceOf

variable {Time : Type} [TimeScale Time]

def write (s : SilenceOf Time) : Bytes := (Record.ofSilence s).write

def encodeAll (silences : List (SilenceOf Time)) : Bytes := writeList (silences.map write)

end SilenceOf

namespace Silence

abbrev write (s : Silence) : Bytes := SilenceOf.write s

/-- A record whose times are looked at as soon as it ends. -/
def read (now : Instant) : Reader Silence := fun s =>
  match Record.read s with
  | .error e => .error e
  | .ok (record, rest) =>
    match record.toSilence now with
    | .error seconds => .error (.timestampOutOfRange seconds)
    | .ok silence => .ok (silence, rest)

def decode (now : Instant) (document : Bytes) : Except Error Silence := finish (read now document)

abbrev encodeAll (silences : List Silence) : Bytes := SilenceOf.encodeAll silences

/-- All silences of a document or the first error; `clock` is read once for each record. -/
def decodeAll (clock : Nat → Instant) (document : Bytes) : Except Error (List Silence) :=
  finish (readList (fun index => read (clock index)) document)

end Silence

end AlertSilences
