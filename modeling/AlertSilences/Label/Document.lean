import AlertSilences.Json.Value
import AlertSilences.Json.Writer
import AlertSilences.Label

/-! Labels and events as documents. A map of labels is written in the order of the
names; of members with equal names the last one counts when it is read. -/

namespace AlertSilences

open Json

namespace Labels

def write (labels : Labels) : Bytes := writeMap (labels.toList.map fun e => (e.1, writeText e.2))

def readEntry (labels : Labels) (name : String) : Reader Labels := fun s =>
  (readMember readString s).map fun r => (labels.insert name r.1, r.2)

def read : Reader Labels := fun s =>
  match dropBlank s with
  | [] => .error .endInValue
  | b :: rest =>
    if b = ascii '\x7b' then readMap readEntry ∅ rest else refuse .map (b :: rest)

end Labels

namespace Event

def write (event : Event) : Bytes := writeMap [("labels", event.labels.write)]

def readEntry (labels : Option Labels) (key : String) : Reader (Option Labels) := fun s =>
  if key = "labels" then
    if labels.isSome then .error (.duplicateField key)
    else (readMember Labels.read s).map fun r => (some r.1, r.2)
  else (skipMember s).map fun rest => (labels, rest)

/-- An event written as a list has its labels as the only element. -/
def readPositional : Reader Event := fun s => do
  match ← nextElement true s with
  | none => throw (.noLabels 0)
  | some s =>
    let (labels, s) ← Labels.read s
    return (⟨labels⟩, ← endList s)

def read : Reader Event := fun s =>
  match dropBlank s with
  | [] => .error .endInValue
  | b :: rest =>
    if b = ascii '\x7b' then do
      match ← readMap readEntry none rest with
      | (some labels, rest) => return (⟨labels⟩, rest)
      | (none, _) => throw (.missingField "labels")
    else if b = ascii '[' then readPositional rest
    else refuse .event (b :: rest)

def decode (document : Bytes) : Except Error Event := finish (read document)

end Event

end AlertSilences
