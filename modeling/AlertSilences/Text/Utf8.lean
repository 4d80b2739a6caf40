/-! Texts as bytes. -/

namespace AlertSilences

abbrev Bytes := List UInt8

namespace Text

def bytes (text : String) : Bytes := text.toByteArray.data.toList

def ofBytes? (bytes : Bytes) : Option String := String.fromUTF8? ⟨bytes.toArray⟩

def isTail (b : UInt8) : Bool := 0x80 ≤ b && b ≤ 0xbf

/-- How many bytes a character takes, by its first byte, and the range of the second;
none for a byte that starts no character. -/
def lead? (b : UInt8) : Option (Nat × UInt8 × UInt8) :=
  if b ≤ 0x7f then some (1, 0, 0)
  else if 0xc2 ≤ b && b ≤ 0xdf then some (2, 0x80, 0xbf)
  else if b = 0xe0 then some (3, 0xa0, 0xbf)
  else if b = 0xed then some (3, 0x80, 0x9f)
  else if 0xe1 ≤ b && b ≤ 0xef then some (3, 0x80, 0xbf)
  else if b = 0xf0 then some (4, 0x90, 0xbf)
  else if 0xf1 ≤ b && b ≤ 0xf3 then some (4, 0x80, 0xbf)
  else if b = 0xf4 then some (4, 0x80, 0x8f)
  else none

/-- How many of the bytes belong together at the front, and whether they are a character. -/
def front (b : UInt8) (rest : Bytes) : Nat × Bool :=
  match lead? b with
  | none => (1, false)
  | some (1, _, _) => (1, true)
  | some (n, low, high) =>
    match rest with
    | [] => (1, false)
    | c :: more =>
      if low ≤ c && c ≤ high then
        let tails := (more.take (n - 2)).takeWhile isTail
        (2 + tails.length, tails.length == n - 2)
      else (1, false)

def replacement : Bytes := [0xef, 0xbf, 0xbd]

/-- Replaces each run of bytes that could start a character but is none by one mark. `skip` bytes
of a run are already told for. -/
def repair (skip : Nat) : Bytes → List Bytes
  | [] => []
  | b :: rest =>
    match skip with
    | k + 1 => repair k rest
    | 0 =>
      let (n, whole) := front b rest
      (if whole then (b :: rest).take n else replacement) :: repair (n - 1) rest

/-- The text of any bytes; what is not UTF-8 becomes the replacement character. -/
def ofBytes (bytes : Bytes) : String :=
  match ofBytes? bytes with
  | some text => text
  | none => (ofBytes? (repair 0 bytes).flatten).getD ""

end Text

end AlertSilences
