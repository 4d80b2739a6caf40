import AlertSilences.Json.Scan

/-! Texts in a document. A quote, a backslash and the controls are escaped when
written; any character may be escaped when read, those beyond the basic plane as a
pair of surrogates. -/

namespace AlertSilences.Json

def quote : UInt8 := ascii '"'

def backslash : UInt8 := ascii '\\'

def hexDigit (n : Nat) : UInt8 := if n < 10 then 0x30 + UInt8.ofNat n else 0x57 + UInt8.ofNat n

def escapeByte (b : UInt8) : Bytes :=
  if b = quote || b = backslash then [backslash, b]
  else if b = 0x08 then [backslash, ascii 'b']
  else if b = 0x0c then [backslash, ascii 'f']
  else if b = 0x0a then [backslash, ascii 'n']
  else if b = 0x0d then [backslash, ascii 'r']
  else if b = 0x09 then [backslash, ascii 't']
  else if b < 0x20 then
    [backslash, ascii 'u', ascii '0', ascii '0', hexDigit (b.toNat / 16), hexDigit (b.toNat % 16)]
  else [b]

def writeText (text : String) : Bytes :=
  quote :: (Text.bytes text).flatMap escapeByte ++ [quote]

def hexValue? (b : UInt8) : Option Nat :=
  if 0x30 ≤ b && b ≤ 0x39 then some (b.toNat - 0x30)
  else if 0x61 ≤ b && b ≤ 0x66 then some (b.toNat - 0x57)
  else if 0x41 ≤ b && b ≤ 0x46 then some (b.toNat - 0x37)
  else none

def hexValues? (a b c d : UInt8) : Option Nat := do
  some (((16 * (← hexValue? a) + (← hexValue? b)) * 16 + (← hexValue? c)) * 16 + (← hexValue? d))

/-- What one letter after a backslash stands for. -/
def letterEscape? (b : UInt8) : Option UInt8 :=
  if b = quote || b = backslash || b = ascii '/' then some b
  else if b = ascii 'b' then some 0x08
  else if b = ascii 'f' then some 0x0c
  else if b = ascii 'n' then some 0x0a
  else if b = ascii 'r' then some 0x0d
  else if b = ascii 't' then some 0x09
  else none

def isLeading (n : Nat) : Bool := 0xd800 ≤ n && n ≤ 0xdbff

def isTrailing (n : Nat) : Bool := 0xdc00 ≤ n && n ≤ 0xdfff

/-- The character that two surrogates stand for. -/
def joined (lead trail : Nat) : Nat := 0x10000 + (lead - 0xd800) * 0x400 + (trail - 0xdc00)

def pushPoint (n : Nat) (acc : Bytes) : Bytes :=
  (String.utf8EncodeChar (Char.ofNat n)).reverse ++ acc

/-- The bytes of a text after its opening quote, onto those before them in reverse. -/
def readBytes (acc : Bytes) : Bytes → Except Error (Bytes × Bytes)
  | [] => .error .endInText
  | b :: s =>
    if b = quote then .ok (acc.reverse, s)
    else if b = backslash then
      match s with
      | [] => .error .endInText
      | e :: s =>
        if e = ascii 'u' then
          match s with
          | h₁ :: h₂ :: h₃ :: h₄ :: s =>
            match hexValues? h₁ h₂ h₃ h₄ with
            | none => .error .badEscape
            | some n =>
              if isTrailing n then .error .loneSurrogate
              else if isLeading n then
                match s with
                | [] => .error .endInText
                | b₁ :: s =>
                  if b₁ ≠ backslash then .error .endOfSurrogate
                  else
                    match s with
                    | [] => .error .endInText
                    | b₂ :: s =>
                      if b₂ ≠ ascii 'u' then .error .endOfSurrogate
                      else
                        match s with
                        | t₁ :: t₂ :: t₃ :: t₄ :: s =>
                          match hexValues? t₁ t₂ t₃ t₄ with
                          | none => .error .badEscape
                          | some m =>
                            if isTrailing m then readBytes (pushPoint (joined n m) acc) s
                            else .error .loneSurrogate
                        | _ => .error .endInText
              else readBytes (pushPoint n acc) s
          | _ => .error .endInText
        else
          match letterEscape? e with
          | some c => readBytes (c :: acc) s
          | none => .error .badEscape
    else if b < 0x20 then .error .controlCharacter
    else readBytes (b :: acc) s

def readText : Reader String := fun s =>
  match readBytes [] s with
  | .error e => .error e
  | .ok (bytes, rest) =>
    match Text.ofBytes? bytes with
    | some text => .ok (text, rest)
    | none => .error .badUnicode

/-- Passes over a text that is not kept: surrogates and bytes may be anything. -/
def skipText : Bytes → Except Error Bytes
  | [] => .error .endInText
  | b :: s =>
    if b = quote then .ok s
    else if b = backslash then
      match s with
      | [] => .error .endInText
      | e :: s =>
        if e = ascii 'u' then
          match s with
          | h₁ :: h₂ :: h₃ :: h₄ :: s =>
            match hexValues? h₁ h₂ h₃ h₄ with
            | none => .error .badEscape
            | some _ => skipText s
          | _ => .error .endInText
        else
          match letterEscape? e with
          | some _ => skipText s
          | none => .error .badEscape
    else if b < 0x20 then .error .controlCharacter
    else skipText s

end AlertSilences.Json
