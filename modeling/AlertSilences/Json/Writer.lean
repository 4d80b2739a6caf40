import AlertSilences.Json.Text

/-! Writing values without any white space. -/

namespace AlertSilences.Json

def writeNatural (n : Nat) : Bytes := (Nat.toDigits 10 n).map ascii

def writeInteger (n : Int) : Bytes :=
  if n < 0 then ascii '-' :: writeNatural n.natAbs else writeNatural n.natAbs

def separated : List Bytes → Bytes
  | [] => []
  | part :: parts => part ++ parts.flatMap (ascii ',' :: ·)

def writeList (elements : List Bytes) : Bytes := ascii '[' :: separated elements ++ [ascii ']']

def writeMember (name : String) (value : Bytes) : Bytes := writeText name ++ ascii ':' :: value

def writeMap (members : List (String × Bytes)) : Bytes :=
  ascii '\x7b' :: separated (members.map fun m => writeMember m.1 m.2) ++ [ascii '\x7d']

end AlertSilences.Json
