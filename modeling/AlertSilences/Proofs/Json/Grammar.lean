import AlertSilences.Json.Writer
import Mathlib.Algebra.Group.Int.Defs
import Mathlib.Data.Bool.AllAny

/-! What a document may look like: values as trees, and all the bytes that stand for each of them.
White space is free between any two signs and a text may be escaped in many ways. Of numbers only
the integers are told apart. -/

namespace AlertSilences.Json

def Blank (s : Bytes) : Prop := ∀ b ∈ s, b ∈ [ascii ' ', ascii '\t', ascii '\n', ascii '\r']

instance (s : Bytes) : Decidable (Blank s) :=
  decidable_of_iff (s.all (· ∈ [ascii ' ', ascii '\t', ascii '\n', ascii '\r'])) (by simp [Blank])

def Digits (s : Bytes) : Prop :=
  ∃ digits : List Char, digits ≠ [] ∧ (∀ c ∈ digits, c.isDigit = true) ∧ s = digits.map ascii

section Texts

/-- Letters that stand for a byte when a backslash is before them. -/
def letters : List (UInt8 × UInt8) :=
  [(quote, quote), (backslash, backslash), (ascii '/', ascii '/'), (ascii 'b', 0x08),
    (ascii 'f', 0x0c), (ascii 'n', 0x0a), (ascii 'r', 0x0d), (ascii 't', 0x09)]

def hexDigits : List (UInt8 × Nat) :=
  ("0123456789abcdef".toList.zipIdx ++ "ABCDEF".toList.zipIdx 10).map fun d => (ascii d.1, d.2)

structure HexDigit where
  byte : UInt8
  value : Nat
  mem : (byte, value) ∈ hexDigits

structure CodeUnit where
  h₁ : HexDigit
  h₂ : HexDigit
  h₃ : HexDigit
  h₄ : HexDigit

def CodeUnit.value (u : CodeUnit) : Nat :=
  ((16 * u.h₁.value + u.h₂.value) * 16 + u.h₃.value) * 16 + u.h₄.value

/-- A piece of a text: a byte that stands for itself, or a byte or a code unit that is escaped. -/
inductive Piece
  | plain (b : UInt8) (h : 0x20 ≤ b ∧ b ≠ quote ∧ b ≠ backslash)
  | letter (e b : UInt8) (h : (e, b) ∈ letters)
  | unit (u : CodeUnit)

def Piece.bytes : Piece → Bytes
  | .plain b _ => [b]
  | .letter e _ _ => [backslash, e]
  | .unit u => [backslash, ascii 'u', u.h₁.byte, u.h₂.byte, u.h₃.byte, u.h₄.byte]

def quoted (pieces : List Piece) : Bytes := quote :: pieces.flatMap Piece.bytes ++ [quote]

def encoded (point : Nat) : Bytes := String.utf8EncodeChar (Char.ofNat point)

/-- The bytes that the pieces of a text stand for. There are none if a surrogate is not one of a
pair. -/
def meaning? : List Piece → Option Bytes
  | [] => some []
  | .plain b _ :: rest => (meaning? rest).map (b :: ·)
  | .letter _ b _ :: rest => (meaning? rest).map (b :: ·)
  | .unit u :: rest =>
    if u.value < 0xd800 ∨ 0xdfff < u.value then (meaning? rest).map (encoded u.value ++ ·)
    else
      match rest with
      | .unit v :: rest =>
        if u.value ≤ 0xdbff ∧ 0xdc00 ≤ v.value ∧ v.value ≤ 0xdfff then
          (meaning? rest).map
            (encoded (0x10000 + (u.value - 0xd800) * 0x400 + (v.value - 0xdc00)) ++ ·)
        else none
      | _ => none

/-- The text that pieces stand for, if what they stand for is one. -/
def text? (pieces : List Piece) : Option String := (meaning? pieces).bind Text.ofBytes?

end Texts

section Numbers

/-- Nothing, or a point and digits. -/
def Fraction (s : Bytes) : Prop := s = [] ∨ ∃ digits, Digits digits ∧ s = ascii '.' :: digits

/-- Nothing, or a mark, a sign that may be left out, and digits. -/
def Exponent (s : Bytes) : Prop :=
  s = [] ∨ ∃ mark sign digits, mark ∈ [ascii 'e', ascii 'E'] ∧
    sign ∈ [[], [ascii '+'], [ascii '-']] ∧ Digits digits ∧ s = mark :: (sign ++ digits)

/-- A number that is not written as an integer. Zero with a sign is not an integer. -/
structure RealNumeral where
  minus : Bool
  whole : Nat
  fraction : Bytes
  exponent : Bytes
  is_fraction : Fraction fraction
  is_exponent : Exponent exponent
  real : fraction ≠ [] ∨ exponent ≠ [] ∨ minus = true ∧ whole = 0

def RealNumeral.bytes (x : RealNumeral) : Bytes :=
  (if x.minus then [ascii '-'] else []) ++ (writeNatural x.whole ++ (x.fraction ++ x.exponent))

end Numbers

inductive Tree
  | null
  | boolean (value : Bool)
  | integer (n : Int)
  | real
  | text (pieces : List Piece)
  | list (elements : List Tree)
  | map (members : List (List Piece × Tree))

namespace Tree

/-- What a value stands for where a word without a sign is expected. -/
def unsigned? : Tree → Option UInt64
  | .integer n => if 0 ≤ n ∧ n < 2 ^ 64 then some (.ofNat n.toNat) else none
  | _ => none

def signed? : Tree → Option Int64
  | .integer n => if -2 ^ 63 ≤ n ∧ n < 2 ^ 63 then some (.ofInt n) else none
  | _ => none

def string? : Tree → Option String
  | .text pieces => text? pieces
  | _ => none

/-- Where null may stand for `default`. -/
def orNull {α : Type} (default : α) (value? : Tree → Option α) : Tree → Option α
  | .null => some default
  | t => value? t

end Tree

structure Padded where
  before : Bytes
  core : Bytes
  after : Bytes
  blank_before : Blank before
  blank_after : Blank after

def Padded.bytes (p : Padded) : Bytes := p.before ++ (p.core ++ p.after)

structure Member where
  before : Bytes
  key : List Piece
  after : Bytes
  value : Padded
  blank_before : Blank before
  blank_after : Blank after

def Member.bytes (m : Member) : Bytes :=
  m.before ++ (quoted m.key ++ (m.after ++ ascii ':' :: m.value.bytes))

/-- The bytes that stand for a value. -/
inductive Spells : Tree → Bytes → Prop
  | null : Spells .null (ascii 'n' :: [ascii 'u', ascii 'l', ascii 'l'])
  | isFalse : Spells (.boolean false) (ascii 'f' :: [ascii 'a', ascii 'l', ascii 's', ascii 'e'])
  | isTrue : Spells (.boolean true) (ascii 't' :: [ascii 'r', ascii 'u', ascii 'e'])
  | integer (n : Int) : Spells (.integer n) (writeInteger n)
  | real (x : RealNumeral) : Spells .real x.bytes
  | text (pieces : List Piece) : Spells (.text pieces) (quoted pieces)
  | emptyList {blank : Bytes} (h : Blank blank) :
      Spells (.list []) (ascii '[' :: (blank ++ [ascii ']']))
  | list {parts : List (Tree × Padded)} (nonempty : parts ≠ [])
      (each : ∀ p ∈ parts, Spells p.1 p.2.core) :
      Spells (.list (parts.map Prod.fst))
        (ascii '[' :: (separated (parts.map (·.2.bytes)) ++ [ascii ']']))
  | emptyMap {blank : Bytes} (h : Blank blank) :
      Spells (.map []) (ascii '\x7b' :: (blank ++ [ascii '\x7d']))
  | map {parts : List (Tree × Member)} (nonempty : parts ≠ [])
      (each : ∀ p ∈ parts, Spells p.1 p.2.value.core) :
      Spells (.map (parts.map fun p => (p.2.key, p.1)))
        (ascii '\x7b' :: (separated (parts.map (·.2.bytes)) ++ [ascii '\x7d']))

/-- A document that is one value between white space. -/
def Document (t : Tree) (document : Bytes) : Prop :=
  ∃ p : Padded, Spells t p.core ∧ document = p.bytes

end AlertSilences.Json
