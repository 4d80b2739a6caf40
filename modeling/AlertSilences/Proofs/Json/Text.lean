import AlertSilences.Json.Writer
import Mathlib.Tactic.SplitIfs

/-! A text that was written is read back, whatever characters it is made of. Escaping goes byte by
byte, so this holds of any bytes; that they are the bytes of a text only matters at the end. -/

namespace AlertSilences

theorem Text.ofBytes?_bytes (text : String) : ofBytes? (bytes text) = some text := by
  unfold ofBytes? bytes
  rw [Array.toArray_toList, String.fromUTF8?, dif_pos text.isValidUTF8]
  rfl

namespace Json

@[simp] theorem readBytes_quote (acc s : Bytes) :
    readBytes acc (quote :: s) = .ok (acc.reverse, s) := by
  rw [readBytes.eq_def]
  simp

theorem readBytes_plain {b : UInt8} (hq : b ≠ quote) (hs : b ≠ backslash) (hc : ¬b < 0x20)
    (acc s : Bytes) : readBytes acc (b :: s) = readBytes (b :: acc) s := by
  rw [readBytes.eq_def]
  simp only [if_neg hq, if_neg hs, if_neg hc]

theorem readBytes_letter {e c : UInt8} (hu : e ≠ ascii 'u') (hc : letterEscape? e = some c)
    (acc s : Bytes) : readBytes acc (backslash :: e :: s) = readBytes (c :: acc) s := by
  have hq : backslash ≠ quote := by decide
  rw [readBytes.eq_def]
  simp only [if_neg hq, if_true, if_neg hu, hc]

theorem readBytes_point {h₁ h₂ h₃ h₄ : UInt8} {n : Nat} (hn : hexValues? h₁ h₂ h₃ h₄ = some n)
    (hp : n < 0xd800 ∨ 0xdfff < n) (acc s : Bytes) :
    readBytes acc (backslash :: ascii 'u' :: h₁ :: h₂ :: h₃ :: h₄ :: s) =
      readBytes (pushPoint n acc) s := by
  have hq : backslash ≠ quote := by decide
  have htrail : isTrailing n = false := by simp [isTrailing]; omega
  have hlead : isLeading n = false := by simp [isLeading]; omega
  rw [readBytes.eq_def]
  simp only [if_neg hq, if_true, hn, htrail, hlead, Bool.false_eq_true, if_false]

theorem hexValues?_hexDigit {n : Nat} (h : n < 0x20) :
    hexValues? (ascii '0') (ascii '0') (hexDigit (n / 16)) (hexDigit (n % 16)) = some n := by
  revert n
  decide

theorem pushPoint_toNat {b : UInt8} (h : b < 0x20) (acc : Bytes) :
    pushPoint b.toNat acc = b :: acc := by
  have hlt : b.toNat < 0x20 := h
  have hvalid : b.toNat.isValidChar := Or.inl (by omega)
  have hchar : (Char.ofNat b.toNat).val.toNat = b.toNat := by
    rw [Char.ofNat, dif_pos hvalid]
    rfl
  rw [pushPoint, String.utf8EncodeChar, hchar, if_pos (by omega), UInt8.ofNat_toNat]
  rfl

/-- A byte that is escaped reads as itself. -/
theorem readBytes_escapeByte (b : UInt8) (acc s : Bytes) :
    readBytes acc (escapeByte b ++ s) = readBytes (b :: acc) s := by
  unfold escapeByte
  split_ifs with hesc h h h h h hc
  · have hb : b = quote ∨ b = backslash := by simpa using hesc
    rcases hb with rfl | rfl
    · exact readBytes_letter (by decide) (by decide) acc s
    · exact readBytes_letter (by decide) (by decide) acc s
  · subst h
    exact readBytes_letter (by decide) (by decide) acc s
  · subst h
    exact readBytes_letter (by decide) (by decide) acc s
  · subst h
    exact readBytes_letter (by decide) (by decide) acc s
  · subst h
    exact readBytes_letter (by decide) (by decide) acc s
  · subst h
    exact readBytes_letter (by decide) (by decide) acc s
  · have hlt : b.toNat < 0x20 := hc
    rw [← pushPoint_toNat hc acc]
    exact readBytes_point (hexValues?_hexDigit hlt) (Or.inl (by omega)) acc s
  · have hb : b ≠ quote ∧ b ≠ backslash := by simpa using hesc
    exact readBytes_plain hb.1 hb.2 hc acc s

theorem readBytes_written (bytes acc s : Bytes) :
    readBytes acc (bytes.flatMap escapeByte ++ quote :: s) = .ok (acc.reverse ++ bytes, s) := by
  induction bytes generalizing acc with
  | nil => simp
  | cons b bytes ih =>
    rw [List.flatMap_cons, List.append_assoc, readBytes_escapeByte, ih]
    simp

theorem writeText_append (text : String) (s : Bytes) :
    writeText text ++ s = quote :: ((Text.bytes text).flatMap escapeByte ++ quote :: s) := by
  simp [writeText]

/-- What follows the opening quote of a written text reads as that text. -/
@[simp] theorem readText_written (text : String) (s : Bytes) :
    readText ((Text.bytes text).flatMap escapeByte ++ quote :: s) = .ok (text, s) := by
  rw [readText, readBytes_written]
  simp only [List.reverse_nil, List.nil_append, Text.ofBytes?_bytes]

end Json

end AlertSilences
