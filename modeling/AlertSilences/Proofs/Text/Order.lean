import AlertSilences.Text.Utf8
import Mathlib.Tactic.SplitIfs

/-! Texts are ordered as their bytes are. A smaller character has smaller bytes, and none of the
two runs of bytes begins with the other, so what stands behind the first difference is of no
matter. -/

namespace AlertSilences.Text

/-- Of runs of one length the smaller stays smaller with anything behind it. -/
theorem append_lt_append {a b : Bytes} (h : a < b) (hl : a.length = b.length) (x y : Bytes) :
    a ++ x < b ++ y := by
  induction a generalizing b with
  | nil =>
    rw [List.eq_nil_of_length_eq_zero hl.symm] at h
    exact absurd h (List.not_lt_nil _)
  | cons c a ih =>
    cases b with
    | nil => exact absurd h (List.not_lt_nil _)
    | cons d b =>
      rw [List.cons_append, List.cons_append, List.cons_lt_cons_iff]
      rcases List.cons_lt_cons_iff.1 h with hfirst | ⟨rfl, hmore⟩
      · exact .inl hfirst
      · exact .inr ⟨rfl, ih hmore (Nat.succ.inj hl)⟩

theorem ofNat_lt_iff {m n : Nat} (hm : m < 256) (hn : n < 256) :
    UInt8.ofNat m < UInt8.ofNat n ↔ m < n := UInt8.ofNat_lt_iff_lt hm hn

theorem ofNat_inj {m n : Nat} (hm : m < 256) (hn : n < 256) :
    UInt8.ofNat m = UInt8.ofNat n ↔ m = n := by
  rw [← UInt8.toNat_inj, UInt8.toNat_ofNat_of_lt' hm, UInt8.toNat_ofNat_of_lt' hn]

theorem cons_lt_cons_of_le {a b : Nat} {p q : Bytes} (hb : b < 256) (hle : a ≤ b)
    (hmore : a = b → p < q) : UInt8.ofNat a :: p < UInt8.ofNat b :: q := by
  rw [List.cons_lt_cons_iff, ofNat_lt_iff (by omega) hb, ofNat_inj (by omega) hb]
  rcases Nat.lt_or_eq_of_le hle with hlt | heq
  · exact .inl hlt
  · exact .inr ⟨heq, hmore heq⟩

theorem utf8EncodeChar_lt {c d : Char} (h : c < d) (x y : Bytes) :
    String.utf8EncodeChar c ++ x < String.utf8EncodeChar d ++ y := by
  have hlt : c.val.toNat < d.val.toNat := h
  have hd : d.val.toNat < 0x110000 := by
    rcases d.valid with hd | hd <;> omega
  rw [String.utf8EncodeChar, String.utf8EncodeChar]
  generalize c.val.toNat = m at hlt ⊢
  generalize d.val.toNat = n at hlt hd ⊢
  -- a character of more bytes has the larger first byte; of as many bytes, the larger digits
  split_ifs
  all_goals try omega
  · refine append_lt_append ?_ (by rfl) x y
    exact cons_lt_cons_of_le (by omega) (by omega) (by omega)
  · exact cons_lt_cons_of_le (by omega) (by omega) (by omega)
  · exact cons_lt_cons_of_le (by omega) (by omega) (by omega)
  · exact cons_lt_cons_of_le (by omega) (by omega) (by omega)
  · refine append_lt_append ?_ (by rfl) x y
    refine cons_lt_cons_of_le (by omega) (by omega) fun h₁ => ?_
    exact cons_lt_cons_of_le (by omega) (by omega) (by omega)
  · exact cons_lt_cons_of_le (by omega) (by omega) (by omega)
  · exact cons_lt_cons_of_le (by omega) (by omega) (by omega)
  · refine append_lt_append ?_ (by rfl) x y
    refine cons_lt_cons_of_le (by omega) (by omega) fun h₁ => ?_
    refine cons_lt_cons_of_le (by omega) (by omega) fun h₂ => ?_
    exact cons_lt_cons_of_le (by omega) (by omega) (by omega)
  · exact cons_lt_cons_of_le (by omega) (by omega) (by omega)
  · refine append_lt_append ?_ (by rfl) x y
    refine cons_lt_cons_of_le (by omega) (by omega) fun h₁ => ?_
    refine cons_lt_cons_of_le (by omega) (by omega) fun h₂ => ?_
    refine cons_lt_cons_of_le (by omega) (by omega) fun h₃ => ?_
    exact cons_lt_cons_of_le (by omega) (by omega) (by omega)

theorem bytes_eq_flatMap (text : String) :
    bytes text = text.toList.flatMap String.utf8EncodeChar := by
  rw [bytes, ← String.ofList_toList (s := text), String.toByteArray_ofList, String.toList_ofList,
    List.utf8Encode, List.toList_data_toByteArray]

theorem flatMap_lt {l m : List Char} (h : l < m) :
    l.flatMap String.utf8EncodeChar < m.flatMap String.utf8EncodeChar := by
  induction l generalizing m with
  | nil =>
    cases m with
    | nil => exact absurd h (List.not_lt_nil _)
    | cons d m =>
      cases hd : (d :: m).flatMap String.utf8EncodeChar with
      | nil =>
        rw [List.flatMap_cons, List.append_eq_nil_iff] at hd
        exact absurd hd.1 String.utf8EncodeChar_ne_nil
      | cons b more => exact List.nil_lt_cons b more
  | cons c l ih =>
    cases m with
    | nil => exact absurd h (List.not_lt_nil _)
    | cons d m =>
      rw [List.flatMap_cons, List.flatMap_cons]
      rcases List.cons_lt_cons_iff.1 h with hfirst | ⟨rfl, hmore⟩
      · exact utf8EncodeChar_lt hfirst _ _
      · exact List.append_left_lt (ih hmore)

theorem bytes_lt {a b : String} (h : a < b) : bytes a < bytes b := by
  rw [bytes_eq_flatMap, bytes_eq_flatMap]
  exact flatMap_lt h

end AlertSilences.Text
