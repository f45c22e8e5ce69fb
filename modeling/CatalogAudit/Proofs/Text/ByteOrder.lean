import CatalogAudit.Text.Utf8

/-!
# The order of texts and of their bytes

Texts are compared by the numbers of their characters. Their bytes compare the same way, since a
character with more bytes has a greater lead byte and the payload bits come most significant first.
-/

namespace CatalogAudit
namespace Utf8

/-!
# One character
-/

theorem cons_ofNat_lt {m n : Nat} (hLess : m < n) (hByte : n < 0x100) (xs ys : Bytes) :
    UInt8.ofNat m :: xs < UInt8.ofNat n :: ys := by
  apply List.cons_lt_cons_iff.mpr
  apply Or.inl
  rw [UInt8.lt_iff_toNat_lt, UInt8.toNat_ofNat_of_lt' (show m < 256 by omega),
    UInt8.toNat_ofNat_of_lt' hByte]
  exact hLess

theorem cons_ofNat_lt_of_le {m n : Nat} (hLe : m ≤ n) (hByte : n < 0x100) {xs ys : Bytes}
    (hRest : m = n → xs < ys) : UInt8.ofNat m :: xs < UInt8.ofNat n :: ys := by
  rcases Nat.lt_or_eq_of_le hLe with hLess | hEq
  · exact cons_ofNat_lt hLess hByte xs ys
  · subst hEq
    exact List.cons_lt_cons_iff.mpr (Or.inr ⟨rfl, hRest rfl⟩)

/-- The greater character has the greater bytes, whatever follows. -/
theorem utf8EncodeChar_append_lt {c d : Char} (h : c < d) (xs ys : Bytes) :
    String.utf8EncodeChar c ++ xs < String.utf8EncodeChar d ++ ys := by
  have hLess : c.val.toNat < d.val.toNat := UInt32.lt_iff_toNat_lt.mp (Char.lt_def.mp h)
  have hValid : d.val.toNat < 0xD800 ∨ 0xDFFF < d.val.toNat ∧ d.val.toNat < 0x110000 := d.valid
  unfold String.utf8EncodeChar
  generalize c.val.toNat = v at hLess
  generalize d.val.toNat = w at hLess hValid
  -- The greater character is not the shorter one. With different lengths the first bytes decide, and
  -- with the same length the first bytes that differ.
  by_cases hOne : w ≤ 0x7F
  · have hOne' : v ≤ 0x7F := by omega
    simp only [hOne, hOne', if_true, List.cons_append, List.nil_append]
    exact cons_ofNat_lt hLess (by omega) xs ys
  by_cases hOne' : v ≤ 0x7F
  · simp only [hOne, hOne', if_true, if_false, List.cons_append, List.nil_append]
    split
    · exact cons_ofNat_lt (by omega) (by omega) _ _
    · split
      · exact cons_ofNat_lt (by omega) (by omega) _ _
      · exact cons_ofNat_lt (by omega) (by omega) _ _
  by_cases hTwo : w ≤ 0x7FF
  · have hTwo' : v ≤ 0x7FF := by omega
    simp only [hOne, hOne', hTwo, hTwo', if_true, if_false, List.cons_append, List.nil_append]
    apply cons_ofNat_lt_of_le (by omega) (by omega)
    intro hLead
    exact cons_ofNat_lt (by omega) (by omega) xs ys
  by_cases hTwo' : v ≤ 0x7FF
  · simp only [hOne, hOne', hTwo, hTwo', if_true, if_false, List.cons_append, List.nil_append]
    split
    · exact cons_ofNat_lt (by omega) (by omega) _ _
    · exact cons_ofNat_lt (by omega) (by omega) _ _
  by_cases hThree : w ≤ 0xFFFF
  · have hThree' : v ≤ 0xFFFF := by omega
    simp only [hOne, hOne', hTwo, hTwo', hThree, hThree', if_true, if_false, List.cons_append,
      List.nil_append]
    apply cons_ofNat_lt_of_le (by omega) (by omega)
    intro hLead
    apply cons_ofNat_lt_of_le (by omega) (by omega)
    intro hMiddle
    exact cons_ofNat_lt (by omega) (by omega) xs ys
  by_cases hThree' : v ≤ 0xFFFF
  · simp only [hOne, hOne', hTwo, hTwo', hThree, hThree', if_true, if_false, List.cons_append,
      List.nil_append]
    exact cons_ofNat_lt (by omega) (by omega) _ _
  · simp only [hOne, hOne', hTwo, hTwo', hThree, hThree', if_false, List.cons_append,
      List.nil_append]
    apply cons_ofNat_lt_of_le (by omega) (by omega)
    intro hLead
    apply cons_ofNat_lt_of_le (by omega) (by omega)
    intro hSecond
    apply cons_ofNat_lt_of_le (by omega) (by omega)
    intro hThird
    exact cons_ofNat_lt (by omega) (by omega) xs ys

/-!
# Texts
-/

theorem encode_lt {cs ds : List Char} (h : cs < ds) : encode cs < encode ds := by
  induction cs generalizing ds with
  | nil =>
      cases ds with
      | nil => exact absurd h (List.lt_irrefl _)
      | cons d ds =>
          have hBytes : encode (d :: ds) ≠ [] := by
            simp [encode, String.utf8EncodeChar_ne_nil]
          obtain ⟨b, bytes, hCons⟩ := List.exists_cons_of_ne_nil hBytes
          rw [hCons]
          exact List.nil_lt_cons b bytes
  | cons c cs ih =>
      cases ds with
      | nil => exact absurd h (List.not_lt_nil _)
      | cons d ds =>
          rcases List.cons_lt_cons_iff.mp h with hChar | ⟨rfl, hRest⟩
          · exact utf8EncodeChar_append_lt hChar (encode cs) (encode ds)
          · exact List.append_left_lt (ih hRest)

end Utf8

theorem bytesOf_lt {s t : String} (h : s < t) : bytesOf s < bytesOf t :=
  Utf8.encode_lt h

end CatalogAudit
