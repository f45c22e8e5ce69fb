import CatalogAudit.Text.Utf8

/-!
# Decoding what has been encoded

The bytes of a character are read back as that character, whatever follows them. Hence strict
decoding gives back every text that has been encoded.
-/

namespace CatalogAudit
namespace Utf8

theorem piecesFrom_cons (reading : Reading) (b : UInt8) (rest : Bytes) :
    piecesFrom reading (b :: rest) =
      (reading.step b).1 ++ piecesFrom (reading.step b).2 rest := by
  cases reading with
  | idle => rfl
  | inside => rfl

/-!
# Lead bytes

The first byte of a character says how many bytes follow and, at the edges of a range, which values
the next one may take.
-/

theorem start_one {n : Nat} (h : n < 0x80) :
    Reading.start (UInt8.ofNat n) = ([.char (Char.ofNat n)], .idle) := by
  have hNat : (UInt8.ofNat n).toNat = n := UInt8.toNat_ofNat_of_lt' (show n < 256 by omega)
  unfold Reading.start
  simp only [UInt8.lt_iff_toNat_lt, hNat]
  rw [if_pos (by simpa using h)]

theorem start_two {n : Nat} (hLow : 0xC2 ≤ n) (hHigh : n < 0xE0) :
    Reading.start (UInt8.ofNat n) =
      ([], .inside [UInt8.ofNat n] (n - 0xC0) 1 0x80 0xBF) := by
  have hNat : (UInt8.ofNat n).toNat = n := UInt8.toNat_ofNat_of_lt' (show n < 256 by omega)
  unfold Reading.start
  simp only [UInt8.lt_iff_toNat_lt, hNat]
  rw [if_neg (by simp; omega), if_neg (by simp; omega), if_pos (by simpa using hHigh)]

theorem start_three {n : Nat} (hLow : 0xE0 ≤ n) (hHigh : n < 0xF0) :
    Reading.start (UInt8.ofNat n) =
      ([], .inside [UInt8.ofNat n] (n - 0xE0) 2
        (if n = 0xE0 then 0xA0 else 0x80) (if n = 0xED then 0x9F else 0xBF)) := by
  have hNat : (UInt8.ofNat n).toNat = n := UInt8.toNat_ofNat_of_lt' (show n < 256 by omega)
  unfold Reading.start
  simp only [UInt8.lt_iff_toNat_lt, ← UInt8.toNat_inj, hNat]
  rw [if_neg (by simp; omega), if_neg (by simp; omega), if_neg (by simp; omega)]
  by_cases hFirst : n = 0xE0
  · subst hFirst
    rfl
  · by_cases hSurrogate : n = 0xED
    · subst hSurrogate
      rfl
    · rw [if_neg hFirst, if_neg hSurrogate, if_neg (by simpa using hFirst),
        if_neg (by simpa using hSurrogate), if_pos (by simpa using hHigh)]

theorem start_four {n : Nat} (hLow : 0xF0 ≤ n) (hHigh : n < 0xF5) :
    Reading.start (UInt8.ofNat n) =
      ([], .inside [UInt8.ofNat n] (n - 0xF0) 3
        (if n = 0xF0 then 0x90 else 0x80) (if n = 0xF4 then 0x8F else 0xBF)) := by
  have hCases : n = 0xF0 ∨ n = 0xF1 ∨ n = 0xF2 ∨ n = 0xF3 ∨ n = 0xF4 := by omega
  rcases hCases with h | h | h | h | h
  all_goals
    subst h
    rfl

/-!
# Further bytes
-/

theorem step_inside_last {seen : Bytes} {value n : Nat} {low high : UInt8}
    (hLow : low.toNat ≤ n) (hHigh : n ≤ high.toNat) :
    (Reading.inside seen value 1 low high).step (UInt8.ofNat n) =
      ([.char (Char.ofNat (value * 0x40 + (n - 0x80)))], .idle) := by
  have hByte : n < 256 := Nat.lt_of_le_of_lt hHigh high.toNat_lt
  have hNat : (UInt8.ofNat n).toNat = n := UInt8.toNat_ofNat_of_lt' hByte
  unfold Reading.step
  simp only [UInt8.le_iff_toNat_le, hNat]
  rw [if_pos ⟨hLow, hHigh⟩, if_pos (Nat.le_refl 1)]

theorem step_inside_more {seen : Bytes} {value owed n : Nat} {low high : UInt8}
    (hLow : low.toNat ≤ n) (hHigh : n ≤ high.toNat) :
    (Reading.inside seen value (owed + 2) low high).step (UInt8.ofNat n) =
      ([], .inside (seen ++ [UInt8.ofNat n]) (value * 0x40 + (n - 0x80)) (owed + 1) 0x80 0xBF) := by
  have hByte : n < 256 := Nat.lt_of_le_of_lt hHigh high.toNat_lt
  have hNat : (UInt8.ofNat n).toNat = n := UInt8.toNat_ofNat_of_lt' hByte
  unfold Reading.step
  simp only [UInt8.le_iff_toNat_le, hNat]
  rw [if_pos ⟨hLow, hHigh⟩, if_neg (by omega)]
  rfl

/-!
# One character

The cases are the lengths of the encoding. In each of them the payload bits of the bytes make up
the number of the character again.
-/

theorem piecesFrom_utf8EncodeChar (c : Char) (rest : Bytes) :
    piecesFrom .idle (String.utf8EncodeChar c ++ rest) = .char c :: piecesFrom .idle rest := by
  have hChar : Char.ofNat c.val.toNat = c := Char.ofNat_toNat c
  have hValid : c.val.toNat < 0xD800 ∨ 0xDFFF < c.val.toNat ∧ c.val.toNat < 0x110000 := c.valid
  unfold String.utf8EncodeChar
  generalize c.val.toNat = v at hChar hValid
  by_cases hOne : v ≤ 0x7F
  · simp only [hOne, if_true, List.cons_append, List.nil_append]
    rw [piecesFrom_cons]
    simp only [Reading.step]
    rw [start_one (by omega), hChar]
    rfl
  by_cases hTwo : v ≤ 0x7FF
  · simp only [hOne, hTwo, if_true, if_false, List.cons_append, List.nil_append]
    rw [piecesFrom_cons]
    simp only [Reading.step]
    rw [start_two (by omega) (by omega), List.nil_append, piecesFrom_cons,
      step_inside_last (by simp) (by simp; omega)]
    have hValue : (v / 64 % 0x20 + 0xC0 - 0xC0) * 0x40 + (v % 0x40 + 0x80 - 0x80) = v := by omega
    rw [hValue, hChar]
    rfl
  by_cases hThree : v ≤ 0xFFFF
  · simp only [hOne, hTwo, hThree, if_true, if_false, List.cons_append, List.nil_append]
    rw [piecesFrom_cons]
    simp only [Reading.step]
    rw [start_three (by omega) (by omega), List.nil_append, piecesFrom_cons,
      step_inside_more (by split <;> simp; omega) (by split <;> simp <;> omega),
      List.nil_append, piecesFrom_cons, step_inside_last (by simp) (by simp; omega)]
    have hValue : ((v / 4096 % 0x10 + 0xE0 - 0xE0) * 0x40 + (v / 64 % 0x40 + 0x80 - 0x80)) * 0x40 +
        (v % 0x40 + 0x80 - 0x80) = v := by omega
    rw [hValue, hChar]
    rfl
  · simp only [hOne, hTwo, hThree, if_false, List.cons_append, List.nil_append]
    rw [piecesFrom_cons]
    simp only [Reading.step]
    rw [start_four (by omega) (by omega), List.nil_append, piecesFrom_cons,
      step_inside_more (by split <;> simp; omega) (by split <;> simp <;> omega),
      List.nil_append, piecesFrom_cons, step_inside_more (by simp) (by simp; omega),
      List.nil_append, piecesFrom_cons, step_inside_last (by simp) (by simp; omega)]
    have hValue : (((v / 262144 % 0x08 + 0xF0 - 0xF0) * 0x40 + (v / 4096 % 0x40 + 0x80 - 0x80)) *
        0x40 + (v / 64 % 0x40 + 0x80 - 0x80)) * 0x40 + (v % 0x40 + 0x80 - 0x80) = v := by omega
    rw [hValue, hChar]
    rfl

/-!
# Texts
-/

@[simp] theorem encode_nil : encode [] = [] := rfl

@[simp] theorem encode_cons (c : Char) (cs : List Char) :
    encode (c :: cs) = String.utf8EncodeChar c ++ encode cs := rfl

@[simp] theorem encode_append (cs ds : List Char) : encode (cs ++ ds) = encode cs ++ encode ds :=
  List.flatMap_append

theorem pieces_encode (cs : List Char) : pieces (encode cs) = cs.map .char := by
  induction cs with
  | nil => rfl
  | cons c cs ih =>
      show piecesFrom .idle (String.utf8EncodeChar c ++ encode cs) = _
      rw [piecesFrom_utf8EncodeChar]
      exact congrArg _ ih

theorem decode?_encode (cs : List Char) : decode? (encode cs) = some cs := by
  unfold decode?
  rw [pieces_encode]
  induction cs with
  | nil => rfl
  | cons c cs ih =>
      rw [List.map_cons, List.mapM_cons, ih]
      rfl

/-!
# Bytes of ASCII
-/

theorem utf8EncodeChar_of_lt {c : Char} (h : c.toNat < 0x80) :
    String.utf8EncodeChar c = [UInt8.ofNat c.toNat] := by
  have hLe : c.val.toNat ≤ 0x7F := by
    have hNat : c.toNat = c.val.toNat := rfl
    omega
  unfold String.utf8EncodeChar
  exact if_pos hLe

theorem le_of_mem_utf8EncodeChar {c : Char} (h : 0x80 ≤ c.toNat) {b : UInt8}
    (hMem : b ∈ String.utf8EncodeChar c) : 0x80 ≤ b.toNat := by
  have hLow : ¬c.val.toNat ≤ 0x7F := by
    have hNat : c.toNat = c.val.toNat := rfl
    omega
  unfold String.utf8EncodeChar at hMem
  generalize c.val.toNat = v at hLow hMem
  have hByte : ∀ n, 0x80 ≤ n → n < 0x100 → 0x80 ≤ (UInt8.ofNat n).toNat := by
    intro n hLe hLt
    rw [UInt8.toNat_ofNat_of_lt' hLt]
    exact hLe
  simp only [hLow, if_false] at hMem
  split at hMem
  · simp only [List.mem_cons, List.not_mem_nil, or_false] at hMem
    rcases hMem with rfl | rfl
    all_goals exact hByte _ (by omega) (by omega)
  · split at hMem
    · simp only [List.mem_cons, List.not_mem_nil, or_false] at hMem
      rcases hMem with rfl | rfl | rfl
      all_goals exact hByte _ (by omega) (by omega)
    · simp only [List.mem_cons, List.not_mem_nil, or_false] at hMem
      rcases hMem with rfl | rfl | rfl | rfl
      all_goals exact hByte _ (by omega) (by omega)

end Utf8

/-!
# Texts
-/

theorem textOf?_bytesOf (s : String) : textOf? (bytesOf s) = some s := by
  unfold textOf? bytesOf
  rw [Utf8.decode?_encode, Option.map_some, String.ofList_toList]

theorem bytesOf_append (s t : String) : bytesOf (s ++ t) = bytesOf s ++ bytesOf t := by
  unfold bytesOf
  rw [String.toList_append, Utf8.encode_append]

end CatalogAudit
