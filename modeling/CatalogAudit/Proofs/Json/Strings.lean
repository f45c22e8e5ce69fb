import CatalogAudit.Json.Printer
import CatalogAudit.Json.Scalar
import CatalogAudit.Proofs.Text.Utf8

/-!
# Reading back printed strings

A printed string is read back as the text it was printed from, whatever the text holds. The loop
that reads a string goes byte by byte, so it takes one step for an escape and one step for each
byte of a character that stands for itself.
-/

namespace CatalogAudit

namespace Json

open Utf8 (Bytes encode)

/-!
# Bytes that stand for themselves
-/

def IsPlainByte (b : UInt8) : Prop :=
  b ≠ 0x22 ∧ b ≠ 0x5C ∧ ¬b < 0x20

theorem readStringBytes_plain {bytes : Bytes} (h : ∀ b ∈ bytes, IsPlainByte b) (fuel : Nat)
    (seen rest : Bytes) (place : Place) :
    readStringBytes (fuel + bytes.length) seen ⟨bytes ++ rest, place⟩ =
      readStringBytes fuel (bytes.reverse ++ seen) ⟨rest, placeAfter place bytes⟩ := by
  induction bytes generalizing seen place with
  | nil => rfl
  | cons b bytes ih =>
      obtain ⟨hQuote, hBackslash, hControl⟩ := h b (List.mem_cons_self ..)
      have hFuel : fuel + (b :: bytes).length = fuel + bytes.length + 1 := by
        rw [List.length_cons]
        omega
      rw [hFuel, List.cons_append, readStringBytes]
      simp only [hQuote, hBackslash, hControl, if_false]
      show readStringBytes (fuel + bytes.length) (b :: seen) ⟨bytes ++ rest, place.after b⟩ = _
      rw [ih (fun b' hMem => h b' (List.mem_cons_of_mem b hMem)) (b :: seen) (place.after b),
        List.reverse_cons, List.append_assoc]
      rfl

theorem isPlainByte_of_mem_utf8EncodeChar {c : Char} (hQuote : c ≠ '"') (hBackslash : c ≠ '\\')
    (hControl : ¬c.toNat < 0x20) {b : UInt8} (hMem : b ∈ String.utf8EncodeChar c) :
    IsPlainByte b := by
  by_cases hAscii : c.toNat < 0x80
  · rw [Utf8.utf8EncodeChar_of_lt hAscii, List.mem_singleton] at hMem
    have hNat : b.toNat = c.toNat := by
      rw [hMem]
      exact UInt8.toNat_ofNat_of_lt' (show c.toNat < 256 by omega)
    have hChar : ∀ d : Char, c ≠ d → c.toNat ≠ d.toNat := by
      intro d hNe hEq
      exact hNe (Char.toNat_inj.mp hEq)
    refine ⟨?_, ?_, ?_⟩
    · rw [Ne, ← UInt8.toNat_inj, hNat]
      exact hChar '"' hQuote
    · rw [Ne, ← UInt8.toNat_inj, hNat]
      exact hChar '\\' hBackslash
    · rw [UInt8.lt_iff_toNat_lt, hNat]
      exact hControl
  · have hHigh := Utf8.le_of_mem_utf8EncodeChar (Nat.le_of_not_lt hAscii) hMem
    refine ⟨?_, ?_, ?_⟩
    · rintro rfl
      exact absurd hHigh (by decide)
    · rintro rfl
      exact absurd hHigh (by decide)
    · intro hLt
      rw [UInt8.lt_iff_toNat_lt] at hLt
      have hSmall : b.toNat < 0x20 := hLt
      omega

/-!
# Escapes
-/

theorem readStringBytes_of_readEscape {bytes rest : Bytes} {place : Place} {c : Cursor}
    (h : readEscape ⟨rest, place.after 0x5C⟩ = .ok (bytes, c)) (fuel : Nat) (seen : Bytes) :
    readStringBytes (fuel + 1) seen ⟨0x5C :: rest, place⟩ =
      readStringBytes fuel (bytes.reverse ++ seen) c := by
  rw [readStringBytes]
  simp only [Cursor.skip, h]
  rfl

theorem readEscape_short {letter b : UInt8} (h : shortEscape? letter = some b) (rest : Bytes)
    (place : Place) :
    readEscape ⟨letter :: rest, place⟩ = .ok ([b], ⟨rest, place.after letter⟩) := by
  unfold readEscape
  simp only [Cursor.skip, h]

theorem hexDigit_spec : ∀ n, n < 16 →
    String.utf8EncodeChar (Text.hexDigit n) = [UInt8.ofNat (Text.hexDigit n).toNat] ∧
      hexValue? (UInt8.ofNat (Text.hexDigit n).toNat) = some n := by
  decide

/-- A control character is spelled with four digits, of which the first two are zero. -/
theorem readEscape_hex {c : Char} (h : c.toNat < 0x20) (rest : Bytes) (place : Place) :
    ∃ place',
      readEscape
          ⟨encode ['u', '0', '0', Text.hexDigit (c.toNat / 16), Text.hexDigit (c.toNat % 16)] ++
            rest, place⟩ =
        .ok (String.utf8EncodeChar c, ⟨rest, place'⟩) := by
  obtain ⟨hHighByte, hHigh⟩ := hexDigit_spec (c.toNat / 16) (by omega)
  obtain ⟨hLowByte, hLow⟩ := hexDigit_spec (c.toNat % 16) (by omega)
  have hZero : hexValue? 0x30 = some 0 := rfl
  have hShort : shortEscape? 0x75 = none := rfl
  have hValue : ((0 * 16 + 0) * 16 + c.toNat / 16) * 16 + c.toNat % 16 = c.toNat := by omega
  have hBytes :
      encode ['u', '0', '0', Text.hexDigit (c.toNat / 16), Text.hexDigit (c.toNat % 16)] ++ rest =
        0x75 :: 0x30 :: 0x30 :: UInt8.ofNat (Text.hexDigit (c.toNat / 16)).toNat ::
          UInt8.ofNat (Text.hexDigit (c.toNat % 16)).toNat :: rest := by
    simp only [Utf8.encode_cons, Utf8.encode_nil, hHighByte, hLowByte]
    rfl
  rw [hBytes]
  unfold readEscape
  simp only [Cursor.skip, hShort, readHex, hZero, hHigh, hLow, hValue, Char.ofNat_toNat, if_true]
  rw [if_neg (by omega), if_neg (by omega)]
  exact ⟨_, rfl⟩

/-!
# Whole strings

A character takes at most as many steps as its printed form has bytes.
-/

/-- The printed form of the character is read in so many steps. -/
def ReadsChar (c : Char) (steps : Nat) : Prop :=
  steps ≤ (encode (escapedChar c)).length ∧ ∀ fuel seen rest place, ∃ place',
    readStringBytes (fuel + steps) seen ⟨encode (escapedChar c) ++ rest, place⟩ =
      readStringBytes fuel ((String.utf8EncodeChar c).reverse ++ seen) ⟨rest, place'⟩

theorem readsChar_short {c letter : Char} (code : UInt8) {b : UInt8}
    (hEscaped : escapedChar c = ['\\', letter]) (hCode : String.utf8EncodeChar letter = [code])
    (hShort : shortEscape? code = some b) (hByte : String.utf8EncodeChar c = [b]) :
    ReadsChar c 1 := by
  have hBytes : encode (escapedChar c) = [0x5C, code] := by
    rw [hEscaped, Utf8.encode_cons, Utf8.encode_cons, hCode]
    rfl
  rw [ReadsChar, hBytes, hByte]
  refine ⟨Nat.succ_le_succ (Nat.zero_le _), ?_⟩
  intro fuel seen rest place
  exact ⟨_, readStringBytes_of_readEscape (readEscape_short hShort rest _) fuel seen⟩

theorem readsChar_hex {c : Char} (h : c.toNat < 0x20)
    (hEscaped : escapedChar c =
      ['\\', 'u', '0', '0', Text.hexDigit (c.toNat / 16), Text.hexDigit (c.toNat % 16)]) :
    ReadsChar c 1 := by
  have hBytes : encode (escapedChar c) =
      0x5C :: encode
        ['u', '0', '0', Text.hexDigit (c.toNat / 16), Text.hexDigit (c.toNat % 16)] := by
    rw [hEscaped]
    rfl
  rw [ReadsChar, hBytes]
  refine ⟨Nat.succ_le_succ (Nat.zero_le _), ?_⟩
  intro fuel seen rest place
  rcases readEscape_hex h rest (place.after 0x5C) with ⟨place', hRead⟩
  exact ⟨place', readStringBytes_of_readEscape hRead fuel seen⟩

theorem readsChar_plain {c : Char} (hQuote : c ≠ '"') (hBackslash : c ≠ '\\')
    (hControl : ¬c.toNat < 0x20) (hEscaped : escapedChar c = [c]) :
    ReadsChar c (String.utf8EncodeChar c).length := by
  have hBytes : encode (escapedChar c) = String.utf8EncodeChar c := by
    rw [hEscaped, Utf8.encode_cons, Utf8.encode_nil, List.append_nil]
  rw [ReadsChar, hBytes]
  refine ⟨Nat.le_refl _, ?_⟩
  intro fuel seen rest place
  exact ⟨_, readStringBytes_plain
    (fun b hMem => isPlainByte_of_mem_utf8EncodeChar hQuote hBackslash hControl hMem)
    fuel seen rest place⟩

theorem exists_readsChar (c : Char) : ∃ steps, ReadsChar c steps := by
  by_cases hQuote : c = '"'
  · subst hQuote
    exact ⟨1, readsChar_short 0x22 rfl rfl rfl rfl⟩
  by_cases hBackslash : c = '\\'
  · subst hBackslash
    exact ⟨1, readsChar_short 0x5C rfl rfl rfl rfl⟩
  by_cases hBackspace : c = '\x08'
  · subst hBackspace
    exact ⟨1, readsChar_short 0x62 rfl rfl rfl rfl⟩
  by_cases hFeed : c = '\x0c'
  · subst hFeed
    exact ⟨1, readsChar_short 0x66 rfl rfl rfl rfl⟩
  by_cases hLine : c = '\n'
  · subst hLine
    exact ⟨1, readsChar_short 0x6E rfl rfl rfl rfl⟩
  by_cases hReturn : c = '\r'
  · subst hReturn
    exact ⟨1, readsChar_short 0x72 rfl rfl rfl rfl⟩
  by_cases hTab : c = '\t'
  · subst hTab
    exact ⟨1, readsChar_short 0x74 rfl rfl rfl rfl⟩
  have hEscaped : escapedChar c = if c.toNat < 0x20 then
      ['\\', 'u', '0', '0', Text.hexDigit (c.toNat / 16), Text.hexDigit (c.toNat % 16)]
      else [c] := by
    unfold escapedChar
    rw [if_neg hQuote, if_neg hBackslash, if_neg hBackspace, if_neg hFeed, if_neg hLine,
      if_neg hReturn, if_neg hTab]
  by_cases hControl : c.toNat < 0x20
  · rw [if_pos hControl] at hEscaped
    exact ⟨1, readsChar_hex hControl hEscaped⟩
  · rw [if_neg hControl] at hEscaped
    exact ⟨_, readsChar_plain hQuote hBackslash hControl hEscaped⟩

theorem readStringBytes_printed (cs : List Char) {fuel : Nat} (seen rest : Bytes) (place : Place)
    (hFuel : (encode (cs.flatMap escapedChar)).length < fuel) :
    ∃ place',
      readStringBytes fuel seen ⟨encode (cs.flatMap escapedChar) ++ 0x22 :: rest, place⟩ =
        .ok (seen.reverse ++ encode cs, ⟨rest, place'⟩) := by
  induction cs generalizing fuel seen place with
  | nil =>
      obtain ⟨more, hMore⟩ := Nat.exists_eq_add_of_lt hFuel
      rw [hMore, Utf8.encode_nil, List.append_nil]
      exact ⟨place.after 0x22, rfl⟩
  | cons c cs ih =>
      rw [List.flatMap_cons, Utf8.encode_append] at hFuel ⊢
      rw [List.length_append] at hFuel
      rcases exists_readsChar c with ⟨steps, hSteps, hRead⟩
      obtain ⟨more, hMore⟩ := Nat.exists_eq_add_of_le (show steps ≤ fuel by omega)
      rcases hRead more seen (encode (cs.flatMap escapedChar) ++ 0x22 :: rest) place with
        ⟨next, hNext⟩
      rcases ih ((String.utf8EncodeChar c).reverse ++ seen) next
        (show (encode (cs.flatMap escapedChar)).length < more by omega) with ⟨place', hRest⟩
      refine ⟨place', ?_⟩
      rw [hMore, Nat.add_comm steps more, List.append_assoc, hNext, hRest, List.reverse_append,
        List.reverse_reverse, List.append_assoc, Utf8.encode_cons]

theorem readString_printed (s : String) (rest : Bytes) (place : Place) :
    ∃ place',
      readString ⟨encode (s.toList.flatMap escapedChar) ++ 0x22 :: rest, place⟩ =
        .ok (s, ⟨rest, place'⟩) := by
  have hFuel : (encode (s.toList.flatMap escapedChar)).length <
      (encode (s.toList.flatMap escapedChar) ++ 0x22 :: rest).length + 1 := by
    rw [List.length_append]
    omega
  rcases readStringBytes_printed s.toList [] rest place hFuel with ⟨place', hRead⟩
  refine ⟨place', ?_⟩
  have hText : textOf? (encode s.toList) = some s := textOf?_bytesOf s
  unfold readString
  rw [hRead]
  simp only [List.reverse_nil, List.nil_append, hText]

end Json
end CatalogAudit
