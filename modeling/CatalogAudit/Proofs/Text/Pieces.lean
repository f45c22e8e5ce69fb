import CatalogAudit.Proofs.Text.Utf8

/-!
# Bytes cut into characters

The pieces that bytes are cut into spell these bytes, and a text that stands anywhere among other
bytes is cut out whole. So a text can be told from its bytes, and bytes that are a text are the ones
that the text is spelled with.
-/

namespace CatalogAudit
namespace Utf8

/-!
# What a reading spells

Inside a character the bytes seen and the bits of their payload belong together: any number that the
bytes still owed can complete is that of a character, and the bytes of this character begin with
those seen. This is what each byte preserves.
-/

/-- The bytes for the last so many groups of six bits of a number. -/
def payload (number : Nat) : Nat → Bytes
  | 0 => []
  | count + 1 => UInt8.ofNat (number / Nat.pow 0x40 count % 0x40 + 0x80) :: payload number count

def Reading.seen : Reading → Bytes
  | .idle => []
  | .inside seen .. => seen

inductive Reading.IsSound : Reading → Prop where
  | idle : IsSound .idle
  | inside {seen : Bytes} {value owed : Nat} {low high : UInt8} (hLow : 0x80 ≤ low.toNat)
      (hHigh : high.toNat ≤ 0xBF)
      (spelled : ∀ number, number / Nat.pow 0x40 (owed + 1) = value →
        low.toNat ≤ number / Nat.pow 0x40 owed % 0x40 + 0x80 →
        number / Nat.pow 0x40 owed % 0x40 + 0x80 ≤ high.toNat →
        number.isValidChar ∧
          String.utf8EncodeChar (Char.ofNat number) = seen ++ payload number (owed + 1)) :
      IsSound (.inside seen value (owed + 1) low high)

/-- The pieces found and the bytes now seen spell these bytes, and the reading can go on. -/
structure Spells (outcome : List Piece × Reading) (bytes : Bytes) : Prop where
  bytes_eq : outcome.1.flatMap Piece.bytes ++ outcome.2.seen = bytes
  sound : outcome.2.IsSound

/-!
# Lead bytes
-/

theorem toNat_val_ofNat {n : Nat} (h : n.isValidChar) : (Char.ofNat n).val.toNat = n := by
  unfold Char.ofNat
  rw [dif_pos h]
  rfl

theorem spells_illFormed (b : UInt8) : Spells ([.illFormed [b]], .idle) [b] :=
  ⟨rfl, .idle⟩

theorem spells_start_one {n : Nat} (h : n < 0x80) :
    Spells (Reading.start (UInt8.ofNat n)) [UInt8.ofNat n] := by
  have hNumber := toNat_val_ofNat (show n.isValidChar from Or.inl (by omega))
  rw [start_one h]
  refine ⟨?_, .idle⟩
  show String.utf8EncodeChar (Char.ofNat n) ++ [] ++ [] = _
  rw [List.append_nil, List.append_nil]
  unfold String.utf8EncodeChar
  rw [hNumber]
  exact if_pos (by omega)

theorem spells_start_two {n : Nat} (hLow : 0xC2 ≤ n) (hHigh : n < 0xE0) :
    Spells (Reading.start (UInt8.ofNat n)) [UInt8.ofNat n] := by
  rw [start_two hLow hHigh]
  refine ⟨rfl, .inside (by decide) (by decide) ?_⟩
  intro number hValue _ _
  simp only [Nat.zero_add, Nat.pow_eq, Nat.pow_one] at hValue
  have hValid : number.isValidChar := Or.inl (by omega)
  refine ⟨hValid, ?_⟩
  have hLead : number / 64 % 32 + 192 = n := by omega
  unfold String.utf8EncodeChar
  rw [toNat_val_ofNat hValid]
  simp only [show ¬number ≤ 0x7F by omega, show number ≤ 0x7FF by omega, if_true, if_false, hLead]
  simp [payload]

theorem spells_start_three {n : Nat} (hLow : 0xE0 ≤ n) (hHigh : n < 0xF0) :
    Spells (Reading.start (UInt8.ofNat n)) [UInt8.ofNat n] := by
  rw [start_three hLow hHigh]
  refine ⟨rfl, .inside (by split <;> decide) (by split <;> decide) ?_⟩
  intro number hValue hNext hNext'
  -- The narrowed ranges keep the number above two bytes and out of the surrogates.
  have hLong : 0x800 ≤ number := by
    split at hNext
    · simp at hNext hValue
      omega
    · simp at hValue
      omega
  have hNoSurrogate : number < 0xD800 ∨ 0xDFFF < number := by
    split at hNext'
    · simp at hNext' hValue
      omega
    · simp at hValue
      omega
  simp only [Nat.reduceAdd, Nat.pow_eq, Nat.reducePow] at hValue
  have hValid : number.isValidChar := by
    rcases hNoSurrogate with h | h
    · exact Or.inl h
    · exact Or.inr ⟨h, by omega⟩
  refine ⟨hValid, ?_⟩
  have hLead : number / 4096 % 16 + 224 = n := by omega
  unfold String.utf8EncodeChar
  rw [toNat_val_ofNat hValid]
  simp only [show ¬number ≤ 0x7F by omega, show ¬number ≤ 0x7FF by omega,
    show number ≤ 0xFFFF by omega, if_true, if_false, hLead]
  simp [payload]

theorem spells_start_four {n : Nat} (hLow : 0xF0 ≤ n) (hHigh : n < 0xF5) :
    Spells (Reading.start (UInt8.ofNat n)) [UInt8.ofNat n] := by
  rw [start_four hLow hHigh]
  refine ⟨rfl, .inside (by split <;> decide) (by split <;> decide) ?_⟩
  intro number hValue hNext hNext'
  -- The narrowed ranges keep the number above three bytes and at most U+10FFFF.
  have hLong : 0x10000 ≤ number := by
    split at hNext
    · simp at hNext hValue
      omega
    · simp at hValue
      omega
  have hShort : number < 0x110000 := by
    split at hNext'
    · simp at hNext' hValue
      omega
    · simp at hValue
      omega
  simp only [Nat.reduceAdd, Nat.pow_eq, Nat.reducePow] at hValue
  have hValid : number.isValidChar := Or.inr ⟨by omega, hShort⟩
  refine ⟨hValid, ?_⟩
  have hLead : number / 262144 % 8 + 240 = n := by omega
  unfold String.utf8EncodeChar
  rw [toNat_val_ofNat hValid]
  simp only [show ¬number ≤ 0x7F by omega, show ¬number ≤ 0x7FF by omega,
    show ¬number ≤ 0xFFFF by omega, if_false, hLead]
  simp [payload]

theorem start_illFormed {n : Nat} (hByte : n < 0x100)
    (h : 0x80 ≤ n ∧ n < 0xC2 ∨ 0xF5 ≤ n) :
    Reading.start (UInt8.ofNat n) = ([.illFormed [UInt8.ofNat n]], .idle) := by
  have hNat : (UInt8.ofNat n).toNat = n := UInt8.toNat_ofNat_of_lt' hByte
  unfold Reading.start
  simp only [UInt8.lt_iff_toNat_lt, ← UInt8.toNat_inj, hNat]
  rcases h with h | h
  · rw [if_neg (by simp; omega), if_pos (by simp; omega)]
  · simp only [UInt8.reduceToNat]
    rw [if_neg (by omega), if_neg (by omega), if_neg (by omega), if_neg (by omega),
      if_neg (by omega), if_neg (by omega), if_neg (by omega), if_neg (by omega),
      if_neg (by omega)]

theorem spells_start (b : UInt8) : Spells (Reading.start b) [b] := by
  have hByte : b.toNat < 0x100 := b.toNat_lt
  have hSelf : UInt8.ofNat b.toNat = b := UInt8.ofNat_toNat
  rw [← hSelf]
  generalize b.toNat = n at hByte
  have hCases : n < 0x80 ∨ (0x80 ≤ n ∧ n < 0xC2 ∨ 0xF5 ≤ n) ∨ 0xC2 ≤ n ∧ n < 0xE0 ∨
      0xE0 ≤ n ∧ n < 0xF0 ∨ 0xF0 ≤ n ∧ n < 0xF5 := by omega
  rcases hCases with hOne | hNone | ⟨hLow, hHigh⟩ | ⟨hLow, hHigh⟩ | ⟨hLow, hHigh⟩
  · exact spells_start_one hOne
  · rw [start_illFormed hByte hNone]
    exact spells_illFormed _
  · exact spells_start_two hLow hHigh
  · exact spells_start_three hLow hHigh
  · exact spells_start_four hLow hHigh

/-!
# Every byte
-/

theorem payload_of_div {number value n count : Nat} (hLow : 0x80 ≤ n)
    (hNext : number / Nat.pow 0x40 count = value * 0x40 + (n - 0x80)) (hHigh : n ≤ 0xBF) :
    number / Nat.pow 0x40 (count + 1) = value ∧ number / Nat.pow 0x40 count % 0x40 + 0x80 = n := by
  have hPow : Nat.pow 0x40 (count + 1) = Nat.pow 0x40 count * 0x40 := rfl
  rw [hPow, ← Nat.div_div_eq_div_mul, hNext]
  omega

theorem spells_step_inside {seen : Bytes} {value owed : Nat} {low high b : UInt8}
    (h : (Reading.inside seen value owed low high).IsSound) (hLow : low ≤ b) (hHigh : b ≤ high) :
    Spells ((Reading.inside seen value owed low high).step b) (seen ++ [b]) := by
  rw [UInt8.le_iff_toNat_le] at hLow hHigh
  have hSelf : UInt8.ofNat b.toNat = b := UInt8.ofNat_toNat
  cases h with
  | @inside _ _ owed _ _ hFloor hCeiling spelled =>
      cases owed with
      | zero =>
          have hStep : (Reading.inside seen value 1 low high).step (UInt8.ofNat b.toNat) = _ :=
            step_inside_last hLow hHigh
          rw [hSelf] at hStep
          rw [hStep]
          have hNumber : (value * 0x40 + (b.toNat - 0x80)) / Nat.pow 0x40 0 =
              value * 0x40 + (b.toNat - 0x80) := Nat.div_one _
          rcases payload_of_div (by omega) hNumber (by omega) with ⟨hValue, hByte⟩
          have hSpelled := (spelled _ hValue (by omega) (by omega)).2
          refine ⟨?_, .idle⟩
          rw [List.flatMap_singleton, Reading.seen, List.append_nil, Piece.bytes, hSpelled, payload,
            hByte, hSelf]
          rfl
      | succ owed =>
          have hStep : (Reading.inside seen value (owed + 2) low high).step
              (UInt8.ofNat b.toNat) = _ :=
            step_inside_more hLow hHigh
          rw [hSelf] at hStep
          rw [hStep]
          refine ⟨rfl, .inside (by decide) (by decide) ?_⟩
          intro number hNumber _ _
          rcases payload_of_div (by omega) hNumber (by omega) with ⟨hValue, hByte⟩
          rcases spelled number hValue (by omega) (by omega) with ⟨hValid, hSpelled⟩
          refine ⟨hValid, ?_⟩
          rw [hSpelled, payload, hByte, hSelf, List.append_assoc]
          rfl

theorem step_inside_other {seen : Bytes} {value owed : Nat} {low high b : UInt8}
    (h : ¬(low ≤ b ∧ b ≤ high)) :
    (Reading.inside seen value owed low high).step b =
      (.illFormed seen :: (Reading.start b).1, (Reading.start b).2) := by
  rw [Reading.step, if_neg h]

theorem spells_step {reading : Reading} (h : reading.IsSound) (b : UInt8) :
    Spells (reading.step b) (reading.seen ++ [b]) := by
  cases reading with
  | idle => exact spells_start b
  | inside seen value owed low high =>
      by_cases hRange : low ≤ b ∧ b ≤ high
      · exact spells_step_inside h hRange.1 hRange.2
      · have hStart := spells_start b
        rw [step_inside_other hRange]
        refine ⟨?_, hStart.sound⟩
        rw [List.flatMap_cons, List.append_assoc, hStart.bytes_eq]
        rfl

theorem flatMap_bytes_piecesFrom {reading : Reading} (h : reading.IsSound) (bytes : Bytes) :
    (piecesFrom reading bytes).flatMap Piece.bytes = reading.seen ++ bytes := by
  induction bytes generalizing reading with
  | nil =>
      cases h with
      | idle => rfl
      | inside => simp [piecesFrom, Piece.bytes, Reading.seen]
  | cons b rest ih =>
      have hStep := spells_step h b
      rw [piecesFrom_cons, List.flatMap_append, ih hStep.sound, ← List.append_assoc,
        hStep.bytes_eq, List.append_assoc]
      rfl

theorem flatMap_bytes_pieces (bytes : Bytes) : (pieces bytes).flatMap Piece.bytes = bytes :=
  flatMap_bytes_piecesFrom .idle bytes

/-!
# Where a character can begin

A byte that is no further byte ends whatever has been begun, so the bytes before it and those from
it on are cut into pieces apart from each other.
-/

/-- The byte can begin a character or spell none, but continues none. -/
def IsBoundary (b : UInt8) : Prop :=
  b.toNat < 0x80 ∨ 0xBF < b.toNat

theorem piecesFrom_append_of_isBoundary {reading : Reading} (h : reading.IsSound) {b : UInt8}
    (hBoundary : IsBoundary b) (bytes rest : Bytes) :
    piecesFrom reading (bytes ++ b :: rest) =
      piecesFrom reading bytes ++ piecesFrom .idle (b :: rest) := by
  induction bytes generalizing reading with
  | nil =>
      cases h with
      | idle => rfl
      | @inside _ _ _ low high hLow hHigh _ =>
          have hOther : ¬(low ≤ b ∧ b ≤ high) := by
            rw [UInt8.le_iff_toNat_le, UInt8.le_iff_toNat_le]
            rcases hBoundary with hSmall | hLarge
            · omega
            · omega
          rw [List.nil_append, piecesFrom_cons, step_inside_other hOther, piecesFrom_cons]
          rfl
  | cons first bytes ih =>
      rw [List.cons_append, piecesFrom_cons, piecesFrom_cons, ih (spells_step h first).sound,
        List.append_assoc]

theorem exists_isBoundary_utf8EncodeChar (c : Char) :
    ∃ b rest, String.utf8EncodeChar c = b :: rest ∧ IsBoundary b := by
  have hLead : ∀ n, n < 0x80 ∨ 0xC0 ≤ n ∧ n < 0x100 → IsBoundary (UInt8.ofNat n) := by
    intro n h
    unfold IsBoundary
    rw [UInt8.toNat_ofNat_of_lt' (show n < 256 by omega)]
    omega
  unfold String.utf8EncodeChar
  generalize c.val.toNat = v
  simp only
  split
  · exact ⟨_, _, rfl, hLead v (by omega)⟩
  · split
    · exact ⟨_, _, rfl, hLead _ (by omega)⟩
    · split
      · exact ⟨_, _, rfl, hLead _ (by omega)⟩
      · exact ⟨_, _, rfl, hLead _ (by omega)⟩

theorem piecesFrom_encode (cs : List Char) (rest : Bytes) :
    piecesFrom .idle (encode cs ++ rest) = cs.map .char ++ piecesFrom .idle rest := by
  induction cs with
  | nil => rfl
  | cons c cs ih =>
      rw [encode_cons, List.append_assoc, piecesFrom_utf8EncodeChar, ih]
      rfl

/-- Text that stands anywhere among other bytes is cut out whole. -/
theorem pieces_append_encode {cs : List Char} (h : cs ≠ []) (before behind : Bytes) :
    pieces (before ++ encode cs ++ behind) = pieces before ++ cs.map .char ++ pieces behind := by
  obtain ⟨c, rest, rfl⟩ := List.exists_cons_of_ne_nil h
  rcases exists_isBoundary_utf8EncodeChar c with ⟨b, tail, hBytes, hBoundary⟩
  have hSplit : encode (c :: rest) ++ behind = b :: (tail ++ (encode rest ++ behind)) := by
    rw [encode_cons, hBytes, List.append_assoc]
    rfl
  have hWhole := piecesFrom_encode (c :: rest) behind
  rw [List.append_assoc, List.append_assoc]
  unfold pieces
  rw [← hWhole, hSplit]
  exact piecesFrom_append_of_isBoundary .idle hBoundary before _

/-!
# Bytes of texts
-/

theorem eq_map_char_of_mapM {found : List Piece} {cs : List Char}
    (h : found.mapM Piece.char? = some cs) : found = cs.map .char := by
  induction found generalizing cs with
  | nil =>
      cases h
      rfl
  | cons piece found ih =>
      cases piece with
      | illFormed bytes => cases h
      | char c =>
          rw [List.mapM_cons] at h
          rcases Option.bind_eq_some_iff.mp h with ⟨_, hHead, hRest⟩
          cases hHead
          rcases Option.bind_eq_some_iff.mp hRest with ⟨rest, hFound, hEq⟩
          cases hEq
          rw [ih hFound]
          rfl

theorem eq_map_char_of_decode? {bytes : Bytes} {cs : List Char} (h : decode? bytes = some cs) :
    pieces bytes = cs.map .char :=
  eq_map_char_of_mapM h

end Utf8

theorem bytesOf_of_textOf? {bytes : Utf8.Bytes} {text : String} (h : textOf? bytes = some text) :
    bytesOf text = bytes := by
  rcases Option.map_eq_some_iff.mp h with ⟨cs, hChars, rfl⟩
  have hBytes := Utf8.flatMap_bytes_pieces bytes
  rw [Utf8.eq_map_char_of_decode? hChars, List.flatMap_map] at hBytes
  unfold bytesOf
  rw [String.toList_ofList]
  exact hBytes

theorem lossyTextOf_of_textOf? {bytes : Utf8.Bytes} {text : String}
    (h : textOf? bytes = some text) : lossyTextOf bytes = text := by
  rcases Option.map_eq_some_iff.mp h with ⟨cs, hChars, rfl⟩
  unfold lossyTextOf Utf8.decodeLossy
  rw [Utf8.eq_map_char_of_decode? hChars, List.map_map]
  exact congrArg String.ofList (List.map_id cs)

end CatalogAudit
