import CatalogAudit.Text.Blank
import Mathlib.Data.List.Forall2

/-!
# Words without blanks and without case

Trimming takes all blanks off both ends of a text and leaves the rest as it is. Two words agree up
to case if they have the same letters in lower case, where only ASCII letters have a case.
-/

namespace CatalogAudit
namespace Text

/-!
# Trimming
-/

/-- `inner` is what blanks at both ends leave of a text. -/
structure IsTrimmed (cs inner : List Char) : Prop where
  exists_blanks : ∃ before behind, cs = before ++ inner ++ behind ∧
    (∀ c ∈ before, isBlank c = true) ∧ ∀ c ∈ behind, isBlank c = true
  first : ∀ c, inner.head? = some c → isBlank c = false
  last : ∀ c, inner.getLast? = some c → isBlank c = false

theorem isBlank_of_mem_takeWhile {cs : List Char} :
    ∀ c ∈ cs.takeWhile isBlank, isBlank c = true :=
  List.all_eq_true.mp List.all_takeWhile

theorem isBlank_head?_dropWhile {cs : List Char} {c : Char}
    (h : (cs.dropWhile isBlank).head? = some c) : isBlank c = false := by
  have hHead := List.head?_dropWhile_not isBlank cs
  rw [h] at hHead
  simpa using hHead

theorem trimEnd_append (cs : List Char) :
    cs = trimEnd cs ++ (cs.reverse.takeWhile isBlank).reverse := by
  unfold trimEnd
  rw [← List.reverse_append, List.takeWhile_append_dropWhile, List.reverse_reverse]

theorem isTrimmed_trim (cs : List Char) : IsTrimmed cs (trim cs) := by
  have hFront := List.takeWhile_append_dropWhile (p := isBlank) (l := cs)
  have hEnd := trimEnd_append (cs.dropWhile isBlank)
  constructor
  case exists_blanks =>
    refine ⟨cs.takeWhile isBlank, ((cs.dropWhile isBlank).reverse.takeWhile isBlank).reverse, ?_,
      isBlank_of_mem_takeWhile, ?_⟩
    · rw [List.append_assoc]
      unfold trim
      rw [← hEnd, hFront]
    · intro c hMem
      exact isBlank_of_mem_takeWhile c (List.mem_reverse.mp hMem)
  case first =>
    intro c hHead
    unfold trim at hHead
    rcases List.head?_eq_some_iff.mp hHead with ⟨rest, hRest⟩
    rw [hRest] at hEnd
    apply isBlank_head?_dropWhile
    rw [hEnd]
    rfl
  case last =>
    intro c hLast
    unfold trim trimEnd at hLast
    rw [List.getLast?_reverse] at hLast
    exact isBlank_head?_dropWhile hLast

/-!
# Case
-/

def SameLetter (c d : Char) : Prop :=
  c = d ∨ ('A' ≤ c ∧ c ≤ 'Z' ∧ d.toNat = c.toNat + 32) ∨
    ('A' ≤ d ∧ d ≤ 'Z' ∧ c.toNat = d.toNat + 32)

def EqUpToCase (cs ds : List Char) : Prop :=
  List.Forall₂ SameLetter cs ds

theorem toNat_toLower (c : Char) :
    c.toLower.toNat = if 65 ≤ c.toNat ∧ c.toNat ≤ 90 then c.toNat + 32 else c.toNat := by
  have hRange : (c.val ≥ 'A'.val ∧ c.val ≤ 'Z'.val) ↔ 65 ≤ c.toNat ∧ c.toNat ≤ 90 := by
    simp only [ge_iff_le, UInt32.le_iff_toNat_le]
    exact Iff.rfl
  unfold Char.toLower
  split
  · rename_i hUpper
    have hShift : ('a'.val - 'A'.val).toNat = 32 := rfl
    have hNat := hRange.mp hUpper
    have hSmall : c.val.toNat ≤ 90 := hNat.2
    rw [if_pos hNat]
    show (c.val + ('a'.val - 'A'.val)).toNat = c.val.toNat + 32
    rw [UInt32.toNat_add, hShift]
    omega
  · rename_i hOther
    rw [if_neg fun hNat => hOther (hRange.mpr hNat)]

theorem sameLetter_iff {c d : Char} : SameLetter c d ↔ c.toLower = d.toLower := by
  have hRange (e : Char) : ('A' ≤ e ↔ 65 ≤ e.toNat) ∧ (e ≤ 'Z' ↔ e.toNat ≤ 90) := by
    simp only [Char.le_def, UInt32.le_iff_toNat_le]
    exact ⟨Iff.rfl, Iff.rfl⟩
  unfold SameLetter
  rw [(hRange c).1, (hRange c).2, (hRange d).1, (hRange d).2, ← Char.toNat_inj, ← Char.toNat_inj,
    toNat_toLower, toNat_toLower]
  split
  · split
    · omega
    · omega
  · split
    · omega
    · omega

theorem lowerAscii_eq_iff {cs ds : List Char} :
    lowerAscii cs = lowerAscii ds ↔ EqUpToCase cs ds := by
  unfold lowerAscii EqUpToCase
  rw [← List.forall₂_eq_eq_eq, List.forall₂_map_left_iff, List.forall₂_map_right_iff]
  constructor
  · intro h
    exact h.imp fun _ _ => sameLetter_iff.mpr
  · intro h
    exact h.imp fun _ _ => sameLetter_iff.mp

end Text
end CatalogAudit
