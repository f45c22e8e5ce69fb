import CatalogAudit.Yaml.Block

/-!
# Literal blocks determine their texts

A literal block ends in front of the first line that stands further to the left. Its lines give the
text back up to the break at the end, and the hint in front of them tells about that break.
-/

namespace CatalogAudit
namespace Yaml

/-!
# Indented lines
-/

/-- What follows starts with a character in a column to the left, or there is nothing. -/
def Outdents (column : Nat) (rest : List Char) : Prop :=
  rest = [] ∨ ∃ indent c tail, indent < column ∧ rest = indentation indent ++ c :: tail ∧
    c ≠ ' ' ∧ isBreak c = false

theorem Outdents.mono {column column' : Nat} {rest : List Char} (h : Outdents column rest)
    (hLe : column ≤ column') : Outdents column' rest := by
  rcases h with hEmpty | ⟨indent, c, tail, hIndent, hRest⟩
  · exact Or.inl hEmpty
  · exact Or.inr ⟨indent, c, tail, Nat.lt_of_lt_of_le hIndent hLe, hRest⟩

theorem indentation_add (m n : Nat) :
    indentation (m + n) = indentation m ++ indentation n :=
  List.replicate_append_replicate.symm

/-- A break is no part of an indented line, so it does not stand where such a line begins. -/
theorem cons_ne_indented {b c : Char} (hBreak : isBreak b = true) (hChar : isBreak c = false)
    (indent : Nat) (xs ys : List Char) : b :: xs ≠ indentation indent ++ c :: ys := by
  intro h
  cases indent with
  | zero =>
      cases h
      exact absurd (hBreak.symm.trans hChar) (by decide)
  | succ indent =>
      cases h
      exact absurd hBreak (by decide)

theorem Outdents.ne_break_cons {column : Nat} {rest : List Char} (h : Outdents column rest)
    {b : Char} (hBreak : isBreak b = true) (tail : List Char) : rest ≠ b :: tail := by
  rintro rfl
  rcases h with hEmpty | ⟨indent, c, more, _, hRest, _, hChar⟩
  · cases hEmpty
  · exact cons_ne_indented hBreak hChar indent tail more hRest

theorem Outdents.ne_indented {column : Nat} {rest : List Char} (h : Outdents column rest)
    (c : Char) (tail : List Char) : rest ≠ indentation column ++ c :: tail := by
  intro hEq
  rcases h with rfl | ⟨indent, d, more, hIndent, rfl, hSpace, _⟩
  · simp at hEq
  · obtain ⟨further, rfl⟩ := Nat.exists_eq_add_of_lt hIndent
    rw [Nat.add_assoc, indentation_add, List.append_assoc] at hEq
    have hTail := List.append_cancel_left hEq
    cases hTail
    exact hSpace rfl

theorem append_cons_inj {a : α} {xs ys us vs : List α} (hXs : a ∉ xs) (hYs : a ∉ ys)
    (h : xs ++ a :: us = ys ++ a :: vs) : xs = ys ∧ us = vs := by
  induction xs generalizing ys with
  | nil =>
      cases ys with
      | nil => exact ⟨rfl, (List.cons.inj h).2⟩
      | cons y ys =>
          cases h
          exact absurd List.mem_cons_self hYs
  | cons x xs ih =>
      cases ys with
      | nil =>
          cases h
          exact absurd List.mem_cons_self hXs
      | cons y ys =>
          injection h with hHead hTail
          rcases ih (fun hMem => hXs (List.mem_cons_of_mem x hMem))
            (fun hMem => hYs (List.mem_cons_of_mem y hMem)) hTail with ⟨hRest, hAfter⟩
          exact ⟨by rw [hHead, hRest], hAfter⟩

/-!
# Literal blocks

The lines are compared as a whole, so both texts end with a break here. Whether that break belongs
to the text is told by the hint in front of the lines.
-/

/-- Whether a break comes last, the flag telling of the empty text. -/
def endsWithBreak : Bool → List Char → Bool
  | fresh, [] => fresh
  | _, c :: cs => endsWithBreak (isBreak c) cs

/-- How many blanks stand before the next character that is no break. -/
def margin (indent : Nat) (fresh : Bool) : Nat :=
  if fresh then indent else 0

theorem indentation_margin (indent : Nat) (fresh : Bool) :
    indentation (margin indent fresh) = if fresh then indentation indent else [] := by
  cases fresh <;> rfl

section Literal

variable {indent : Nat}

theorem literalRest_of_break (fresh : Bool) {c : Char} (h : isBreak c = true) (cs : List Char) :
    literalRest indent fresh (c :: cs) = c :: literalRest indent true cs := by
  rw [literalRest, if_pos h]

theorem literalRest_of_not_break (fresh : Bool) {c : Char} (h : isBreak c = false)
    (cs : List Char) :
    literalRest indent fresh (c :: cs) =
      indentation (margin indent fresh) ++ c :: literalRest indent false cs := by
  rw [literalRest, h, if_neg Bool.false_ne_true, indentation_margin]

theorem Outdents.ne_literalRest {r : List Char} (h : Outdents indent r) (d : Char)
    (ds r' : List Char) : r ≠ literalRest indent true (d :: ds) ++ r' := by
  cases hBreak : isBreak d with
  | true =>
      rw [literalRest_of_break true hBreak]
      exact h.ne_break_cons hBreak _
  | false =>
      rw [literalRest_of_not_break true hBreak, List.append_assoc]
      exact h.ne_indented d _

theorem literalRest_append_inj {fresh : Bool} {cs ds r r' : List Char}
    (hCs : endsWithBreak fresh cs = true) (hDs : endsWithBreak fresh ds = true)
    (hRest : Outdents indent r) (hRest' : Outdents indent r')
    (h : literalRest indent fresh cs ++ r = literalRest indent fresh ds ++ r') :
    cs = ds ∧ r = r' := by
  induction cs generalizing fresh ds with
  | nil =>
      cases hCs
      cases ds with
      | nil => exact ⟨rfl, h⟩
      | cons d ds => exact absurd h (hRest.ne_literalRest d ds r')
  | cons c cs ih =>
      cases ds with
      | nil =>
          cases hDs
          exact absurd h.symm (hRest'.ne_literalRest c cs r)
      | cons d ds =>
          rw [endsWithBreak] at hCs hDs
          cases hC : isBreak c with
          | true =>
              rw [literalRest_of_break fresh hC] at h
              cases hD : isBreak d with
              | true =>
                  rw [literalRest_of_break fresh hD] at h
                  injection h with hHead hTail
                  rcases ih (hC ▸ hCs) (hD ▸ hDs) hTail with ⟨hRests, hAfter⟩
                  exact ⟨by rw [hHead, hRests], hAfter⟩
              | false =>
                  rw [literalRest_of_not_break fresh hD, List.append_assoc] at h
                  exact absurd h (cons_ne_indented hC hD _ _ _)
          | false =>
              rw [literalRest_of_not_break fresh hC, List.append_assoc] at h
              cases hD : isBreak d with
              | true =>
                  rw [literalRest_of_break fresh hD] at h
                  exact absurd h.symm (cons_ne_indented hD hC _ _ _)
              | false =>
                  rw [literalRest_of_not_break fresh hD, List.append_assoc] at h
                  injection List.append_cancel_left h with hHead hTail
                  rcases ih (hC ▸ hCs) (hD ▸ hDs) hTail with ⟨hRests, hAfter⟩
                  exact ⟨by rw [hHead, hRests], hAfter⟩

theorem literalRest_snoc_break {b : Char} (h : isBreak b = true) (fresh : Bool)
    (cs : List Char) :
    literalRest indent fresh (cs ++ [b]) = literalRest indent fresh cs ++ [b] := by
  induction cs generalizing fresh with
  | nil => exact literalRest_of_break fresh h []
  | cons c cs ih =>
      rw [List.cons_append]
      cases hC : isBreak c with
      | true => rw [literalRest_of_break fresh hC, literalRest_of_break fresh hC, ih,
          List.cons_append]
      | false => rw [literalRest_of_not_break fresh hC, literalRest_of_not_break fresh hC, ih,
          List.append_assoc, List.cons_append]

theorem getLast?_literalRest (indent : Nat) (fresh : Bool) (cs : List Char) :
    (literalRest indent fresh cs).getLast? = cs.getLast? := by
  induction cs generalizing fresh with
  | nil => rfl
  | cons c cs ih =>
      cases hC : isBreak c with
      | true => rw [literalRest_of_break fresh hC, List.getLast?_cons, List.getLast?_cons, ih]
      | false =>
          rw [literalRest_of_not_break fresh hC, List.getLast?_append, List.getLast?_cons,
            List.getLast?_cons, ih, Option.some_or]

theorem endsWithBreak_eq (fresh : Bool) (cs : List Char) :
    endsWithBreak fresh cs = (cs.getLast?.map isBreak).getD fresh := by
  induction cs generalizing fresh with
  | nil => rfl
  | cons c cs ih =>
      rw [endsWithBreak, ih, List.getLast?_cons]
      cases cs.getLast? with
      | none => rfl
      | some d => rfl

theorem endsWithBreak_endLine (cs : List Char) : endsWithBreak true (endLine cs) = true := by
  rw [endsWithBreak_eq]
  unfold endLine
  cases hLast : cs.getLast? with
  | none => simp [isBreak]
  | some c =>
      cases hBreak : isBreak c with
      | true => simp [hLast, hBreak]
      | false => simp [hBreak]; rfl

theorem endLine_literalRest (cs : List Char) :
    endLine (literalRest indent true cs) = literalRest indent true (endLine cs) := by
  unfold endLine
  rw [getLast?_literalRest]
  cases cs.getLast?.any isBreak with
  | true => rfl
  | false => exact (literalRest_snoc_break rfl true cs).symm

end Literal

/-!
# Hints

A hint is one or two marks. The minus sign is among them iff no break comes last.
-/

theorem mem_chompHint_iff (cs : List Char) :
    '-' ∈ chompHint cs ↔ cs.getLast?.any isBreak = false := by
  unfold chompHint
  rw [← List.head?_reverse]
  cases cs.reverse with
  | nil => simp
  | cons c before =>
      cases before with
      | nil => cases hBreak : isBreak c <;> simp [hBreak]
      | cons d more => cases hBreak : isBreak c <;> cases hBefore : isBreak d <;>
          simp [hBreak, hBefore]

def hints (cs : List Char) : List Char :=
  indentHint cs ++ chompHint cs

theorem isDigit_of_mem_indentHint {cs : List Char} {c : Char} (h : c ∈ indentHint cs) :
    c.isDigit = true := by
  unfold indentHint at h
  split at h
  · rw [Nat.toString_eq_repr, Nat.toList_repr] at h
    exact Nat.isDigit_of_mem_toDigits (by decide) (by decide) h
  · cases h

theorem mem_hints_iff (cs : List Char) :
    '-' ∈ hints cs ↔ cs.getLast?.any isBreak = false := by
  have hIndent : '-' ∉ indentHint cs :=
    fun hMem => absurd (isDigit_of_mem_indentHint hMem) (by decide)
  unfold hints
  rw [List.mem_append, mem_chompHint_iff]
  simp [hIndent]

theorem newline_not_mem_hints (cs : List Char) : '\n' ∉ hints cs := by
  have hIndent : '\n' ∉ indentHint cs :=
    fun hMem => absurd (isDigit_of_mem_indentHint hMem) (by decide)
  have hChomp : '\n' ∉ chompHint cs := by
    unfold chompHint
    repeat' split
    all_goals decide
  unfold hints
  simp [hIndent, hChomp]

theorem endLine_inj {cs ds : List Char} (hHints : hints cs = hints ds)
    (h : endLine cs = endLine ds) : cs = ds := by
  have hSame : cs.getLast?.any isBreak = ds.getLast?.any isBreak := by
    have hIff := (mem_hints_iff cs).symm.trans (hHints ▸ mem_hints_iff ds)
    cases hCs : cs.getLast?.any isBreak <;> cases hDs : ds.getLast?.any isBreak <;>
      simp [hCs, hDs] at hIff ⊢
  unfold endLine at h
  rw [hSame] at h
  cases hBreak : ds.getLast?.any isBreak with
  | true =>
      rw [hBreak] at h
      exact h
  | false =>
      rw [hBreak] at h
      exact List.append_cancel_right h

end Yaml
end CatalogAudit
