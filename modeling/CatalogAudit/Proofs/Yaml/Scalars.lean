import CatalogAudit.Proofs.Yaml.Quotes

/-!
# Scalars determine their texts

The first character of a scalar tells its style, and each style is split off uniquely from what
follows in a column further to the left.
-/

namespace CatalogAudit
namespace Yaml

/-!
# Styles
-/

theorem allowsPlain_of_plain {cs : List Char} (h : styleOf cs = .plain) :
    '\n' ∉ cs ∧ allowsPlain cs = true := by
  unfold styleOf at h
  split at h
  · split at h <;> cases h
  · rename_i hNewline
    split at h
    · rename_i hPlain
      exact ⟨fun hMem => hNewline (List.contains_iff_mem.mpr hMem), hPlain⟩
    · split at h <;> cases h

theorem newline_mem_of_literal {cs : List Char} (h : styleOf cs = .literal) : '\n' ∈ cs := by
  unfold styleOf at h
  split at h
  · rename_i hNewline
    exact List.contains_iff_mem.mp hNewline
  · split at h
    · cases h
    · split at h <;> cases h

theorem exists_cons_of_allowsPlain {cs : List Char} (h : allowsPlain cs = true) :
    ∃ c tail, cs = c :: tail ∧ c ∉ startIndicators := by
  unfold allowsPlain at h
  simp only [Bool.and_eq_true, Bool.not_eq_true'] at h
  cases cs with
  | nil => exact absurd h.2 (by decide)
  | cons c tail =>
      refine ⟨c, tail, rfl, ?_⟩
      intro hMem
      have hIndicator := h.1.2
      simp [hasIndicator, startsLikeConstruct, hMem] at hIndicator

def Style.Opens : Style → Char → Prop
  | .plain, c => c ∉ startIndicators
  | .singleQuoted, c => c = '\''
  | .doubleQuoted, c => c = '"'
  | .literal, c => c = '|'

theorem Style.Opens.unique {style style' : Style} {c : Char} (h : style.Opens c)
    (h' : style'.Opens c) : style = style' := by
  cases style <;> cases style' <;> simp_all [Style.Opens, startIndicators]

section Scalars

variable {indent : Nat} {cs : List Char}

theorem scalar_of_plain (h : styleOf cs = .plain) : scalar indent cs = cs := by
  unfold scalar
  rw [h]

theorem scalar_of_singleQuoted (h : styleOf cs = .singleQuoted) :
    scalar indent cs = '\'' :: singleQuotedRest indent false cs := by
  unfold scalar
  rw [h]

theorem scalar_of_doubleQuoted (h : styleOf cs = .doubleQuoted) :
    scalar indent cs = '"' :: cs.flatMap doubleQuotedChar ++ ['"'] := by
  unfold scalar
  rw [h]

theorem scalar_of_literal (h : styleOf cs = .literal) :
    scalar indent cs = '|' :: hints cs ++ '\n' :: literalRest indent true cs := by
  unfold scalar hints
  rw [h]
  simp

theorem exists_opening (indent : Nat) (cs : List Char) :
    ∃ c tail, scalar indent cs = c :: tail ∧ (styleOf cs).Opens c := by
  cases h : styleOf cs with
  | plain =>
      rw [scalar_of_plain h]
      exact exists_cons_of_allowsPlain (allowsPlain_of_plain h).2
  | singleQuoted => exact ⟨_, _, scalar_of_singleQuoted h, rfl⟩
  | doubleQuoted => exact ⟨_, _, scalar_of_doubleQuoted h, rfl⟩
  | literal => exact ⟨_, _, scalar_of_literal h, rfl⟩

end Scalars

/-!
# Lines
-/

theorem exists_endLine_eq (cs : List Char) : ∃ suffix, endLine cs = cs ++ suffix := by
  unfold endLine
  split
  · exact ⟨[], (List.append_nil cs).symm⟩
  · exact ⟨_, rfl⟩

theorem endLine_append (xs : List Char) {ys : List Char} (h : ys ≠ []) :
    endLine (xs ++ ys) = xs ++ endLine ys := by
  have hLast : (xs ++ ys).getLast? = ys.getLast? := by
    rw [List.getLast?_append, List.getLast?_eq_some_getLast h, Option.some_or]
  unfold endLine
  rw [hLast]
  split
  · rfl
  · exact List.append_assoc xs ys _

theorem exists_singleQuotedRest_eq (indent : Nat) (fresh : Bool) (cs : List Char) :
    ∃ inside, singleQuotedRest indent fresh cs = inside ++ ['\''] := by
  induction cs generalizing fresh with
  | nil => exact ⟨_, singleQuotedRest_nil fresh⟩
  | cons c cs ih =>
      cases hBreak : isBreak c with
      | true =>
          rcases ih true with ⟨inside, hInside⟩
          rw [singleQuotedRest_of_break fresh hBreak, hInside]
          exact ⟨c :: inside, rfl⟩
      | false =>
          rcases ih false with ⟨inside, hInside⟩
          rw [singleQuotedRest_of_not_break fresh hBreak, hInside, ← List.append_assoc,
            ← List.append_assoc]
          exact ⟨_, rfl⟩

section Lines

variable {column : Nat} {cs : List Char}

theorem scalarLine_of_plain (h : styleOf cs = .plain) :
    scalarLine column cs = cs ++ ['\n'] := by
  have hBare : ∀ c ∈ cs, isBreak c = false := by
    have hAllows := (allowsPlain_of_plain h).2
    unfold allowsPlain at hAllows
    simp only [Bool.and_eq_true, List.all_eq_true, Bool.not_eq_true'] at hAllows
    exact fun c hMem => (hAllows.1.1.1.1 c hMem).2
  unfold scalarLine endLine
  rw [scalar_of_plain h, if_neg]
  rw [Option.any_eq_true]
  rintro ⟨c, hLast, hBreak⟩
  exact absurd (hBreak.symm.trans (hBare c (List.mem_of_getLast? hLast))) (by decide)

theorem scalarLine_of_singleQuoted (h : styleOf cs = .singleQuoted) :
    scalarLine column cs = '\'' :: singleQuotedRest (column + indentStep) false cs ++ ['\n'] := by
  rcases exists_singleQuotedRest_eq (column + indentStep) false cs with
    ⟨inside, hInside⟩
  unfold scalarLine
  rw [scalar_of_singleQuoted h, hInside, ← List.cons_append,
    endLine_append _ (List.cons_ne_nil _ _), List.append_assoc]
  rfl

theorem scalarLine_of_doubleQuoted (h : styleOf cs = .doubleQuoted) :
    scalarLine column cs = '"' :: cs.flatMap doubleQuotedChar ++ ['"', '\n'] := by
  unfold scalarLine
  rw [scalar_of_doubleQuoted h, endLine_append _ (List.cons_ne_nil _ _)]
  rfl

theorem scalarLine_of_literal (h : styleOf cs = .literal) :
    scalarLine column cs =
      '|' :: hints cs ++ '\n' :: literalRest (column + indentStep) true (endLine cs) := by
  have hNonempty : literalRest (column + indentStep) true cs ≠ [] := by
    intro hEmpty
    have hLast := getLast?_literalRest (column + indentStep) true cs
    rw [hEmpty] at hLast
    exact List.ne_nil_of_mem (newline_mem_of_literal h) (List.getLast?_eq_none_iff.mp hLast.symm)
  unfold scalarLine
  rw [scalar_of_literal h, List.append_cons, endLine_append _ hNonempty, endLine_literalRest,
    ← List.append_cons]

theorem exists_opening_scalarLine (column : Nat) (cs : List Char) :
    ∃ c tail, scalarLine column cs = c :: tail ∧ (styleOf cs).Opens c := by
  rcases exists_opening (column + indentStep) cs with ⟨c, tail, hScalar, hOpens⟩
  rcases exists_endLine_eq (scalar (column + indentStep) cs) with ⟨suffix, hLine⟩
  refine ⟨c, tail ++ suffix, ?_, hOpens⟩
  unfold scalarLine
  rw [hLine, hScalar]
  rfl

theorem styleOf_eq {ds r r' : List Char}
    (h : scalarLine column cs ++ r = scalarLine column ds ++ r') : styleOf cs = styleOf ds := by
  rcases exists_opening_scalarLine column cs with ⟨c, tail, hCs, hOpens⟩
  rcases exists_opening_scalarLine column ds with ⟨d, tail', hDs, hOpens'⟩
  rw [hCs, hDs] at h
  injection h with hHead _
  exact hOpens.unique (hHead ▸ hOpens')

/-- The line or lines of a scalar are told apart from what follows, and determine the text. -/
theorem scalarLine_append_inj {ds r r' : List Char}
    (hRest : Outdents (column + indentStep) r) (hRest' : Outdents (column + indentStep) r')
    (h : scalarLine column cs ++ r = scalarLine column ds ++ r') : cs = ds ∧ r = r' := by
  have hStyle := styleOf_eq h
  cases hDs : styleOf ds with
  | plain =>
      have hCs := hStyle.trans hDs
      rw [scalarLine_of_plain hCs, scalarLine_of_plain hDs, ← List.append_cons,
        ← List.append_cons] at h
      exact append_cons_inj (allowsPlain_of_plain hCs).1 (allowsPlain_of_plain hDs).1 h
  | singleQuoted =>
      rw [scalarLine_of_singleQuoted (hStyle.trans hDs), scalarLine_of_singleQuoted hDs,
        ← List.append_cons, ← List.append_cons] at h
      injection h with _ hInside
      rcases singleQuotedRest_append_inj (by simp) (by simp) hInside with ⟨hText, hAfter⟩
      exact ⟨hText, (List.cons.inj hAfter).2⟩
  | doubleQuoted =>
      rw [scalarLine_of_doubleQuoted (hStyle.trans hDs), scalarLine_of_doubleQuoted hDs,
        List.append_assoc, List.append_assoc] at h
      injection h with _ hInside
      rcases doubleQuoted_append_inj hInside with ⟨hText, hAfter⟩
      exact ⟨hText, (List.cons.inj hAfter).2⟩
  | literal =>
      rw [scalarLine_of_literal (hStyle.trans hDs), scalarLine_of_literal hDs,
        List.append_assoc, List.append_assoc] at h
      injection h with _ hInside
      rcases append_cons_inj (newline_not_mem_hints cs) (newline_not_mem_hints ds) hInside with
        ⟨hHints, hLines⟩
      rcases literalRest_append_inj (endsWithBreak_endLine cs) (endsWithBreak_endLine ds) hRest
        hRest' hLines with ⟨hText, hAfter⟩
      exact ⟨endLine_inj hHints hText, hAfter⟩

end Lines

end Yaml
end CatalogAudit
