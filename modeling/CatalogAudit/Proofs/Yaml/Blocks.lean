import CatalogAudit.Proofs.Yaml.Scalars

/-!
# Blocks determine their documents

Two documents of the same kind that have the same text are equal. Numbers and texts are told apart
by their places only, so documents are compared that have texts, numbers, lists, and records in the
same places. Lists may differ in length, and records in the fields that they have.
-/

namespace CatalogAudit
namespace Yaml

/-!
# Documents of the same kind
-/

/-- The names of fields that need no quotes in any place. -/
def IsName (name : String) : Prop :=
  name.toList ≠ [] ∧ ∀ c ∈ name.toList, c.isAlpha = true

instance : DecidablePred IsName :=
  fun name => decidable_of_iff (name.toList ≠ [] ∧ name.toList.all Char.isAlpha = true)
    (and_congr_right fun _ => List.all_eq_true)

inductive Alike : Block → Block → Prop where
  | text (s s' : String) : Alike (.text s) (.text s')
  | number (n n' : Nat) : Alike (.number n) (.number n')
  | items {blocks blocks' : List Block}
      (alike : ∀ block ∈ blocks, ∀ block' ∈ blocks', Alike block block') :
      Alike (.items blocks) (.items blocks')
  | fields {entries entries' : List (String × Block)}
      (names : ∀ entry ∈ entries, IsName entry.1) (names' : ∀ entry ∈ entries', IsName entry.1)
      (alike : ∀ entry ∈ entries, ∀ entry' ∈ entries', entry.1 = entry'.1 →
        Alike entry.2 entry'.2) :
      Alike (.fields entries) (.fields entries')

theorem isBreak_of_isAlpha {c : Char} (h : c.isAlpha = true) : isBreak c = false := by
  cases hBreak : isBreak c with
  | false => rfl
  | true =>
      unfold isBreak at hBreak
      simp only [Bool.or_eq_true, decide_eq_true_eq] at hBreak
      rcases hBreak with (((rfl | rfl) | rfl) | rfl) | rfl
      all_goals exact absurd h (by decide)

theorem IsName.exists_cons {name : String} (h : IsName name) :
    ∃ c tail, name.toList = c :: tail ∧ c.isAlpha = true := by
  obtain ⟨c, tail, hName⟩ := List.exists_cons_of_ne_nil h.1
  exact ⟨c, tail, hName, h.2 c (hName ▸ List.mem_cons_self)⟩

theorem IsName.colon_not_mem {name : String} (h : IsName name) : ':' ∉ name.toList :=
  fun hMem => absurd (h.2 _ hMem) (by decide)

/-!
# Lines

The lines of a list and of a record, each with the blanks in front of it.
-/

variable {column : Nat}

def listLines (column : Nat) (blocks : List Block) : List Char :=
  blocks.flatMap fun block => indentation column ++ '-' :: itemValue column block

def recordLines (column : Nat) (entries : List (String × Block)) : List Char :=
  entries.flatMap fun entry =>
    indentation column ++ (entry.1.toList ++ ':' :: fieldValue column entry.2)

theorem indentation_append_itemLines (block : Block) (blocks : List Block) :
    indentation column ++ itemLines column (block :: blocks) =
      listLines column (block :: blocks) := by
  induction blocks generalizing block with
  | nil => simp [listLines, itemLines]
  | cons next blocks ih =>
      rw [itemLines, List.append_assoc, ih]
      simp [listLines]

theorem indentation_append_fieldLines (entry : String × Block)
    (entries : List (String × Block)) :
    indentation column ++ fieldLines column (entry :: entries) =
      recordLines column (entry :: entries) := by
  induction entries generalizing entry with
  | nil =>
      obtain ⟨name, block⟩ := entry
      simp [recordLines, fieldLines]
  | cons next entries ih =>
      obtain ⟨name, block⟩ := entry
      rw [fieldLines, List.append_assoc, ih]
      simp [recordLines]

/-!
# What follows

A list may be followed by a name in its own column, but not by another item there.
-/

structure EndsList (column : Nat) (rest : List Char) : Prop where
  outdents : Outdents (column + 1) rest
  noItem : ∀ tail, rest ≠ indentation column ++ '-' :: tail

theorem Outdents.endsList {rest : List Char} (h : Outdents column rest) : EndsList column rest :=
  ⟨h.mono (Nat.le_succ column), fun tail => h.ne_indented '-' tail⟩

theorem outdents_listLines {blocks : List Block} {r : List Char} (h : Outdents (column + 1) r) :
    Outdents (column + 1) (listLines column blocks ++ r) := by
  cases blocks with
  | nil => exact h
  | cons block blocks =>
      right
      refine ⟨column, '-', itemValue column block ++ (listLines column blocks ++ r),
        Nat.lt_succ_self column, ?_, by decide, by decide⟩
      simp [listLines]

theorem endsList_recordLines {entries : List (String × Block)}
    (hNames : ∀ entry ∈ entries, IsName entry.1) {r : List Char} (h : Outdents column r) :
    EndsList column (recordLines column entries ++ r) := by
  cases entries with
  | nil => exact h.endsList
  | cons entry entries =>
      rcases (hNames entry List.mem_cons_self).exists_cons with ⟨c, name, hName, hAlpha⟩
      have hLines : recordLines column (entry :: entries) ++ r = indentation column ++
          c :: (name ++ ':' ::
            (fieldValue column entry.2 ++ (recordLines column entries ++ r))) := by
        simp [recordLines, hName]
      rw [hLines]
      constructor
      · right
        refine ⟨column, c, _, Nat.lt_succ_self column, rfl, ?_, isBreak_of_isAlpha hAlpha⟩
        rintro rfl
        exact absurd hAlpha (by decide)
      · intro tail hEq
        cases List.append_cancel_left hEq
        exact absurd hAlpha (by decide)

/-!
# Values
-/

/-- The values of two items are told apart from what follows, and are equal if their texts are. -/
def ItemsSplit (column : Nat) (block block' : Block) : Prop :=
  ∀ r r', Outdents (column + 1) r → Outdents (column + 1) r' →
    itemValue column block ++ r = itemValue column block' ++ r' → block = block' ∧ r = r'

def FieldsSplit (column : Nat) (block block' : Block) : Prop :=
  ∀ r r', EndsList column r → EndsList column r' →
    fieldValue column block ++ r = fieldValue column block' ++ r' → block = block' ∧ r = r'

theorem listLines_append_inj {blocks blocks' : List Block}
    (hItems : ∀ block ∈ blocks, ∀ block' ∈ blocks', ItemsSplit column block block')
    {r r' : List Char} (hRest : EndsList column r) (hRest' : EndsList column r')
    (h : listLines column blocks ++ r = listLines column blocks' ++ r') :
    blocks = blocks' ∧ r = r' := by
  have hCons : ∀ block blocks r, listLines column (block :: blocks) ++ r =
      indentation column ++ '-' :: (itemValue column block ++ (listLines column blocks ++ r)) := by
    intro block blocks r
    simp [listLines]
  induction blocks generalizing blocks' with
  | nil =>
      cases blocks' with
      | nil => exact ⟨rfl, h⟩
      | cons block' blocks' => exact absurd (h.trans (hCons ..)) (hRest.noItem _)
  | cons block blocks ih =>
      cases blocks' with
      | nil => exact absurd (h.symm.trans (hCons ..)) (hRest'.noItem _)
      | cons block' blocks' =>
          rw [hCons, hCons] at h
          injection List.append_cancel_left h with _ hValues
          rcases hItems block List.mem_cons_self block' List.mem_cons_self _ _
            (outdents_listLines hRest.outdents) (outdents_listLines hRest'.outdents) hValues with
            ⟨hBlock, hLines⟩
          rcases ih (fun b hB b' hB' => hItems b (List.mem_cons_of_mem _ hB) b'
            (List.mem_cons_of_mem _ hB')) hLines with ⟨hBlocks, hAfter⟩
          exact ⟨by rw [hBlock, hBlocks], hAfter⟩

theorem recordLines_append_inj {entries entries' : List (String × Block)}
    (hNames : ∀ entry ∈ entries, IsName entry.1) (hNames' : ∀ entry ∈ entries', IsName entry.1)
    (hFields : ∀ entry ∈ entries, ∀ entry' ∈ entries', entry.1 = entry'.1 →
      FieldsSplit column entry.2 entry'.2)
    {r r' : List Char} (hRest : Outdents column r) (hRest' : Outdents column r')
    (h : recordLines column entries ++ r = recordLines column entries' ++ r') :
    entries = entries' ∧ r = r' := by
  have hCons : ∀ (entry : String × Block) (entries : List (String × Block)) r,
      recordLines column (entry :: entries) ++ r = indentation column ++
        (entry.1.toList ++ ':' :: (fieldValue column entry.2 ++
          (recordLines column entries ++ r))) := by
    intro entry entries r
    simp [recordLines]
  have hEnd : ∀ {entry : String × Block} {entries : List (String × Block)} {r r' : List Char},
      IsName entry.1 → Outdents column r → r ≠ recordLines column (entry :: entries) ++ r' := by
    intro entry entries r r' hName hRest hEq
    rcases hName.exists_cons with ⟨c, name, hChars, _⟩
    rw [hCons, hChars] at hEq
    exact hRest.ne_indented _ _ hEq
  induction entries generalizing entries' with
  | nil =>
      cases entries' with
      | nil => exact ⟨rfl, h⟩
      | cons entry' entries' => exact absurd h (hEnd (hNames' entry' List.mem_cons_self) hRest)
  | cons entry entries ih =>
      cases entries' with
      | nil => exact absurd h.symm (hEnd (hNames entry List.mem_cons_self) hRest')
      | cons entry' entries' =>
          obtain ⟨hName, hNames⟩ := List.forall_mem_cons.mp hNames
          obtain ⟨hName', hNames'⟩ := List.forall_mem_cons.mp hNames'
          rw [hCons, hCons] at h
          rcases append_cons_inj hName.colon_not_mem hName'.colon_not_mem
            (List.append_cancel_left h) with ⟨hSame, hValues⟩
          have hSame := String.toList_injective hSame
          rcases hFields entry List.mem_cons_self entry' List.mem_cons_self hSame _ _
            (endsList_recordLines hNames hRest) (endsList_recordLines hNames' hRest')
            hValues with ⟨hBlock, hLines⟩
          rcases ih hNames hNames' (fun e hE e' hE' => hFields e (List.mem_cons_of_mem _ hE) e'
            (List.mem_cons_of_mem _ hE')) hLines with ⟨hEntries, hAfter⟩
          exact ⟨by rw [Prod.ext hSame hBlock, hEntries], hAfter⟩

theorem text_append_inj {s s' : String} {r r' : List Char}
    (hRest : Outdents (column + 1) r) (hRest' : Outdents (column + 1) r')
    (h : ' ' :: scalarLine column s.toList ++ r = ' ' :: scalarLine column s'.toList ++ r') :
    s = s' ∧ r = r' := by
  injection h with _ hLine
  rcases scalarLine_append_inj (hRest.mono (Nat.le_succ _)) (hRest'.mono (Nat.le_succ _)) hLine with
    ⟨hText, hAfter⟩
  exact ⟨String.toList_injective hText, hAfter⟩

theorem newline_not_mem_toString (n : Nat) : '\n' ∉ (toString n).toList := by
  intro hMem
  rw [Nat.toString_eq_repr, Nat.toList_repr] at hMem
  exact absurd (Nat.isDigit_of_mem_toDigits (by decide) (by decide) hMem) (by decide)

theorem toList_toString_inj {n n' : Nat} (h : (toString n).toList = (toString n').toList) :
    n = n' := by
  rw [Nat.toString_eq_repr, Nat.toString_eq_repr, Nat.toList_repr, Nat.toList_repr] at h
  have hValues := congrArg (fun digits => Nat.ofDigitChars 10 digits 0) h
  simpa only [Nat.ofDigitChars_ten_toDigits] using hValues

theorem number_append_inj {n n' : Nat} {r r' : List Char}
    (h : ' ' :: (toString n).toList ++ ['\n'] ++ r = ' ' :: (toString n').toList ++ ['\n'] ++ r') :
    n = n' ∧ r = r' := by
  rw [← List.append_cons, ← List.append_cons] at h
  injection h with _ hLine
  rcases append_cons_inj (newline_not_mem_toString n) (newline_not_mem_toString n') hLine with
    ⟨hDigits, hAfter⟩
  exact ⟨toList_toString_inj hDigits, hAfter⟩

/-!
# Lists and records as values

An empty list or record is written in brackets, and no other one begins like that.
-/

theorem empty_items_ne (block : Block) (blocks : List Block) (r r' : List Char) :
    itemValue column (.items []) ++ r ≠ itemValue column (.items (block :: blocks)) ++ r' ∧
      fieldValue column (.items []) ++ r ≠ fieldValue column (.items (block :: blocks)) ++ r' := by
  rw [itemValue, itemValue, fieldValue, fieldValue]
  constructor
  · intro h
    injection h with _ hLines
    cases blocks with
    | nil =>
        rw [itemLines] at hLines
        injection hLines with hHead _
        exact absurd hHead (by decide)
    | cons next blocks =>
        rw [itemLines] at hLines
        injection hLines with hHead _
        exact absurd hHead (by decide)
  · intro h
    injection h with hHead _
    exact absurd hHead (by decide)

theorem empty_fields_ne {entry : String × Block} (hName : IsName entry.1)
    (entries : List (String × Block)) (r r' : List Char) :
    itemValue column (.fields []) ++ r ≠ itemValue column (.fields (entry :: entries)) ++ r' ∧
      fieldValue column (.fields []) ++ r ≠
        fieldValue column (.fields (entry :: entries)) ++ r' := by
  rw [itemValue, itemValue, fieldValue, fieldValue]
  constructor
  · intro h
    injection h with _ hLines
    obtain ⟨name, block⟩ := entry
    rcases hName.exists_cons with ⟨c, tail, hChars, hAlpha⟩
    have hBrace : '\x7b' = c := by
      cases entries with
      | nil =>
          rw [fieldLines, hChars] at hLines
          exact (List.cons.inj hLines).1
      | cons next entries =>
          rw [fieldLines, hChars] at hLines
          exact (List.cons.inj hLines).1
    rw [← hBrace] at hAlpha
    exact absurd hAlpha (by decide)
  · intro h
    injection h with hHead _
    exact absurd hHead (by decide)

theorem listLines_eq_of_itemLines {block block' : Block} {blocks blocks' : List Block}
    {r r' : List Char}
    (h : itemLines column (block :: blocks) ++ r = itemLines column (block' :: blocks') ++ r') :
    listLines column (block :: blocks) ++ r = listLines column (block' :: blocks') ++ r' := by
  rw [← indentation_append_itemLines, ← indentation_append_itemLines, List.append_assoc,
    List.append_assoc, h]

theorem recordLines_eq_of_fieldLines {entry entry' : String × Block}
    {entries entries' : List (String × Block)} {r r' : List Char}
    (h : fieldLines column (entry :: entries) ++ r = fieldLines column (entry' :: entries') ++ r') :
    recordLines column (entry :: entries) ++ r = recordLines column (entry' :: entries') ++ r' := by
  rw [← indentation_append_fieldLines, ← indentation_append_fieldLines, List.append_assoc,
    List.append_assoc, h]

theorem fieldValue_items_cons (block : Block) (blocks : List Block) :
    fieldValue column (.items (block :: blocks)) = '\n' :: listLines column (block :: blocks) := by
  rw [fieldValue, List.cons_append, indentation_append_itemLines]

theorem fieldValue_fields_cons (entry : String × Block) (entries : List (String × Block)) :
    fieldValue column (.fields (entry :: entries)) =
      '\n' :: recordLines (column + indentStep) (entry :: entries) := by
  rw [fieldValue, List.cons_append, indentation_append_fieldLines]

theorem items_split {blocks blocks' : List Block}
    (hItems : ∀ column, ∀ block ∈ blocks, ∀ block' ∈ blocks', ItemsSplit column block block')
    (column : Nat) :
    ItemsSplit column (.items blocks) (.items blocks') ∧
      FieldsSplit column (.items blocks) (.items blocks') := by
  have hNext : column + 1 ≤ column + indentStep := Nat.le_succ _
  cases blocks with
  | nil =>
      cases blocks' with
      | nil => exact ⟨fun r r' _ _ h => ⟨rfl, List.append_cancel_left h⟩,
          fun r r' _ _ h => ⟨rfl, List.append_cancel_left h⟩⟩
      | cons block' blocks' => exact ⟨fun r r' _ _ h => absurd h (empty_items_ne _ _ _ _).1,
          fun r r' _ _ h => absurd h (empty_items_ne _ _ _ _).2⟩
  | cons block blocks =>
      cases blocks' with
      | nil => exact ⟨fun r r' _ _ h => absurd h.symm (empty_items_ne _ _ _ _).1,
          fun r r' _ _ h => absurd h.symm (empty_items_ne _ _ _ _).2⟩
      | cons block' blocks' =>
          constructor
          · intro r r' hRest hRest' h
            rw [itemValue, itemValue] at h
            injection h with _ hLines
            rcases listLines_append_inj (hItems _) (hRest.mono hNext).endsList
              (hRest'.mono hNext).endsList (listLines_eq_of_itemLines hLines) with
              ⟨hBlocks, hAfter⟩
            exact ⟨by rw [hBlocks], hAfter⟩
          · intro r r' hRest hRest' h
            rw [fieldValue_items_cons, fieldValue_items_cons] at h
            injection h with _ hLines
            rcases listLines_append_inj (hItems _) hRest hRest' hLines with ⟨hBlocks, hAfter⟩
            exact ⟨by rw [hBlocks], hAfter⟩

theorem fields_split {entries entries' : List (String × Block)}
    (hNames : ∀ entry ∈ entries, IsName entry.1) (hNames' : ∀ entry ∈ entries', IsName entry.1)
    (hFields : ∀ column, ∀ entry ∈ entries, ∀ entry' ∈ entries', entry.1 = entry'.1 →
      FieldsSplit column entry.2 entry'.2)
    (column : Nat) :
    ItemsSplit column (.fields entries) (.fields entries') ∧
      FieldsSplit column (.fields entries) (.fields entries') := by
  have hNext : column + 1 ≤ column + indentStep := Nat.le_succ _
  cases entries with
  | nil =>
      cases entries' with
      | nil => exact ⟨fun r r' _ _ h => ⟨rfl, List.append_cancel_left h⟩,
          fun r r' _ _ h => ⟨rfl, List.append_cancel_left h⟩⟩
      | cons entry' entries' =>
          have hName := hNames' entry' List.mem_cons_self
          exact ⟨fun r r' _ _ h => absurd h (empty_fields_ne hName _ _ _).1,
            fun r r' _ _ h => absurd h (empty_fields_ne hName _ _ _).2⟩
  | cons entry entries =>
      cases entries' with
      | nil =>
          have hName := hNames entry List.mem_cons_self
          exact ⟨fun r r' _ _ h => absurd h.symm (empty_fields_ne hName _ _ _).1,
            fun r r' _ _ h => absurd h.symm (empty_fields_ne hName _ _ _).2⟩
      | cons entry' entries' =>
          constructor
          · intro r r' hRest hRest' h
            rw [itemValue, itemValue] at h
            injection h with _ hLines
            rcases recordLines_append_inj hNames hNames' (hFields _) (hRest.mono hNext)
              (hRest'.mono hNext) (recordLines_eq_of_fieldLines hLines) with ⟨hEntries, hAfter⟩
            exact ⟨by rw [hEntries], hAfter⟩
          · intro r r' hRest hRest' h
            rw [fieldValue_fields_cons, fieldValue_fields_cons] at h
            injection h with _ hLines
            rcases recordLines_append_inj hNames hNames' (hFields _)
              (hRest.outdents.mono hNext) (hRest'.outdents.mono hNext) hLines with
              ⟨hEntries, hAfter⟩
            exact ⟨by rw [hEntries], hAfter⟩

/-!
# Documents
-/

theorem Alike.split {block block' : Block} (h : Alike block block') (column : Nat) :
    ItemsSplit column block block' ∧ FieldsSplit column block block' := by
  induction h generalizing column with
  | text s s' =>
      constructor
      · intro r r' hRest hRest' h
        rw [itemValue, itemValue] at h
        rcases text_append_inj hRest hRest' h with ⟨hText, hAfter⟩
        exact ⟨by rw [hText], hAfter⟩
      · intro r r' hRest hRest' h
        rw [fieldValue, fieldValue] at h
        rcases text_append_inj hRest.outdents hRest'.outdents h with ⟨hText, hAfter⟩
        exact ⟨by rw [hText], hAfter⟩
  | number n n' =>
      constructor
      · intro r r' _ _ h
        rw [itemValue, itemValue] at h
        rcases number_append_inj h with ⟨hNumber, hAfter⟩
        exact ⟨by rw [hNumber], hAfter⟩
      · intro r r' _ _ h
        rw [fieldValue, fieldValue] at h
        rcases number_append_inj h with ⟨hNumber, hAfter⟩
        exact ⟨by rw [hNumber], hAfter⟩
  | items _ ih =>
      exact items_split (fun column block hBlock block' hBlock' =>
        (ih block hBlock block' hBlock' column).1) column
  | fields names names' _ ih =>
      exact fields_split names names' (fun column entry hEntry entry' hEntry' hSame =>
        (ih entry hEntry entry' hEntry' hSame column).2) column

theorem document_inj {entries entries' : List (String × Block)}
    (h : Alike (.fields entries) (.fields entries'))
    (hText : document entries = document entries') : entries = entries' := by
  cases h with
  | fields names names' alike =>
      have hLines : ∀ entries : List (String × Block), recordLines 0 entries ++ [] =
          (document entries).toList := by
        intro entries
        unfold document
        rw [List.append_nil, String.toList_ofList]
        cases entries with
        | nil => rw [fieldLines]; rfl
        | cons entry entries => exact (indentation_append_fieldLines entry entries).symm
      have hSame : recordLines 0 entries ++ [] = recordLines 0 entries' ++ [] := by
        rw [hLines, hLines, hText]
      exact (recordLines_append_inj names names' (fun entry hEntry entry' hEntry' hName =>
        ((alike entry hEntry entry' hEntry' hName).split 0).2) (Or.inl rfl) (Or.inl rfl) hSame).1

end Yaml
end CatalogAudit
