/-!
# Blank characters, trimming, and lines

White space is the Unicode property of that name. Trimming removes it at both ends of a text, and
a text is cut into lines at every line feed.
-/

namespace CatalogAudit
namespace Text

/-- The Unicode property `White_Space`. -/
def isBlank (c : Char) : Bool :=
  let n := c.toNat
  (0x09 ≤ n && n ≤ 0x0D) || n == 0x20 || n == 0x85 || n == 0xA0 || n == 0x1680 ||
    (0x2000 ≤ n && n ≤ 0x200A) || n == 0x2028 || n == 0x2029 || n == 0x202F || n == 0x205F ||
    n == 0x3000

def trimEnd (cs : List Char) : List Char :=
  (cs.reverse.dropWhile isBlank).reverse

def trim (cs : List Char) : List Char :=
  trimEnd (cs.dropWhile isBlank)

section Splitting

variable {α : Type} [DecidableEq α]

/-- The pieces between the places where `sep` stands. There is always at least one. -/
def splitOn (sep : α) : List α → List (List α)
  | [] => [[]]
  | c :: cs =>
      if c = sep then [] :: splitOn sep cs
      else
        match splitOn sep cs with
        | [] => [[c]]
        | piece :: pieces => (c :: piece) :: pieces

theorem splitOn_ne_nil (sep : α) (cs : List α) : splitOn sep cs ≠ [] := by
  induction cs with
  | nil => simp [splitOn]
  | cons c cs ih =>
      unfold splitOn
      split
      · simp
      · split
        · simp
        · simp

theorem intercalate_splitOn (sep : α) (cs : List α) :
    [sep].intercalate (splitOn sep cs) = cs := by
  induction cs with
  | nil => simp [splitOn, List.intercalate]
  | cons c cs ih =>
      unfold splitOn
      by_cases hc : c = sep
      · simp only [hc, if_true]
        cases h : splitOn sep cs with
        | nil => exact absurd h (splitOn_ne_nil sep cs)
        | cons piece pieces =>
            rw [h] at ih
            simp [List.intercalate] at ih ⊢
            exact ih
      · simp only [hc, if_false]
        cases h : splitOn sep cs with
        | nil => exact absurd h (splitOn_ne_nil sep cs)
        | cons piece pieces =>
            rw [h] at ih
            cases pieces with
            | nil =>
                simp [List.intercalate] at ih ⊢
                exact ih
            | cons second rest =>
                simp [List.intercalate] at ih ⊢
                exact ih

end Splitting

/-- ASCII letters in lower case, all else unchanged. -/
def lowerAscii (cs : List Char) : List Char :=
  cs.map Char.toLower

end Text
end CatalogAudit
