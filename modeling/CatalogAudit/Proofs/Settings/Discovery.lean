import CatalogAudit.Proofs.FileTree.Upward
import CatalogAudit.Settings.Project

/-!
# Where the settings are found

The search for the settings goes up from a directory and ends at the first settings file or behind
the first entry that marks the top of a repository. So the nearest settings file counts, unless a
repository ends below it, and the one beside the mark of the repository still counts.
-/

namespace CatalogAudit
namespace Settings

open FileTree (Disk)

/-- The directory has an entry of this name, and the entry leads to something. -/
def Has (disk : Disk) (directory : Path) (name : FileTree.Name) : Prop :=
  disk.exists? (Path.join directory name) = true

instance (disk : Disk) (directory : Path) (name : FileTree.Name) :
    Decidable (Has disk directory name) :=
  inferInstanceAs (Decidable (_ = true))

/-!
# The search along a list of directories

Each directory in the list is above those before it, so what has been passed before a directory is
what is below it.
-/

section Directories

variable {disk : Disk} {directories : List Path}

theorem findIn_of_settings {here : Path} (h : Has disk here fileName) (above : List Path) :
    findIn disk (here :: above) = some (Path.join here fileName) :=
  if_pos h

theorem findIn_of_mark {here : Path} (hFile : ¬Has disk here fileName)
    (hMark : Has disk here repositoryMark) (above : List Path) :
    findIn disk (here :: above) = none :=
  (if_neg hFile).trans (if_pos hMark)

theorem findIn_of_passed {here : Path} (hFile : ¬Has disk here fileName)
    (hMark : ¬Has disk here repositoryMark) (above : List Path) :
    findIn disk (here :: above) = findIn disk above :=
  (if_neg hFile).trans (if_neg hMark)

theorem not_isAbove_first {here lower : Path} {above : List Path}
    (hOrder : ∀ directory ∈ above, Path.IsAbove directory here) (hLower : lower ∈ here :: above) :
    ¬Path.IsAbove here lower := by
  intro hBelow
  rcases List.mem_cons.mp hLower with rfl | hAbove
  · exact hBelow.asymm hBelow
  · exact hBelow.asymm (hOrder lower hAbove)

theorem findIn_eq_some_iff
    (hOrder : directories.Pairwise fun lower upper => Path.IsAbove upper lower) {path : Path} :
    findIn disk directories = some path ↔
      ∃ directory ∈ directories, path = Path.join directory fileName ∧
        Has disk directory fileName ∧ ∀ lower ∈ directories, Path.IsAbove directory lower →
          ¬Has disk lower fileName ∧ ¬Has disk lower repositoryMark := by
  -- The directories come from below, so nothing in the rest of the list can be below the first one.
  induction directories with
  | nil => simp [findIn]
  | cons here above ih =>
      obtain ⟨hHere, hAbove⟩ := List.pairwise_cons.mp hOrder
      have hFirst : here ∈ here :: above := List.mem_cons_self ..
      by_cases hFile : Has disk here fileName
      · rw [findIn_of_settings hFile]
        constructor
        · intro h
          cases h
          refine ⟨here, hFirst, rfl, hFile, ?_⟩
          intro lower hLower hBelow
          exact absurd hBelow (not_isAbove_first hHere hLower)
        · intro h
          rcases h with ⟨directory, hMem, rfl, _, hBelow⟩
          rcases List.mem_cons.mp hMem with rfl | hLater
          · rfl
          · exact absurd hFile (hBelow here hFirst (hHere directory hLater)).1
      by_cases hMark : Has disk here repositoryMark
      · rw [findIn_of_mark hFile hMark]
        apply iff_of_false
        · simp
        · intro h
          rcases h with ⟨directory, hMem, _, hHas, hBelow⟩
          rcases List.mem_cons.mp hMem with rfl | hLater
          · exact hFile hHas
          · exact (hBelow here hFirst (hHere directory hLater)).2 hMark
      · rw [findIn_of_passed hFile hMark, ih hAbove]
        constructor
        · intro h
          rcases h with ⟨directory, hMem, hPath, hHas, hBelow⟩
          refine ⟨directory, List.mem_cons_of_mem here hMem, hPath, hHas, ?_⟩
          intro lower hLower hUnder
          rcases List.mem_cons.mp hLower with rfl | hLater
          · exact ⟨hFile, hMark⟩
          · exact hBelow lower hLater hUnder
        · intro h
          rcases h with ⟨directory, hMem, hPath, hHas, hBelow⟩
          rcases List.mem_cons.mp hMem with rfl | hLater
          · exact absurd hHas hFile
          · refine ⟨directory, hLater, hPath, hHas, ?_⟩
            intro lower hLower
            exact hBelow lower (List.mem_cons_of_mem here hLower)

theorem findIn_eq_none_iff
    (hOrder : directories.Pairwise fun lower upper => Path.IsAbove upper lower) :
    findIn disk directories = none ↔
      ∀ directory ∈ directories, Has disk directory fileName →
        ∃ lower ∈ directories, Path.IsAbove directory lower ∧ Has disk lower repositoryMark := by
  induction directories with
  | nil => simp [findIn]
  | cons here above ih =>
      obtain ⟨hHere, hAbove⟩ := List.pairwise_cons.mp hOrder
      have hFirst : here ∈ here :: above := List.mem_cons_self ..
      by_cases hFile : Has disk here fileName
      · rw [findIn_of_settings hFile]
        apply iff_of_false
        · simp
        · intro h
          rcases h here hFirst hFile with ⟨lower, hLower, hBelow, _⟩
          exact not_isAbove_first hHere hLower hBelow
      by_cases hMark : Has disk here repositoryMark
      · refine iff_of_true (findIn_of_mark hFile hMark above) ?_
        intro directory hMem hHas
        rcases List.mem_cons.mp hMem with rfl | hLater
        · exact absurd hHas hFile
        · exact ⟨here, hFirst, hHere directory hLater, hMark⟩
      · rw [findIn_of_passed hFile hMark, ih hAbove]
        constructor
        · intro h directory hMem hHas
          rcases List.mem_cons.mp hMem with rfl | hLater
          · exact absurd hHas hFile
          · rcases h directory hLater hHas with ⟨lower, hLower, hRest⟩
            exact ⟨lower, List.mem_cons_of_mem here hLower, hRest⟩
        · intro h directory hMem hHas
          rcases h directory (List.mem_cons_of_mem here hMem) hHas with
            ⟨lower, hLower, hBelow, hEnd⟩
          rcases List.mem_cons.mp hLower with rfl | hLater
          · exact absurd hEnd hMark
          · exact ⟨lower, hLater, hBelow, hEnd⟩

end Directories

/-!
# The nearest settings file
-/

/-- Settings in the directory, and on the way to it neither settings nor the top of a repository. -/
structure IsNearest (disk : Disk) (start directory : Path) : Prop where
  atOrAbove : Path.IsAtOrAbove directory start
  hasSettings : Has disk directory fileName
  below : ∀ lower, Path.IsAtOrAbove lower start → Path.IsAbove directory lower →
    ¬Has disk lower fileName ∧ ¬Has disk lower repositoryMark

/-- The search from a directory comes to the nearest settings inside the repository. -/
structure FindsNearest (disk : Disk) (start : Path) : Prop where
  found_iff : ∀ path, find? disk start = some path ↔
    ∃ directory, IsNearest disk start directory ∧ path = Path.join directory fileName
  none_iff : find? disk start = none ↔
    ∀ directory, Path.IsAtOrAbove directory start → Has disk directory fileName →
      ∃ lower, Path.IsAtOrAbove lower start ∧ Path.IsAbove directory lower ∧
        Has disk lower repositoryMark
  notBeyond : ∀ top, Path.IsAtOrAbove top start → Has disk top repositoryMark →
    ∀ directory, Path.IsAbove directory top →
      find? disk start ≠ some (Path.join directory fileName)
  beside : ∀ top, Path.IsAtOrAbove top start → Has disk top repositoryMark →
    Has disk top fileName →
    (∀ lower, Path.IsAtOrAbove lower start → Path.IsAbove top lower →
      ¬Has disk lower fileName ∧ ¬Has disk lower repositoryMark) →
    find? disk start = some (Path.join top fileName)

theorem components_join_fileName (directory : Path) :
    Path.components (Path.join directory fileName) =
      Path.components directory ++ [.name fileName] :=
  Path.components_join directory ⟨by decide, by decide, by decide⟩

section Search

variable {disk : Disk} {start : Path}

theorem find?_eq_some_iff (hAbsolute : Path.isAbsolute start = true) {path : Path} :
    find? disk start = some path ↔
      ∃ directory, IsNearest disk start directory ∧ path = Path.join directory fileName := by
  rcases Path.ancestors_of_isAbsolute hAbsolute with ⟨hMem, hOrder⟩
  unfold find?
  rw [findIn_eq_some_iff hOrder]
  simp only [hMem]
  constructor
  · intro h
    rcases h with ⟨directory, hDirectory, hPath, hHas, hBelow⟩
    exact ⟨directory, ⟨hDirectory, hHas, hBelow⟩, hPath⟩
  · intro h
    rcases h with ⟨directory, hNearest, hPath⟩
    exact ⟨directory, hNearest.atOrAbove, hPath, hNearest.hasSettings, hNearest.below⟩

theorem find?_eq_none_iff (hAbsolute : Path.isAbsolute start = true) :
    find? disk start = none ↔
      ∀ directory, Path.IsAtOrAbove directory start → Has disk directory fileName →
        ∃ lower, Path.IsAtOrAbove lower start ∧ Path.IsAbove directory lower ∧
          Has disk lower repositoryMark := by
  rcases Path.ancestors_of_isAbsolute hAbsolute with ⟨hMem, hOrder⟩
  unfold find?
  rw [findIn_eq_none_iff hOrder]
  simp only [hMem]

theorem IsNearest.not_isAbove {directory top : Path} (h : IsNearest disk start directory)
    (hTop : Path.IsAtOrAbove top start) (hMark : Has disk top repositoryMark) :
    ¬Path.IsAbove directory top :=
  fun hBelow => (h.below top hTop hBelow).2 hMark

end Search

/--
From an absolute path, whatever its spelling, the search ends with the settings file of the deepest
directory at or above it that has one, if no directory on the way up to it marks the top of a
repository, and with nothing otherwise. So settings above the top of the repository do not count,
and those in the same directory as its mark do.
-/
theorem findsNearest (disk : Disk) {start : Path} (hAbsolute : Path.isAbsolute start = true) :
    FindsNearest disk start := by
  constructor
  case found_iff =>
    intro path
    exact find?_eq_some_iff hAbsolute
  case none_iff => exact find?_eq_none_iff hAbsolute
  case notBeyond =>
    intro top hTop hMark directory hBeyond hFound
    rcases (find?_eq_some_iff hAbsolute).mp hFound with ⟨nearest, hNearest, hPath⟩
    have hSame : Path.components directory = Path.components nearest := by
      have hParts := congrArg Path.components hPath
      rw [components_join_fileName, components_join_fileName] at hParts
      exact List.append_cancel_right hParts
    have hFewer := hBeyond.length_components_lt
    rw [hSame] at hFewer
    by_cases hEq : nearest = top
    · rw [hEq] at hFewer
      exact Nat.lt_irrefl _ hFewer
    · rcases Path.isAbove_or_isAbove hAbsolute hNearest.atOrAbove hTop hEq with hAbove | hBelow
      · exact hNearest.not_isAbove hTop hMark hAbove
      · exact Nat.lt_asymm hFewer hBelow.length_components_lt
  case beside =>
    intro top hTop _ hHas hBelow
    exact (find?_eq_some_iff hAbsolute).mpr ⟨top, ⟨hTop, hHas, hBelow⟩, rfl⟩

def projectsDisk : Disk where
  top := .directory [(fileName, .file []),
    (bytesOf "repo", .directory [(repositoryMark, .directory []), (fileName, .file []),
      (bytesOf "src", .directory [(bytesOf "app", .directory [])])])]
  cwd := [bytesOf "repo"]

theorem findsNearest_projectsDisk :
    Path.isAbsolute (bytesOf "/repo//src/app/") = true ∧
      FindsNearest projectsDisk (bytesOf "/repo//src/app/") ∧
      find? projectsDisk (bytesOf "/repo//src/app/") = some (bytesOf "/repo/.i18nrc.json") :=
  ⟨by decide, findsNearest projectsDisk (by decide), by decide +kernel⟩

end Settings
end CatalogAudit
