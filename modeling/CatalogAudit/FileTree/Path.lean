import CatalogAudit.Text.Blank
import CatalogAudit.Text.Quoted
import CatalogAudit.Text.Utf8

/-!
# Paths

A path consists of parts with slashes between them. Repeated slashes count once, and a single dot
counts only as the first part of a relative path. Joining, cutting, and comparing paths work on
their bytes alone and look at no file. The bytes need not be a text: where a path is shown,
replacement characters stand for what is not UTF-8.
-/

namespace CatalogAudit

abbrev Path := Utf8.Bytes

namespace Path

@[match_pattern] abbrev slash : UInt8 := 0x2F

@[match_pattern] abbrev dot : UInt8 := 0x2E

/-!
# Components
-/

inductive Component where
  | root
  | current
  | up
  | name (s : Path)
deriving DecidableEq, Repr

def isAbsolute (path : Path) : Bool :=
  path.head? == some slash

/-- The parts between slashes, empty ones included. -/
def pieces (path : Path) : List Path :=
  Text.splitOn slash path

/-- What a part stands for anywhere but at the start of a relative path. -/
def inner? (piece : Path) : Option Component :=
  if piece = [] ∨ piece = [dot] then none
  else if piece = [dot, dot] then some .up
  else some (.name piece)

def components (path : Path) : List Component :=
  let parts := pieces path
  let start : List Component :=
    if isAbsolute path then [.root]
    else if parts.head? = some [dot] then [.current]
    else []
  start ++ parts.filterMap inner?

/-!
# Joining
-/

/-- The path of `path` seen from `base`. An absolute path stands for itself. -/
def join (base path : Path) : Path :=
  if isAbsolute path then path
  else if base = [] ∨ base.getLast? = some slash then base ++ path
  else base ++ slash :: path

/-!
# The last part

Trailing slashes and single dots do not count as parts. The first byte of an absolute path, and the
dot that begins a relative one, are never cut off as such.
-/

def startsWithDot : Path → Bool
  | [dot] => true
  | dot :: slash :: _ => true
  | _ => false

def splitStart (path : Path) : Path × Path :=
  if isAbsolute path || startsWithDot path then (path.take 1, path.drop 1) else ([], path)

/-- Drops slashes and single dots at the end of a path, given in reverse. -/
def trimReversed : Path → Path
  | slash :: rest => trimReversed rest
  | dot :: slash :: rest => trimReversed rest
  | [dot] => []
  | rest => rest

def parent? (path : Path) : Option Path :=
  let (start, body) := splitStart path
  match trimReversed body.reverse with
  | [] => if start = [dot] then some [] else none
  | rest =>
      let initial := trimReversed ((rest.dropWhile (· ≠ slash)).drop 1)
      some (start ++ initial.reverse)

/-- A file name before and after its last dot. A dot at the start does not count. -/
def splitExtension (name : Path) : Path × Option Path :=
  let reversed := name.reverse
  match reversed.dropWhile (· ≠ dot) with
  | [] => (name, none)
  | [_] => (name, none)
  | _ :: stem => (stem.reverse, some (reversed.takeWhile (· ≠ dot)).reverse)

/-!
# The paths above

A path gets shorter when its last part is cut off.
-/

theorem length_trimReversed_le (path : Path) : (trimReversed path).length ≤ path.length := by
  fun_induction trimReversed path with
  | case1 rest ih => simp only [List.length_cons]; omega
  | case2 rest ih => simp only [List.length_cons]; omega
  | case3 => simp
  | case4 => exact Nat.le_refl _

theorem append_splitStart (path : Path) : (splitStart path).1 ++ (splitStart path).2 = path := by
  simp only [splitStart]
  split
  · exact List.take_append_drop 1 path
  · rfl

theorem length_parent?_lt {path parent : Path} (h : parent? path = some parent) :
    parent.length < path.length := by
  have hParts := congrArg List.length (append_splitStart path)
  rw [List.length_append] at hParts
  have hTrim := length_trimReversed_le (splitStart path).2.reverse
  unfold parent? at h
  simp only at h
  split at h
  · split at h
    · rename_i hStart
      cases h
      rw [hStart, List.length_singleton] at hParts
      rw [List.length_nil]
      omega
    · cases h
  · rename_i rest hNil
    cases h
    have hPos : 0 < (trimReversed (splitStart path).2.reverse).length :=
      List.length_pos_iff.mpr hNil
    have hDrop := (List.dropWhile_suffix (l := trimReversed (splitStart path).2.reverse)
      (· ≠ slash)).length_le
    have hInitial := length_trimReversed_le
      (((trimReversed (splitStart path).2.reverse).dropWhile (· ≠ slash)).drop 1)
    simp only [List.length_drop] at hInitial
    simp only [List.length_reverse] at hTrim
    simp only [List.length_append, List.length_reverse]
    omega

def ancestors (path : Path) : List Path :=
  match h : parent? path with
  | some parent =>
      have := length_parent?_lt h
      path :: ancestors parent
  | none => [path]
termination_by path.length

/-!
# Paths as texts
-/

def shown (path : Path) : String :=
  lossyTextOf path

def quotedPiece : Utf8.Piece → List Char
  | .char c => Text.quotedChar c
  | .illFormed bytes => bytes.flatMap Text.quotedByte

/-- The text that is shown for a path between quotes, with the bytes that are not UTF-8 as such. -/
def quoted (path : Path) : String :=
  String.ofList ('"' :: (Utf8.pieces path).flatMap quotedPiece ++ ['"'])

/-!
# Relative names
-/

/-- The parts of `path` behind those of `root`, or all of them if `path` is not below `root`. -/
def behind (root path : Path) : List Component :=
  let above := components root
  let parts := components path
  if above.isPrefixOf parts then parts.drop above.length else parts

def Component.shown? : Component → Option String
  | .name s => some s.shown
  | .up => some ".."
  | .current => none
  | .root => none

/-- The path seen from `root`, with single slashes and neither a leading slash nor single dots. -/
def nameBelow (root path : Path) : String :=
  "/".intercalate ((behind root path).filterMap Component.shown?)

end Path
end CatalogAudit
