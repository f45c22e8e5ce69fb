import CatalogAudit.Text.Search
import CatalogAudit.Usage.Depth
import CatalogAudit.Usage.MatchCache

/-!
# Checking key usage

A key is in use if some source file contains its text. Keys that no file contains are cut by their
last segment and looked for again, since code may build a key from a literal beginning. The first
pass takes the keys as they are, and each later pass takes what the survivors of the pass before it
leave after the cut.
-/

namespace CatalogAudit

/-- The survivors of each pass, under the depth of the pass plus one. -/
abbrev SurvivorMap := SortedMap Nat KeySet

structure UnusedFindings where
  total : Nat
  depths : SurvivorMap
deriving DecidableEq

def UnusedFindings.literalCount (findings : UnusedFindings) : Nat :=
  match findings.depths.get? 1 with
  | some keys => keys.size
  | none => 0

namespace Usage

/-!
# One pass

The cache is consulted as it was before the pass. What it confirms counts as found without a look
at the content, and what the content shows is recorded afterwards, file by file.
-/

structure FileSearch where
  file : SourceFile
  cached : List String
  found : List String

def searchFile (candidates : KeySet) (cache : Option MatchCache) (file : SourceFile) : FileSearch :=
  let confirmed := cache.bind (·.trusted? file.name file.hash)
  let isKnown (key : String) : Bool := confirmed.any (fun keys => key ∈ keys)
  let text := file.content.toList
  ⟨file, candidates.toList.filter isKnown,
    candidates.toList.filter fun key => !isKnown key && Text.occursIn key.toList text⟩

def FileSearch.hits (result : FileSearch) (key : String) : Bool :=
  result.cached.contains key || result.found.contains key

def rememberAll (cache : MatchCache) (searches : List FileSearch) : MatchCache :=
  searches.foldl
    (fun cache result => cache.remember result.file.name result.file.hash result.found) cache

def searchEvents (cache : MatchCache) : List FileSearch → List Event
  | [] => []
  | result :: searches =>
      .fileScanned result.file.name result.cached.length result.found.length ::
        cache.refreshEvents result.file.name result.file.hash ++
        searchEvents (cache.remember result.file.name result.file.hash result.found) searches

structure Pass where
  survivors : KeySet
  cache : Option MatchCache
  events : List Event

def search (candidates : KeySet) (files : List SourceFile) (cache : Option MatchCache) : Pass :=
  let searches := files.map (searchFile candidates cache)
  { survivors := candidates.filter fun key => !searches.any (·.hits key)
    cache := cache.map (rememberAll · searches)
    events := match cache with
      | some cache => searchEvents cache searches
      | none => [] }

/-!
# Candidates
-/

/-- What the keys leave without their last segments. Keys of one segment leave nothing. -/
def shortened (keys : KeySet) : KeySet :=
  .ofList ((keys.toList.map KeyPath.dropLast).filter (· ≠ ""))

def candidates (depth : Nat) (previous : KeySet) : KeySet :=
  if depth = 0 then previous else shortened previous

/-!
# Height

The longest candidate gets shorter from pass to pass, which bounds the number of passes.
-/

def height (keys : KeySet) : Nat :=
  keys.toList.foldr (fun key h => max (key.length + 1) h) 0

theorem foldr_max_le {keys : List String} {n : Nat} (h : ∀ key ∈ keys, key.length + 1 ≤ n) :
    keys.foldr (fun key h => max (key.length + 1) h) 0 ≤ n := by
  induction keys with
  | nil => exact Nat.zero_le n
  | cons key keys ih =>
      have hHead := h key (List.mem_cons_self ..)
      have hTail := ih (fun k hk => h k (List.mem_cons_of_mem key hk))
      simp only [List.foldr_cons]
      omega

theorem length_lt_foldr_max {keys : List String} {key : String} (h : key ∈ keys) :
    key.length < keys.foldr (fun key h => max (key.length + 1) h) 0 := by
  induction keys with
  | nil => exact absurd h List.not_mem_nil
  | cons key' keys ih =>
      simp only [List.foldr_cons]
      rcases List.mem_cons.mp h with rfl | hMem
      · omega
      · have := ih hMem
        omega

theorem length_dropLast_lt {key : String} (h : key ≠ "") :
    (KeyPath.dropLast key).length < key.length := by
  have hChars : key.toList ≠ [] := fun hNil => h (by simpa using hNil)
  rw [← String.length_toList, ← String.length_toList, KeyPath.toList_dropLast, KeyPath.initial]
  have hDrop := (List.dropWhile_suffix (l := key.toList.reverse) (· ≠ '.')).length_le
  have hPos : 0 < key.toList.length := List.length_pos_iff.mpr hChars
  simp only [List.length_reverse, List.length_drop] at hDrop ⊢
  omega

theorem height_shortened_lt {keys survivors : KeySet} (hSub : ∀ key ∈ survivors, key ∈ keys)
    (hKeys : keys.isEmpty = false) : height (shortened survivors) < height keys := by
  have hPos : 0 < height keys := by
    cases hList : keys.toList with
    | nil => simp [SortedSet.isEmpty, hList] at hKeys
    | cons key rest =>
        have hMem : key ∈ keys.toList := hList ▸ List.mem_cons_self ..
        exact Nat.zero_lt_of_lt (length_lt_foldr_max hMem)
  have hBound : height (shortened survivors) ≤ height keys - 1 := by
    refine foldr_max_le ?_
    intro cut hCut
    have hMem := (SortedSet.mem_ofList (x := cut)).mp hCut
    obtain ⟨hImage, hNonempty⟩ := List.mem_filter.mp hMem
    obtain ⟨key, hKey, rfl⟩ := List.mem_map.mp hImage
    have hLonger : key ≠ "" := by
      intro hEq
      subst hEq
      exact absurd hNonempty (by decide)
    have hShort := length_dropLast_lt hLonger
    have hHigh := length_lt_foldr_max (hSub key hKey)
    unfold height
    omega
  omega

theorem survivors_subset {keys : KeySet} {files : List SourceFile} {cache : Option MatchCache} :
    ∀ key ∈ (search keys files cache).survivors, key ∈ keys :=
  fun _ h => (SortedSet.mem_filter.mp h).1

/-!
# All passes
-/

structure Passes where
  survivors : List KeySet
  cache : Option MatchCache
  events : List Event

/-- The passes from a depth on. They end when nothing is left to look for or the bound is met. -/
def passes (maxDepth : DepthBound) (files : List SourceFile) (depth : Nat) (candidates : KeySet)
    (cache : Option MatchCache) : Passes :=
  if h : maxDepth.admits depth = true ∧ candidates.isEmpty = false then
    let pass := search candidates files cache
    let rest := passes maxDepth files (depth + 1) (shortened pass.survivors) pass.cache
    { survivors := pass.survivors :: rest.survivors
      cache := rest.cache
      events := pass.events ++
        .passFinished depth candidates.size pass.survivors.size :: rest.events }
  else
    ⟨[], cache, []⟩
termination_by height candidates
decreasing_by exact height_shortened_lt survivors_subset h.2

def depthsFrom : Nat → List KeySet → SurvivorMap
  | _, [] => .empty
  | depth, keys :: rest => (depthsFrom (depth + 1) rest).set depth keys

structure Run where
  findings : UnusedFindings
  cache : Option MatchCache
  events : List Event

def run (maxDepth : DepthBound) (keys : KeySet) (files : List SourceFile)
    (cache : Option MatchCache) : Run :=
  let result := passes maxDepth files 0 (candidates 0 keys) cache
  ⟨⟨keys.size, depthsFrom 1 result.survivors⟩, result.cache, result.events⟩

end Usage
end CatalogAudit
