import CatalogAudit.Proofs.Usage.ClosedForm

/-!
# The shape of a run

Whatever the cache says, a run fills the depths one after the other. Each depth takes its texts from
what the depth before leaves without its last segments, so the depths end after as many steps as
there are dots in some key. A run that ends before its bound has nothing left to look for.
-/

namespace CatalogAudit
namespace Usage

/-!
# Dots

A text that is still there after some cuts came from a key with as many dots more.
-/

def dots (key : String) : Nat :=
  key.toList.count '.'

theorem count_initial {key : List Char} (h : KeyPath.initial key ≠ []) :
    (KeyPath.initial key).count '.' + 1 = key.count '.' := by
  have hSplit := List.takeWhile_append_dropWhile (p := (· ≠ '.')) (l := key.reverse)
  have hLast : (key.reverse.takeWhile (· ≠ '.')).count '.' = 0 := by
    rw [List.count_eq_zero]
    intro hMem
    have hNot := List.all_eq_true.mp List.all_takeWhile '.' hMem
    simp at hNot
  have hCount := congrArg (List.count '.') hSplit
  rw [List.count_append, hLast, Nat.zero_add, List.count_reverse] at hCount
  unfold KeyPath.initial at h ⊢
  rw [← hCount]
  cases hRest : key.reverse.dropWhile (· ≠ '.') with
  | nil =>
      rw [hRest] at h
      exact absurd rfl h
  | cons c cs =>
      have hNonempty : key.reverse.dropWhile (· ≠ '.') ≠ [] := by
        rw [hRest]
        exact List.cons_ne_nil c cs
      have hDot := List.head_dropWhile_not (· ≠ '.') hNonempty
      simp only [hRest, List.head_cons, decide_eq_false_iff_not, Decidable.not_not] at hDot
      rw [hDot]
      simp

theorem dots_dropLast {key : String} (h : KeyPath.dropLast key ≠ "") :
    dots (KeyPath.dropLast key) + 1 = dots key := by
  have hInitial : KeyPath.initial key.toList ≠ [] := by
    intro hNil
    apply h
    rw [KeyPath.dropLast, hNil, String.ofList_nil]
  unfold dots
  rw [KeyPath.toList_dropLast]
  exact count_initial hInitial

theorem dots_cut {depth : Nat} {key : String} (h : cut depth key ≠ "") :
    dots (cut depth key) + depth = dots key := by
  induction depth with
  | zero => rfl
  | succ depth ih =>
      rw [cut_succ] at h ⊢
      have hStep := dots_dropLast h
      have hBefore := ih (ne_empty_of_dropLast_ne_empty h)
      omega

/-!
# Sizes

Neither a pass nor a cut makes a set larger.
-/

theorem size_survivors_le (keys : KeySet) (files : List SourceFile) (cache : Option MatchCache) :
    (search keys files cache).survivors.size ≤ keys.size :=
  List.length_filter_le _ _

theorem size_shortened_le (keys : KeySet) : (shortened keys).size ≤ keys.size := by
  have hOfList := SortedSet.size_ofList_le ((keys.toList.map KeyPath.dropLast).filter (· ≠ ""))
  have hFilter := List.length_filter_le (· ≠ "") (keys.toList.map KeyPath.dropLast)
  rw [List.length_map] at hFilter
  exact Nat.le_trans hOfList hFilter

theorem size_candidates_le (depth : Nat) (previous : KeySet) :
    (candidates depth previous).size ≤ previous.size := by
  unfold candidates
  split
  · exact Nat.le_refl _
  · exact size_shortened_le previous

/-!
# One place in the list of survivor sets

The survivors at a place are those of a search among the candidates of the place, with some cache.
The list goes on exactly as long as there is something to search for.
-/

/-- The set before a place in the list of survivor sets, which begins behind the given keys. -/
def setBefore (keys : KeySet) (sets : List KeySet) : Nat → KeySet
  | 0 => keys
  | place + 1 => (sets[place]?).getD .empty

section Places

variable {maxDepth : DepthBound} {files : List SourceFile} {cache : Option MatchCache}

/-- What a pass at a depth looks for: the given candidates first, and later what is left. -/
def candidatesAt (first : KeySet) (sets : List KeySet) : Nat → KeySet
  | 0 => first
  | place + 1 => shortened ((sets[place]?).getD .empty)

theorem candidatesAt_cons (first set : KeySet) (sets : List KeySet) (place : Nat) :
    candidatesAt first (set :: sets) (place + 1) = candidatesAt (shortened set) sets place := by
  cases place with
  | zero => rfl
  | succ place => simp [candidatesAt]

theorem candidatesAt_eq (keys : KeySet) (sets : List KeySet) (place : Nat) :
    candidatesAt keys sets place = candidates place (setBefore keys sets place) := by
  cases place with
  | zero => rfl
  | succ place => rfl

theorem exists_search_of_getElem? {depth : Nat} {first : KeySet} {place : Nat} {set : KeySet}
    (h : (passes maxDepth files depth first cache).survivors[place]? = some set) :
    Proceeds maxDepth (depth + place)
        (candidatesAt first (passes maxDepth files depth first cache).survivors place) ∧
      ∃ current, set = (search
        (candidatesAt first (passes maxDepth files depth first cache).survivors place)
        files current).survivors := by
  induction place generalizing depth first cache with
  | zero =>
      by_cases hGo : Proceeds maxDepth depth first
      · rw [survivors_passes_of_proceeds hGo] at h
        cases h
        exact ⟨hGo, cache, rfl⟩
      · rw [passes_of_not_proceeds hGo] at h
        cases h
  | succ place ih =>
      by_cases hGo : Proceeds maxDepth depth first
      · rw [survivors_passes_of_proceeds hGo] at h ⊢
        rw [candidatesAt_cons]
        have hDepth : depth + (place + 1) = depth + 1 + place := by omega
        rw [hDepth]
        exact ih h
      · rw [passes_of_not_proceeds hGo] at h
        cases h

theorem not_proceeds_at_length (maxDepth : DepthBound) (files : List SourceFile) (depth : Nat)
    (first : KeySet) (cache : Option MatchCache) :
    ¬Proceeds maxDepth (depth + (passes maxDepth files depth first cache).survivors.length)
      (candidatesAt first (passes maxDepth files depth first cache).survivors
        (passes maxDepth files depth first cache).survivors.length) := by
  induction depth, first, cache using passes.induct maxDepth files with
  | case1 depth first cache hGo pass =>
      rename_i ih
      rw [survivors_passes_of_proceeds hGo, List.length_cons, candidatesAt_cons]
      have hDepth := Nat.add_right_comm depth 1
        (passes maxDepth files (depth + 1) (shortened pass.survivors) pass.cache).survivors.length
      rw [← Nat.add_assoc, ← hDepth]
      exact ih
  | case2 depth first cache hStop =>
      rw [passes_of_not_proceeds hStop]
      exact hStop

end Places

/-!
# Texts at a depth

Every text that is looked for is a cut of a key, one segment shorter from place to place.
-/

theorem mem_setBefore_succ {maxDepth : DepthBound} {keys : KeySet} {files : List SourceFile}
    {cache : Option MatchCache} {place : Nat} {text : String}
    (h : text ∈ setBefore keys (passes maxDepth files 0 keys cache).survivors (place + 1)) :
    text ∈ candidatesAt keys (passes maxDepth files 0 keys cache).survivors place := by
  rw [setBefore] at h
  cases hPlace : (passes maxDepth files 0 keys cache).survivors[place]? with
  | none =>
      rw [hPlace] at h
      exact absurd h (SortedSet.not_mem_empty text)
  | some set =>
      rw [hPlace] at h
      rcases (exists_search_of_getElem? hPlace).2 with ⟨current, hSet⟩
      rw [Option.getD_some, hSet] at h
      exact survivors_subset text h

theorem exists_cut_of_mem_candidatesAt {maxDepth : DepthBound} {keys : KeySet}
    {files : List SourceFile} {cache : Option MatchCache} {place : Nat} {text : String}
    (h : text ∈ candidatesAt keys (passes maxDepth files 0 keys cache).survivors place) :
    ∃ key ∈ keys, text = cut place key ∧ place ≤ dots key := by
  induction place generalizing text with
  | zero => exact ⟨text, h, rfl, Nat.zero_le _⟩
  | succ place ih =>
      rcases mem_shortened.mp h with ⟨hNonempty, longer, hLonger, rfl⟩
      rcases ih (mem_setBefore_succ hLonger) with ⟨key, hKey, rfl, _⟩
      rw [← cut_succ] at hNonempty ⊢
      have hDots := dots_cut hNonempty
      exact ⟨key, hKey, rfl, by omega⟩

/-!
# The staircase
-/

/-- The texts under a depth, where depth zero stands for the keys that a run starts with. -/
def textsAt (keys : KeySet) (depths : SurvivorMap) (depth : Nat) : KeySet :=
  if depth = 0 then keys else (depths.get? depth).getD .empty

/-- The depths from one to `n` are filled step by step, and nothing calls for one more. -/
structure IsStaircase (maxDepth : DepthBound) (keys : KeySet) (depths : SurvivorMap) (n : Nat) :
    Prop where
  keys_eq : depths.keys = List.range' 1 n
  le_bound : ∀ bound, maxDepth = .bounded bound → n ≤ bound
  le_dots : n = 0 ∨ ∃ key ∈ keys, n ≤ 1 + dots key
  mem_candidates : ∀ depth < n, ∀ text ∈ textsAt keys depths (depth + 1),
    text ∈ candidates depth (textsAt keys depths depth)
  size_le : ∀ depth < n,
    (textsAt keys depths (depth + 1)).size ≤ (textsAt keys depths depth).size
  isCut : ∀ depth < n, ∀ text ∈ textsAt keys depths (depth + 1), ∃ key ∈ keys, text = cut depth key
  not_mem_empty : ∀ depth, "" ∉ textsAt keys depths depth
  exists_candidate : ∀ depth < n, ∃ text, text ∈ candidates depth (textsAt keys depths depth)
  exists_text : ∀ depth < n, ∃ text, text ∈ textsAt keys depths depth
  no_candidate : maxDepth.admits n = true → ∀ text, text ∉ candidates n (textsAt keys depths n)

section Staircase

variable {maxDepth : DepthBound} {keys : KeySet} {files : List SourceFile}
  {cache : Option MatchCache}

theorem textsAt_run (depth : Nat) :
    textsAt keys (run maxDepth keys files cache).findings.depths depth =
      setBefore keys (passes maxDepth files 0 keys cache).survivors depth := by
  cases depth with
  | zero => rfl
  | succ depth =>
      unfold textsAt setBefore
      rw [if_neg (Nat.succ_ne_zero depth), get?_depths_run]

theorem candidates_textsAt_run (depth : Nat) :
    candidates depth (textsAt keys (run maxDepth keys files cache).findings.depths depth) =
      candidatesAt keys (passes maxDepth files 0 keys cache).survivors depth := by
  rw [textsAt_run, candidatesAt_eq]

theorem proceeds_of_lt {depth : Nat}
    (h : depth < (passes maxDepth files 0 keys cache).survivors.length) :
    Proceeds maxDepth depth
      (candidatesAt keys (passes maxDepth files 0 keys cache).survivors depth) := by
  have hGo := (exists_search_of_getElem? (List.getElem?_eq_getElem h)).1
  rwa [Nat.zero_add] at hGo

theorem not_mem_empty_setBefore (hKeys : "" ∉ keys) (place : Nat) :
    "" ∉ setBefore keys (passes maxDepth files 0 keys cache).survivors place := by
  intro hMem
  cases place with
  | zero => exact hKeys hMem
  | succ place =>
      have hCandidate := mem_setBefore_succ hMem
      cases place with
      | zero => exact hKeys hCandidate
      | succ place => exact (mem_shortened.mp hCandidate).1 rfl

end Staircase

/--
Every run, with any cache or none, fills the depths from one to some `n` and no others. That `n` is
bounded by the given bound and by the dots in the keys. Each set comes from the one before by
cutting segments, no text is ever empty, and the run stops where it has to and not earlier.
-/
theorem exists_isStaircase_run (maxDepth : DepthBound) {keys : KeySet} (hKeys : "" ∉ keys)
    (files : List SourceFile) (cache : Option MatchCache) :
    ∃ n, IsStaircase maxDepth keys (run maxDepth keys files cache).findings.depths n := by
  refine ⟨(passes maxDepth files 0 keys cache).survivors.length, ?_⟩
  constructor
  case keys_eq => exact keys_depths_run maxDepth keys files cache
  case le_bound =>
    intro bound hBound
    apply Nat.le_of_not_lt
    intro hLong
    have hAdmits := (proceeds_of_lt hLong).1
    rw [hBound] at hAdmits
    simp [DepthBound.admits] at hAdmits
  case le_dots =>
    cases hLength : (passes maxDepth files 0 keys cache).survivors.length with
    | zero => exact Or.inl rfl
    | succ last =>
        have hLast : last < (passes maxDepth files 0 keys cache).survivors.length := by omega
        rcases isEmpty_eq_false_iff.mp (proceeds_of_lt hLast).2 with ⟨text, hText⟩
        rcases exists_cut_of_mem_candidatesAt hText with ⟨key, hKey, _, hDots⟩
        exact Or.inr ⟨key, hKey, by omega⟩
  case mem_candidates =>
    intro depth _ text hText
    rw [textsAt_run] at hText
    rw [candidates_textsAt_run]
    exact mem_setBefore_succ hText
  case size_le =>
    intro depth hDepth
    have hPlace := List.getElem?_eq_getElem hDepth
    rcases (exists_search_of_getElem? hPlace).2 with ⟨current, hSet⟩
    rw [textsAt_run, textsAt_run, setBefore, hPlace, Option.getD_some, hSet, candidatesAt_eq]
    exact Nat.le_trans (size_survivors_le _ files current) (size_candidates_le depth _)
  case isCut =>
    intro depth _ text hText
    rw [textsAt_run] at hText
    rcases exists_cut_of_mem_candidatesAt (mem_setBefore_succ hText) with ⟨key, hKey, hCut, _⟩
    exact ⟨key, hKey, hCut⟩
  case not_mem_empty =>
    intro depth
    rw [textsAt_run]
    exact not_mem_empty_setBefore hKeys depth
  case exists_candidate =>
    intro depth hDepth
    rw [candidates_textsAt_run]
    exact isEmpty_eq_false_iff.mp (proceeds_of_lt hDepth).2
  case exists_text =>
    intro depth hDepth
    rcases isEmpty_eq_false_iff.mp (proceeds_of_lt hDepth).2 with ⟨text, hText⟩
    rw [textsAt_run]
    cases depth with
    | zero => exact ⟨text, hText⟩
    | succ depth =>
        rcases mem_shortened.mp hText with ⟨_, longer, hLonger, _⟩
        exact ⟨longer, hLonger⟩
  case no_candidate =>
    intro hAdmits text hText
    rw [candidates_textsAt_run] at hText
    apply not_proceeds_at_length maxDepth files 0 keys cache
    rw [Nat.zero_add]
    exact ⟨hAdmits, isEmpty_eq_false_iff.mpr ⟨text, hText⟩⟩

theorem exists_isStaircase_run_odd_dots :
    "" ∉ (.ofList ["menu..open", ".menu", "menu.", "home"] : KeySet) ∧
      ∃ n, IsStaircase .unbounded (.ofList ["menu..open", ".menu", "menu.", "home"])
        (run .unbounded (.ofList ["menu..open", ".menu", "menu.", "home"])
          [.make "a.ts" "t(menu.open)"]
          (some ⟨bytesOf "src/.i18n-validator.json", .ofList [("a.ts",
            ⟨Digest.fingerprint "a.ts" "t(menu.open)", .ofList ["home"]⟩)]⟩)).findings.depths n :=
  have hKeys : "" ∉ (.ofList ["menu..open", ".menu", "menu.", "home"] : KeySet) := by
    decide +kernel
  ⟨hKeys, exists_isStaircase_run .unbounded hKeys _ _⟩

end Usage
end CatalogAudit
