import CatalogAudit.Proofs.Text.Pieces
import CatalogAudit.Proofs.Usage.OnePass
import Mathlib

/-!
# Keys in bytes that are no text

The content of a source file shows a replacement character for every run of bytes that spells no
character. All other characters stand where their own bytes stand, and a character begins anew at
every byte that can begin one. So a key without replacement characters is seen in the content if and
only if its bytes stand next to each other in the file.
-/

namespace CatalogAudit
namespace Utf8

/-!
# Texts in the decoded bytes
-/

theorem eq_map_char_of_shown {found : List Piece} {cs : List Char} (h : replacement ∉ cs)
    (hShown : cs = found.map Piece.shown) : found = cs.map .char := by
  have hPieces : ∀ piece ∈ found, (Piece.char ∘ Piece.shown) piece = piece := by
    intro piece hPiece
    cases piece with
    | char c => rfl
    | illFormed bytes => exact absurd (hShown ▸ List.mem_map.mpr ⟨_, hPiece, rfl⟩) h
  rw [hShown, List.map_map]
  exact (List.map_congr_left hPieces).trans (List.map_id found) |>.symm

/-- What shows no replacement character is seen where its bytes are, and nowhere else. -/
theorem infix_decodeLossy_iff {cs : List Char} (h : replacement ∉ cs) (bytes : Bytes) :
    cs <:+: decodeLossy bytes ↔ encode cs <:+: bytes := by
  unfold decodeLossy
  constructor
  · intro hSeen
    rcases List.infix_map_iff.mp hSeen with ⟨found, hFound, hShown⟩
    have hBytes := List.IsInfix.flatMap hFound Piece.bytes
    rw [flatMap_bytes_pieces, eq_map_char_of_shown h hShown, List.flatMap_map] at hBytes
    exact hBytes
  · intro hBytes
    rcases hBytes with ⟨before, behind, rfl⟩
    by_cases hNil : cs = []
    · rw [hNil]
      exact List.nil_infix
    · rw [pieces_append_encode hNil, List.map_append, List.map_append, List.map_map]
      exact ⟨_, _, by rw [show Piece.shown ∘ Piece.char = id from rfl, List.map_id]⟩

end Utf8

/-!
# Loaded files
-/

namespace SourceFile

open FileTree (Disk)
open Utf8 (Bytes)

/-- The text of a file shows these bytes. It tells which keys they hold, and so does a search. -/
structure Shows (source : SourceFile) (bytes : Bytes) : Prop where
  contains : ∀ key : String, Utf8.replacement ∉ key.toList →
    (source.Contains key ↔ bytesOf key <:+: bytes)
  found : ∀ candidates : KeySet, ∀ key ∈ candidates, Utf8.replacement ∉ key.toList →
    (key ∈ (Usage.searchFile candidates none source).found ↔ bytesOf key <:+: bytes)

theorem shows_ofBytes (name : String) (bytes : Bytes) : (ofBytes name bytes).Shows bytes := by
  have hContains : ∀ key : String, Utf8.replacement ∉ key.toList →
      ((ofBytes name bytes).Contains key ↔ bytesOf key <:+: bytes) := by
    intro key hKey
    unfold Contains
    show _ <:+: (String.ofList (Utf8.decodeLossy bytes)).toList ↔ _
    rw [String.toList_ofList]
    exact Utf8.infix_decodeLossy_iff hKey bytes
  refine ⟨hContains, ?_⟩
  intro candidates key hCandidate hKey
  rw [Usage.mem_found_searchFile, hContains key hKey]
  exact ⟨fun h => h.2.2, fun h => ⟨hCandidate, Usage.not_confirms_none, h⟩⟩

theorem load_of_readBytes_eq_ok {disk : Disk} {path : Path} {bytes : Bytes}
    (h : disk.readBytes path = .ok bytes) (root : Path) :
    load disk root path = .ok (ofBytes (Path.nameBelow root path) bytes) := by
  unfold load
  rw [h]
  rfl

/--
Files that can be read are loaded in order, whatever their bytes. A key without replacement
characters is then seen in a file, and found by a search without a cache, if and only if its bytes
stand in the file one after the other.
-/
theorem shows_loadAll (disk : Disk) (root : Path) {paths : List Path}
    (h : ∀ path ∈ paths, ∃ bytes, disk.readBytes path = .ok bytes) :
    ∃ sources, loadAll disk root paths = .ok sources ∧
      List.Forall₂ (fun path source =>
        source.name = Path.nameBelow root path ∧
          ∃ bytes, disk.readBytes path = .ok bytes ∧ source.Shows bytes) paths sources := by
  induction paths with
  | nil => exact ⟨[], rfl, .nil⟩
  | cons path paths ih =>
      rcases h path (List.mem_cons_self ..) with ⟨bytes, hBytes⟩
      rcases ih fun other hOther => h other (List.mem_cons_of_mem path hOther) with
        ⟨rest, hRest, hShows⟩
      have hLoad := load_of_readBytes_eq_ok hBytes root
      exact ⟨_ :: rest, mapM_cons_eq_ok.mpr ⟨_, rest, hLoad, hRest, rfl⟩,
        .cons ⟨rfl, bytes, hBytes, shows_ofBytes _ bytes⟩ hShows⟩

/-- A character cut short, a key, a stray byte, a surrogate, and one more key in two parts. -/
def brokenContent : Bytes :=
  [0xE2, 0x82] ++ bytesOf "é.a" ++ [0xBF, 0xED, 0xA0, 0x80] ++ bytesOf "b." ++ [0xF0, 0x9F] ++
    bytesOf "c"

def brokenDisk : Disk where
  top := .directory [(bytesOf "a.ts", .file brokenContent)]
  cwd := []

theorem shows_loadAll_brokenDisk :
    (∀ path ∈ [bytesOf "./a.ts"], ∃ bytes, brokenDisk.readBytes path = .ok bytes) ∧
      bytesOf "é.a" <:+: brokenContent ∧ ¬bytesOf "b.c" <:+: brokenContent ∧
      ∃ sources, loadAll brokenDisk (bytesOf ".") [bytesOf "./a.ts"] = .ok sources ∧
        List.Forall₂ (fun path source =>
          source.name = Path.nameBelow (bytesOf ".") path ∧
            ∃ bytes, brokenDisk.readBytes path = .ok bytes ∧ source.Shows bytes)
          [bytesOf "./a.ts"] sources := by
  have hRead : ∀ path ∈ [bytesOf "./a.ts"], ∃ bytes, brokenDisk.readBytes path = .ok bytes :=
    List.forall_mem_singleton.mpr ⟨brokenContent, rfl⟩
  exact ⟨hRead, by decide, by decide, shows_loadAll brokenDisk (bytesOf ".") hRead⟩

example : String.ofList (Utf8.decodeLossy brokenContent) =
    "\uFFFDé.a\uFFFD\uFFFD\uFFFD\uFFFDb.\uFFFDc" := by
  decide +kernel

end SourceFile
end CatalogAudit
