import CatalogAudit.Text.Quoted
import CatalogAudit.Text.Utf8

/-!
# Content digests

The BLAKE3 hash function with its default output of 32 bytes. The input is cut into chunks of 1024
bytes and these into blocks of 64 bytes. The blocks of a chunk are compressed one after the other,
and the chunks are the leaves of a binary tree whose root gives the digest.
-/

namespace CatalogAudit
namespace Digest

open Utf8 (Bytes)

abbrev Words (n : Nat) := Vector UInt32 n

def initialWords : Words 8 :=
  #v[0x6A09E667, 0xBB67AE85, 0x3C6EF372, 0xA54FF53A, 0x510E527F, 0x9B05688C, 0x1F83D9AB, 0x5BE0CD19]

/-!
# Compression

Seven rounds mix the columns and then the diagonals of a four by four matrix of words. Between
rounds the words of the block are permuted.
-/

def rotateRight (x : UInt32) (n : UInt32) : UInt32 :=
  (x >>> n) ||| (x <<< (32 - n))

def mix (v : Words 16) (a b c d : Fin 16) (x y : UInt32) : Words 16 :=
  let v := v.set a (v[a] + v[b] + x)
  let v := v.set d (rotateRight (v[d] ^^^ v[a]) 16)
  let v := v.set c (v[c] + v[d])
  let v := v.set b (rotateRight (v[b] ^^^ v[c]) 12)
  let v := v.set a (v[a] + v[b] + y)
  let v := v.set d (rotateRight (v[d] ^^^ v[a]) 8)
  let v := v.set c (v[c] + v[d])
  v.set b (rotateRight (v[b] ^^^ v[c]) 7)

def round (v m : Words 16) : Words 16 :=
  let v := mix v 0 4 8 12 m[0] m[1]
  let v := mix v 1 5 9 13 m[2] m[3]
  let v := mix v 2 6 10 14 m[4] m[5]
  let v := mix v 3 7 11 15 m[6] m[7]
  let v := mix v 0 5 10 15 m[8] m[9]
  let v := mix v 1 6 11 12 m[10] m[11]
  let v := mix v 2 7 8 13 m[12] m[13]
  mix v 3 4 9 14 m[14] m[15]

def permute (m : Words 16) : Words 16 :=
  #v[m[2], m[6], m[3], m[10], m[7], m[0], m[4], m[13],
    m[1], m[11], m[12], m[5], m[9], m[14], m[15], m[8]]

def rounds : Nat → Words 16 → Words 16 → Words 16
  | 0, v, _ => v
  | n + 1, v, m => rounds n (round v m) (permute m)

/-!
# Nodes

A node holds what is compressed last for it. Its chaining value is what the node above it sees.
-/

structure Node where
  chaining : Words 8
  block : Words 16
  counter : Nat
  length : Nat
  flags : UInt32

def chunkStart : UInt32 := 1
def chunkEnd : UInt32 := 2
def parentFlag : UInt32 := 4
def rootFlag : UInt32 := 8

def Node.compress (n : Node) : Words 8 :=
  let h := n.chaining
  let v : Words 16 :=
    #v[h[0], h[1], h[2], h[3], h[4], h[5], h[6], h[7],
      initialWords[0], initialWords[1], initialWords[2], initialWords[3],
      UInt32.ofNat n.counter, UInt32.ofNat (n.counter / Nat.pow 2 32), UInt32.ofNat n.length,
      n.flags]
  let v := rounds 7 v n.block
  #v[v[0] ^^^ v[8], v[1] ^^^ v[9], v[2] ^^^ v[10], v[3] ^^^ v[11],
    v[4] ^^^ v[12], v[5] ^^^ v[13], v[6] ^^^ v[14], v[7] ^^^ v[15]]

/-- Splits off pieces of `n + 1` items. The last piece may be shorter, and no piece is empty. -/
def splitEvery (n : Nat) (xs : List α) : List (List α) :=
  match xs with
  | [] => []
  | x :: rest => (x :: rest.take n) :: splitEvery n (rest.drop n)
termination_by xs.length
decreasing_by
  simp only [List.length_drop, List.length_cons]
  omega

def wordOf (bytes : Bytes) : UInt32 :=
  bytes.foldr (fun b word => word * 256 + b.toUInt32) 0

def blockWords (bytes : Bytes) : Words 16 :=
  let words := (splitEvery 3 bytes).map wordOf
  Vector.ofFn (fun i : Fin 16 => words.getD i 0)

/-!
# Chunks
-/

def blockNode (index : Nat) (chaining : Words 8) (block : Bytes) (flags : UInt32) : Node :=
  ⟨chaining, blockWords block, index, block.length, flags⟩

/-- Compresses the blocks of a chunk in order, all but the last, which becomes the node. -/
def chunkBlocks (index : Nat) (chaining : Words 8) (flags : UInt32) : List Bytes → Node
  | [] => blockNode index chaining [] (flags ||| chunkEnd)
  | [block] => blockNode index chaining block (flags ||| chunkEnd)
  | block :: next :: blocks =>
      chunkBlocks index (blockNode index chaining block flags).compress 0 (next :: blocks)

def chunkNode (index : Nat) (chunk : Bytes) : Node :=
  chunkBlocks index initialWords chunkStart (splitEvery 63 chunk)

def chunkNodes : Nat → List Bytes → List Node
  | _, [] => []
  | index, chunk :: chunks => chunkNode index chunk :: chunkNodes (index + 1) chunks

/-!
# The tree

Neighbours are joined level by level. A node without a neighbour goes up as it is, which makes
every left subtree complete.
-/

def parent (left right : Node) : Node :=
  ⟨initialWords, left.compress ++ right.compress, 0, 64, parentFlag⟩

def joinPairs : List Node → List Node
  | left :: right :: nodes => parent left right :: joinPairs nodes
  | nodes => nodes

theorem length_joinPairs_le (nodes : List Node) : (joinPairs nodes).length ≤ nodes.length := by
  fun_induction joinPairs nodes with
  | case1 left right nodes ih => simp only [List.length_cons]; omega
  | case2 nodes => exact Nat.le_refl _

def top : Node → List Node → Node
  | node, [] => node
  | node, next :: nodes => top (parent node next) (joinPairs nodes)
termination_by _ nodes => nodes.length
decreasing_by
  have h := length_joinPairs_le nodes
  simp only [List.length_cons]
  omega

def wordBytes (word : UInt32) : Bytes :=
  [word.toUInt8, (word >>> 8).toUInt8, (word >>> 16).toUInt8, (word >>> 24).toUInt8]

def digest (bytes : Bytes) : Bytes :=
  let root := match splitEvery 1023 bytes with
    | [] => chunkNode 0 []
    | chunk :: chunks => top (chunkNode 0 chunk) (chunkNodes 1 chunks)
  let words := { root with flags := root.flags ||| rootFlag }.compress
  words.toList.flatMap wordBytes

def hex (bytes : Bytes) : String :=
  String.ofList (bytes.flatMap fun b =>
    [Text.hexDigit (b.toNat / 16), Text.hexDigit (b.toNat % 16)])

/-- The digest that tells whether a file still has the content it had, path included. -/
def fingerprint (path content : String) : String :=
  hex (digest (bytesOf path ++ 0 :: bytesOf content))

end Digest
end CatalogAudit
