import Mathlib.Algebra.GroupWithZero.Nat
import Mathlib.Data.List.Basic

namespace Wayjournal.Crypto.Blake3

/-- Eight words: a chaining value. -/
abbrev Words := List UInt32

def iv : Words :=
  [0x6a09e667, 0xbb67ae85, 0x3c6ef372, 0xa54ff53a, 0x510e527f, 0x9b05688c, 0x1f83d9ab, 0x5be0cd19]

def CHUNK_START : UInt32 := 1
def CHUNK_END : UInt32 := 2
def PARENT : UInt32 := 4
def ROOT : UInt32 := 8

def permutation : List Nat := [2, 6, 3, 10, 7, 0, 4, 13, 1, 11, 12, 5, 9, 14, 15, 8]

def rotateRight (x : UInt32) (n : UInt32) : UInt32 := (x >>> n) ||| (x <<< (32 - n))

def mix (state : Words) (a b c d : Nat) (x y : UInt32) : Words :=
  let va := state.getD a 0 + state.getD b 0 + x
  let vd := rotateRight (state.getD d 0 ^^^ va) 16
  let vc := state.getD c 0 + vd
  let vb := rotateRight (state.getD b 0 ^^^ vc) 12
  let va := va + vb + y
  let vd := rotateRight (vd ^^^ va) 8
  let vc := vc + vd
  let vb := rotateRight (vb ^^^ vc) 7
  (((state.set a va).set b vb).set c vc).set d vd

/-- The columns and then the diagonals of a state, each with two words of the block. -/
def lanes : List (Nat × Nat × Nat × Nat) :=
  [(0, 4, 8, 12), (1, 5, 9, 13), (2, 6, 10, 14), (3, 7, 11, 15),
    (0, 5, 10, 15), (1, 6, 11, 12), (2, 7, 8, 13), (3, 4, 9, 14)]

def round (state block : Words) : Words :=
  (lanes.zipIdx).foldl (fun state (lane, i) =>
    mix state lane.1 lane.2.1 lane.2.2.1 lane.2.2.2 (block.getD (2 * i) 0) (block.getD (2 * i + 1) 0)) state

theorem length_mix (state : Words) (a b c d : Nat) (x y : UInt32) : (mix state a b c d x y).length = state.length := by
  simp [mix]

theorem length_round (state block : Words) : (round state block).length = state.length := by
  simp [round, lanes, length_mix]

def permute (block : Words) : Words := permutation.map (fun i => block.getD i 0)

def rounds : Nat → Words → Words → Words
  | 0, state, _ => state
  | n + 1, state, block => rounds n (round state block) (permute block)

theorem length_rounds (n : Nat) (state block : Words) : (rounds n state block).length = state.length := by
  induction n generalizing state block with
  | zero => rfl
  | succ n ih => rw [rounds, ih, length_round]

def compress (cv block : Words) (counter : Nat) (length flags : UInt32) : Words :=
  let state := cv ++ iv.take 4 ++ [UInt32.ofNat counter, UInt32.ofNat (counter / 2 ^ 32), length, flags]
  let state := rounds 7 state block
  List.zipWith (· ^^^ ·) (state.take 8) (state.drop 8)

theorem length_compress {cv : Words} (h : cv.length = 8) (block : Words) (counter : Nat) (length flags : UInt32) :
    (compress cv block counter length flags).length = 8 := by
  simp [compress, length_rounds, iv, h]

def wordOf (bytes : List UInt8) : UInt32 :=
  (bytes.getD 0 0).toUInt32 ||| (bytes.getD 1 0).toUInt32 <<< 8 ||| (bytes.getD 2 0).toUInt32 <<< 16 |||
    (bytes.getD 3 0).toUInt32 <<< 24

/-- The sixteen words of a block, padded with zeros. -/
def blockOf (bytes : List UInt8) : Words := (List.range 16).map (fun i => wordOf ((bytes.drop (4 * i)).take 4))

/-- The last compression of a tree node, before it is known whether it is the root. -/
structure Output where
  cv : Words
  block : Words
  counter : Nat
  length : UInt32
  flags : UInt32

def Output.chainingValue (o : Output) : Words := compress o.cv o.block o.counter o.length o.flags

def Output.root (o : Output) : Words := compress o.cv o.block 0 o.length (o.flags ||| ROOT)

/-- The blocks of a chunk; `blocks` bounds how many are left. -/
def chunkFrom (counter : Nat) : Nat → Words → UInt32 → List UInt8 → Output
  | 0, cv, start, bytes =>
    ⟨cv, blockOf bytes, counter, UInt32.ofNat bytes.length, start ||| CHUNK_END⟩
  | blocks + 1, cv, start, bytes =>
    if bytes.length ≤ 64 then ⟨cv, blockOf bytes, counter, UInt32.ofNat bytes.length, start ||| CHUNK_END⟩
    else chunkFrom counter blocks (compress cv (blockOf (bytes.take 64)) counter 64 start) 0 (bytes.drop 64)

theorem length_chunkFrom {cv : Words} (h : cv.length = 8) (counter blocks : Nat) (start : UInt32)
    (bytes : List UInt8) : (chunkFrom counter blocks cv start bytes).cv.length = 8 := by
  induction blocks generalizing cv start bytes with
  | zero => exact h
  | succ blocks ih =>
    rw [chunkFrom]
    split
    · exact h
    · exact ih (length_compress h ..) _ _

def chunk (counter : Nat) (bytes : List UInt8) : Output := chunkFrom counter 16 iv CHUNK_START bytes

def parent (left right : Output) : Output :=
  ⟨iv, left.chainingValue ++ right.chainingValue, 0, 64, PARENT⟩

/-- The length of the left subtree: the largest power of two of chunks that leaves a rest. -/
def leftLength (length : Nat) : Nat := 2 ^ (Nat.log2 ((length - 1) / 1024)) * 1024

def tree : Nat → Nat → List UInt8 → Output
  | 0, counter, bytes => chunk counter bytes
  | depth + 1, counter, bytes =>
    if bytes.length ≤ 1024 then chunk counter bytes
    else
      let left := leftLength bytes.length
      parent (tree depth counter (bytes.take left)) (tree depth (counter + left / 1024) (bytes.drop left))

theorem length_tree (depth counter : Nat) (bytes : List UInt8) : (tree depth counter bytes).cv.length = 8 := by
  have hchunk : (chunk counter bytes).cv.length = 8 := length_chunkFrom rfl ..
  cases depth with
  | zero => exact hchunk
  | succ depth =>
    rw [tree]
    split
    · exact hchunk
    · rfl

/-- The bytes of a word, each as two hexadecimal digits. -/
def nibbles (word : UInt32) : List (Fin 16) :=
  [1, 0, 3, 2, 5, 4, 7, 6].map (fun i => Fin.ofNat 16 (word.toNat / 16 ^ i))

theorem length_flatMap_nibbles (words : Words) : (words.flatMap nibbles).length = 8 * words.length := by
  induction words with
  | nil => rfl
  | cons w ws ih =>
    rw [List.flatMap_cons, List.length_append, ih, List.length_cons]
    change 8 + _ = _
    omega

/-- The digest of 32 bytes as hexadecimal digits. -/
def digits (bytes : List UInt8) : List (Fin 16) := (tree bytes.length 0 bytes).root.flatMap nibbles

theorem length_digits (bytes : List UInt8) : (digits bytes).length = 64 := by
  rw [digits, length_flatMap_nibbles, Output.root, length_compress (length_tree ..)]

example : (digits []).take 8 = [0xa, 0xf, 0x1, 0x3, 0x4, 0x9, 0xb, 0x9] := by decide +kernel

end Wayjournal.Crypto.Blake3
