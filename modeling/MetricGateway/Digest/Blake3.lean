/-!
# The hash function BLAKE3

The input is cut into chunks of 1024 bytes and each chunk into blocks of 64. A *node* is the last compression of a
chunk, or the compression of the two chaining values below it in the tree; the left half of a tree over more than one
chunk holds the largest power of two of chunks that leaves something for the right half. `hash` compresses the topmost
node once more with the root flag set and takes its first 32 bytes.
-/

namespace MetricGateway.Blake3

/-- The chaining value that the first block of every chunk starts from. -/
def initial : Vector UInt32 8 :=
  #v[0x6a09e667, 0xbb67ae85, 0x3c6ef372, 0xa54ff53a, 0x510e527f, 0x9b05688c, 0x1f83d9ab, 0x5be0cd19]

/-- The flag of the first block of a chunk. -/
def chunkStart : UInt32 := 1

/-- The flag of the last block of a chunk. -/
def chunkEnd : UInt32 := 2

/-- The flag of a node above two others. -/
def parent : UInt32 := 4

/-- The flag of the topmost node. -/
def root : UInt32 := 8

/-! ## Compression -/

/-- Rotates a word to the right. -/
def rotateRight (w : UInt32) (n : UInt32) : UInt32 := (w >>> n) ||| (w <<< (32 - n))

/-- Mixes two message words into four words of the state. -/
def mix (v : Vector UInt32 16) (a b c d : Fin 16) (x y : UInt32) : Vector UInt32 16 :=
  let va := v[a] + v[b] + x
  let vd := rotateRight (v[d] ^^^ va) 16
  let vc := v[c] + vd
  let vb := rotateRight (v[b] ^^^ vc) 12
  let va := va + vb + y
  let vd := rotateRight (vd ^^^ va) 8
  let vc := vc + vd
  let vb := rotateRight (vb ^^^ vc) 7
  (((v.set a va).set b vb).set c vc).set d vd

/-- Mixes a message into the columns and then into the diagonals of the state. -/
def round (v m : Vector UInt32 16) : Vector UInt32 16 :=
  let v := mix v 0 4 8 12 m[0] m[1]
  let v := mix v 1 5 9 13 m[2] m[3]
  let v := mix v 2 6 10 14 m[4] m[5]
  let v := mix v 3 7 11 15 m[6] m[7]
  let v := mix v 0 5 10 15 m[8] m[9]
  let v := mix v 1 6 11 12 m[10] m[11]
  let v := mix v 2 7 8 13 m[12] m[13]
  mix v 3 4 9 14 m[14] m[15]

/-- The message of the next round. -/
def permute (m : Vector UInt32 16) : Vector UInt32 16 :=
  #v[m[2], m[6], m[3], m[10], m[7], m[0], m[4], m[13], m[1], m[11], m[12], m[5], m[9], m[14], m[15], m[8]]

/-- Runs a number of rounds. -/
def rounds : Nat → Vector UInt32 16 → Vector UInt32 16 → Vector UInt32 16
  | 0, v, _ => v
  | n + 1, v, m => rounds n (round v m) (permute m)

/-- One compression that is still to be run. -/
structure Node where
  chaining : Vector UInt32 8
  message : Vector UInt32 16
  counter : UInt64
  blockLength : UInt32
  flags : UInt32

/-- The words of a node's compression that a chaining value is made of. -/
def Node.compress (n : Node) : Vector UInt32 8 :=
  let h := n.chaining
  let v := rounds 7
    #v[h[0], h[1], h[2], h[3], h[4], h[5], h[6], h[7], initial[0], initial[1], initial[2], initial[3],
      n.counter.toUInt32, (n.counter >>> 32).toUInt32, n.blockLength, n.flags] n.message
  #v[v[0] ^^^ v[8], v[1] ^^^ v[9], v[2] ^^^ v[10], v[3] ^^^ v[11], v[4] ^^^ v[12], v[5] ^^^ v[13], v[6] ^^^ v[14],
    v[7] ^^^ v[15]]

/-! ## The tree -/

/-- Four bytes as a word, the lowest byte first. -/
def wordOf (bytes : List UInt8) : UInt32 := bytes.foldr (fun b w => w <<< 8 ||| b.toUInt32) 0

/-- The message of a block, filled up with zeros. -/
def messageOf (block : List UInt8) : Vector UInt32 16 :=
  Vector.ofFn fun i => wordOf ((block.drop (4 * i.val)).take 4)

/-- The node of a chunk, whose blocks are compressed one after the other from the given chaining value on. -/
def chunkNode (counter : UInt64) (chaining : Vector UInt32 8) (start : UInt32) (bytes : List UInt8) : Node :=
  let node : Node :=
    ⟨chaining, messageOf (bytes.take 64), counter, UInt32.ofNat (bytes.take 64).length, start⟩
  if bytes.length ≤ 64 then { node with flags := start ||| chunkEnd }
  else chunkNode counter node.compress 0 (bytes.drop 64)
termination_by bytes.length
decreasing_by simp; omega

/-- The node above two chaining values. -/
def parentNode (left right : Vector UInt32 8) : Node := ⟨initial, left ++ right, 0, 64, parent⟩

/-- The number of bytes in the left half of a tree over more than one chunk. -/
def leftLength (length : Nat) : Nat := 1024 * Nat.pow 2 ((length - 1) / 1024).log2

/-- The topmost node of the tree over some bytes, whose first chunk has the given number. -/
def treeNode (chunk : Nat) (bytes : List UInt8) : Node :=
  if bytes.length ≤ 1024 then chunkNode (UInt64.ofNat chunk) initial chunkStart bytes
  else
    let n := leftLength bytes.length
    parentNode (treeNode chunk (bytes.take n)).compress (treeNode (chunk + n / 1024) (bytes.drop n)).compress
termination_by bytes.length
decreasing_by
  · have h := Nat.log2_self_le (n := (bytes.length - 1) / 1024) (by omega)
    simp only [List.length_take, leftLength, Nat.pow_eq]
    omega
  · have := Nat.two_pow_pos (((bytes.length - 1) / 1024).log2)
    simp only [List.length_drop, leftLength, Nat.pow_eq]
    omega

/-- The bytes of a word, the lowest byte first. -/
def bytesOfWord (w : UInt32) : List UInt8 :=
  [w.toUInt8, (w >>> 8).toUInt8, (w >>> 16).toUInt8, (w >>> 24).toUInt8]

/-- The digest of some bytes. -/
def hash (bytes : List UInt8) : List UInt8 :=
  let top := treeNode 0 bytes
  { top with flags := top.flags ||| root }.compress.toList.flatMap bytesOfWord

end MetricGateway.Blake3
