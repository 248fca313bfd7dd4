import StyleVariants.Hex

/-!
# BLAKE3

Chunks of 1024 bytes are the leaves of a binary tree whose left subtrees are as large a
power of two as fits. Pairing the neighbours of one level after the other, an odd last
node going up unchanged, builds just that tree.
-/
namespace StyleVariants.Blake3

def initial : Vector UInt32 8 :=
  #v[0x6A09E667, 0xBB67AE85, 0x3C6EF372, 0xA54FF53A, 0x510E527F, 0x9B05688C, 0x1F83D9AB, 0x5BE0CD19]

def permutation : Vector (Fin 16) 16 := #v[2, 6, 3, 10, 7, 0, 4, 13, 1, 11, 12, 5, 9, 14, 15, 8]

def chunkStart : UInt32 := 1
def chunkEnd : UInt32 := 2
def parentFlag : UInt32 := 4
def rootFlag : UInt32 := 8

def rotateRight (x n : UInt32) : UInt32 := (x >>> n) ||| (x <<< (32 - n))

def mix (a b c d : Fin 16) (x y : UInt32) (v : Vector UInt32 16) : Vector UInt32 16 :=
  let v := v.set a (v[a] + v[b] + x)
  let v := v.set d (rotateRight (v[d] ^^^ v[a]) 16)
  let v := v.set c (v[c] + v[d])
  let v := v.set b (rotateRight (v[b] ^^^ v[c]) 12)
  let v := v.set a (v[a] + v[b] + y)
  let v := v.set d (rotateRight (v[d] ^^^ v[a]) 8)
  let v := v.set c (v[c] + v[d])
  v.set b (rotateRight (v[b] ^^^ v[c]) 7)

/-- One round: the four columns of the state, then its four diagonals. -/
def round (m v : Vector UInt32 16) : Vector UInt32 16 :=
  let v := mix 0 4 8 12 m[0] m[1] v
  let v := mix 1 5 9 13 m[2] m[3] v
  let v := mix 2 6 10 14 m[4] m[5] v
  let v := mix 3 7 11 15 m[6] m[7] v
  let v := mix 0 5 10 15 m[8] m[9] v
  let v := mix 1 6 11 12 m[10] m[11] v
  let v := mix 2 7 8 13 m[12] m[13] v
  mix 3 4 9 14 m[14] m[15] v

def permute (m : Vector UInt32 16) : Vector UInt32 16 := Vector.ofFn fun i => m[permutation[i]]

def rounds : Nat → Vector UInt32 16 → Vector UInt32 16 → Vector UInt32 16
  | 0, _, v => v
  | n + 1, m, v => rounds n (permute m) (round m v)

/-- A compression that has not been run: the last block of a chunk, or a parent. -/
structure Node where
  chaining : Vector UInt32 8
  block : Vector UInt32 16
  counter : UInt64
  blockLength : UInt32
  flags : UInt32

def Node.output (n : Node) (flags : UInt32) : Vector UInt32 8 :=
  let v := rounds 7 n.block (n.chaining ++ #v[initial[0], initial[1], initial[2], initial[3],
    n.counter.toUInt32, (n.counter >>> 32).toUInt32, n.blockLength, n.flags ||| flags])
  Vector.ofFn fun i =>
    have bound := i.isLt
    v[i.val] ^^^ v[i.val + 8]

def parent (left right : Node) : Node :=
  ⟨initial, left.output 0 ++ right.output 0, 0, 64, parentFlag⟩

/-- A little-endian word; bytes past the end are zero. -/
def word (bytes : Array UInt8) (start : Nat) : UInt32 :=
  let byte (i : Nat) : UInt32 := (bytes.getD (start + i) 0).toUInt32
  byte 0 ||| byte 1 <<< 8 ||| byte 2 <<< 16 ||| byte 3 <<< 24

def block (bytes : Array UInt8) (start : Nat) : Vector UInt32 16 :=
  Vector.ofFn fun i => word bytes (start + 4 * i)

def blockNode (bytes : Array UInt8) (counter : UInt64) (start : Nat) (flags : UInt32)
    (chaining : Vector UInt32 8) : Node :=
  ⟨chaining, block bytes start, counter, (min 64 (bytes.size - start)).toUInt32, flags⟩

/-- The node of a chunk that has `more` blocks behind the one at `start`. -/
def chunk (bytes : Array UInt8) (counter : UInt64) :
    (more start : Nat) → (flags : UInt32) → Vector UInt32 8 → Node
  | 0, start, flags, chaining => blockNode bytes counter start (flags ||| chunkEnd) chaining
  | more + 1, start, flags, chaining =>
      chunk bytes counter more (start + 64) 0
        ((blockNode bytes counter start flags chaining).output 0)

/-- The chunk with the given number: of 16 blocks, or of as many as are left. -/
def leaf (bytes : Array UInt8) (i : Nat) : Node :=
  let start := 1024 * i
  chunk bytes i.toUInt64 ((min 1024 (bytes.size - start) - 1) / 64) start chunkStart initial

def pairUp : List Node → List Node
  | left :: right :: rest => parent left right :: pairUp rest
  | rest => rest

/-- The root above a nonempty level; each step at least halves the number of nodes
behind the first, so their number is fuel enough. -/
def root : Nat → Node → List Node → Node
  | fuel + 1, left, right :: rest => root fuel (parent left right) (pairUp rest)
  | _, node, _ => node

def hash (bytes : Array UInt8) : Vector UInt32 8 :=
  let further := (List.range ((bytes.size - 1) / 1024)).map fun i => leaf bytes (i + 1)
  (root further.length (leaf bytes 0) further).output rootFlag

def wordHex (w : UInt32) : List Char :=
  hexByte w.toUInt8 ++ hexByte (w >>> 8).toUInt8 ++ hexByte (w >>> 16).toUInt8 ++
    hexByte (w >>> 24).toUInt8

def hexDigest (text : String) : String :=
  String.ofList ((hash text.toUTF8.data).toList.flatMap wordHex)

theorem hexadecimal_hexDigest (text : String) : Hexadecimal (hexDigest text) := by
  intro c hc
  rw [hexDigest, String.toList_ofList] at hc
  obtain ⟨w, -, hword⟩ := List.mem_flatMap.1 hc
  simp only [wordHex, List.mem_append] at hword
  rcases hword with ((h | h) | h) | h
  all_goals exact isHexDigit_of_mem_hexByte h

end StyleVariants.Blake3
