/-!
# BLAKE3

The BLAKE3 hash of a byte string, to its first 32 bytes.  The message is cut into chunks of 1024
bytes, each a chain of compressed 64-byte blocks, and the chunks' chaining values are joined in a
binary tree whose left parts are the greatest full powers of two.
-/

namespace RecordCodec.Blake3

def initial : List UInt32 :=
  [0x6A09E667, 0xBB67AE85, 0x3C6EF372, 0xA54FF53A, 0x510E527F, 0x9B05688C, 0x1F83D9AB, 0x5BE0CD19]

/-- The order in which the next round takes the words of the message. -/
def permutation : List Nat :=
  [2, 6, 3, 10, 7, 0, 4, 13, 1, 11, 12, 5, 9, 14, 15, 8]

namespace Flags

/-! Bits that say what a compression is for. -/

def chunkStart : UInt32 := 1

def chunkEnd : UInt32 := 2

def parent : UInt32 := 4

def root : UInt32 := 8

end Flags

/-- `word` turned right by `count` bits, for `0 < count < 32`. -/
def rotateRight (word count : UInt32) : UInt32 :=
  (word >>> count) ||| (word <<< (32 - count))

/-- Mixes the two message words `x` and `y` into four words of the state. -/
def mix (state : Array UInt32) (a b c d : Nat) (x y : UInt32) : Array UInt32 :=
  let va := state.getD a 0 + state.getD b 0 + x
  let vd := rotateRight (state.getD d 0 ^^^ va) 16
  let vc := state.getD c 0 + vd
  let vb := rotateRight (state.getD b 0 ^^^ vc) 12
  let va := va + vb + y
  let vd := rotateRight (vd ^^^ va) 8
  let vc := vc + vd
  let vb := rotateRight (vb ^^^ vc) 7
  (((state.setIfInBounds a va).setIfInBounds b vb).setIfInBounds c vc).setIfInBounds d vd

/-- One round: the four columns of the state, then its four diagonals. -/
def round (state message : Array UInt32) : Array UInt32 :=
  let word (i : Nat) := message.getD i 0
  let state := mix state 0 4 8 12 (word 0) (word 1)
  let state := mix state 1 5 9 13 (word 2) (word 3)
  let state := mix state 2 6 10 14 (word 4) (word 5)
  let state := mix state 3 7 11 15 (word 6) (word 7)
  let state := mix state 0 5 10 15 (word 8) (word 9)
  let state := mix state 1 6 11 12 (word 10) (word 11)
  let state := mix state 2 7 8 13 (word 12) (word 13)
  mix state 3 4 9 14 (word 14) (word 15)

def rounds : (count : Nat) → (state message : Array UInt32) → Array UInt32
  | 0, state, _ => state
  | count + 1, state, message =>
    rounds count (round state message) (permutation.map (message.getD · 0)).toArray

/-- Compresses one block of `length` bytes into a new chaining value of eight words. -/
def compress (chaining block : List UInt32) (counter : UInt64) (length flags : UInt32) :
    List UInt32 :=
  let tail := [counter.toUInt32, (counter >>> 32).toUInt32, length, flags]
  let state := (rounds 7 (chaining ++ initial.take 4 ++ tail).toArray block.toArray).toList
  List.zipWith (· ^^^ ·) (state.take 8) (state.drop 8)

/-- The words that bytes spell, least significant byte first; missing bytes are zero. -/
def words : (count : Nat) → List UInt8 → List UInt32
  | 0, _ => []
  | count + 1, bytes =>
    let byte (i : Nat) := (bytes.getD i 0).toUInt32
    (byte 0 ||| (byte 1 <<< 8) ||| (byte 2 <<< 16) ||| (byte 3 <<< 24)) ::
      words count (bytes.drop 4)

/-- The bytes of a word, least significant first. -/
def wordBytes (word : UInt32) : List UInt8 :=
  [word.toUInt8, (word >>> 8).toUInt8, (word >>> 16).toUInt8, (word >>> 24).toUInt8]

/-- The pieces of a list, each but the last of `size` elements. -/
def pieces {α : Type} (size : Nat) : (count : Nat) → List α → List (List α)
  | 0, _ => []
  | count + 1, elements =>
    match elements.drop size with
    | [] => [elements]
    | rest => elements.take size :: pieces size count rest

/-- Cuts a list into pieces of `size` elements; the empty list is one empty piece. -/
def cut {α : Type} (size : Nat) (elements : List α) : List (List α) :=
  pieces size (elements.length + 1) elements

/-- Compresses the blocks of a chunk one after the other; `flags` mark the first block and
`final` the last. -/
def chain (counter : UInt64) (final : UInt32) : (flags : UInt32) → List UInt32 →
    List (List UInt8) → List UInt32
  | _, chaining, [] => chaining
  | flags, chaining, [block] =>
    compress chaining (words 16 block) counter block.length.toUInt32
      (flags ||| Flags.chunkEnd ||| final)
  | flags, chaining, block :: blocks =>
    chain counter final 0 (compress chaining (words 16 block) counter 64 flags) blocks

def chunkValue (index : Nat) (final : UInt32) (chunk : List UInt8) : List UInt32 :=
  chain index.toUInt64 final Flags.chunkStart initial (cut 64 chunk)

/-- The greatest power of two below `count`, for `count` at least two. -/
def leftCount (count : Nat) : Nat :=
  1 <<< (count - 1).log2

/-- The chaining value of a tree over chunks numbered from `first`. -/
def tree : (height : Nat) → (first : Nat) → (final : UInt32) → List (List UInt8) → List UInt32
  | _, first, final, [] => chunkValue first final []
  | _, first, final, [chunk] => chunkValue first final chunk
  | 0, _, _, _ => initial
  | height + 1, first, final, chunks =>
    let left := leftCount chunks.length
    let block := tree height first 0 (chunks.take left) ++
      tree height (first + left) 0 (chunks.drop left)
    compress initial block 0 64 (Flags.parent ||| final)

/-- The 32-byte hash of `message`. -/
def hash (message : List UInt8) : List UInt8 :=
  let chunks := cut 1024 message
  (tree chunks.length 0 Flags.root chunks).flatMap wordBytes

end RecordCodec.Blake3
