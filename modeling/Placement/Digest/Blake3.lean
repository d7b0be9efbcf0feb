import Placement.Cipher.Square

/-!
# The BLAKE3 digest

The unkeyed digest of a byte string. The bytes are cut into chunks of 1024 and each chunk into blocks
of 64. The blocks of a chunk are compressed one after the other, each starting from the result of the
one before; the results of the chunks are joined in pairs until one `Node` is left, the root.

A node is kept as the inputs of its last compression, because only when all nodes are joined is it
known which of them is the root, and the root is compressed with a flag of its own.
-/

namespace Placement.Digest

/-- The eight words that compressions hand on. -/
abbrev Chain : Type := Vector UInt32 8

/-- The words that the first compression starts from. -/
def start : Chain :=
  #v[0x6A09E667, 0xBB67AE85, 0x3C6EF372, 0xA54FF53A, 0x510E527F, 0x9B05688C, 0x1F83D9AB, 0x5BE0CD19]

/-- Marks the first block of a chunk. -/
def chunkStart : UInt32 := 1
/-- Marks the last block of a chunk. -/
def chunkEnd : UInt32 := 2
/-- Marks the join of two nodes. -/
def parent : UInt32 := 4
/-- Marks the root. -/
def root : UInt32 := 8

@[inline] def rotate (word count : UInt32) : UInt32 :=
  word >>> count ||| word <<< (32 - count)

/-- Mixes four words of the state, and two of the message into them. -/
@[inline] def mix (x y : UInt32) (q : Quad) : Quad :=
  let a := q.a + q.b + x
  let d := rotate (q.d ^^^ a) 16
  let c := q.c + d
  let b := rotate (q.b ^^^ c) 12
  let a := a + b + y
  let d := rotate (d ^^^ a) 8
  let c := c + d
  let b := rotate (b ^^^ c) 7
  ⟨a, b, c, d⟩

/-- One round. It takes the message words in order, two for every column and diagonal. -/
def round (s m : Square) : Square := s.round fun i => mix m[2 * i.val] m[2 * i.val + 1]

/-- The order in which the next round takes the message words of this one. -/
def permute (m : Square) : Square :=
  #v[m[2], m[6], m[3], m[10], m[7], m[0], m[4], m[13],
     m[1], m[11], m[12], m[5], m[9], m[14], m[15], m[8]]

/-- The given number of rounds, with the message words permuted between them. -/
def rounds : Nat → Square → Square → Square
  | 0, s, _ => s
  | n + 1, s, m => rounds n (round s m) (permute m)

structure Node where
  chain : Chain
  message : Square
  /-- The number of the chunk; zero for a join. -/
  counter : UInt64
  /-- How many bytes of the message count. -/
  length : UInt32
  flags : UInt32

namespace Node

/-- Compresses a node, with further flags, to the eight words that it hands on. -/
def compress (node : Node) (flags : UInt32) : Chain :=
  let s : Square :=
    (node.chain ++ #v[0x6A09E667, 0xBB67AE85, 0x3C6EF372, 0xA54FF53A,
      node.counter.toUInt32, (node.counter >>> 32).toUInt32, node.length, node.flags ||| flags]).cast
      (by decide)
  let s := rounds 7 s node.message
  Vector.ofFn fun i : Fin 8 => s[i.val] ^^^ s[i.val + 8]

/-- The join of two nodes: a block made of what they hand on. -/
def join (left right : Node) : Node :=
  { chain := start
    message := (left.compress 0 ++ right.compress 0).cast (by decide)
    counter := 0
    length := 64
    flags := parent }

end Node

/-- The word of four bytes, the first being the lowest. -/
def wordOf (bytes : List UInt8) : UInt32 :=
  bytes.foldr (fun byte word => word <<< 8 ||| byte.toUInt32) 0

/-- Sixteen words of four bytes each; bytes that are missing at the end are zero. -/
def messageOf (bytes : List UInt8) : Square :=
  Vector.ofFn fun i : Fin 16 => wordOf ((bytes.drop (4 * i.val)).take 4)

/-- Cuts a list into pieces of `size`, the last of which may be shorter. An empty list is one empty
piece. The second argument bounds the number of further cuts. -/
def pieces {α : Type} (size : Nat) : Nat → List α → List (List α)
  | 0, bytes => [bytes]
  | cuts + 1, bytes =>
    if bytes.length ≤ size then [bytes]
    else bytes.take size :: pieces size cuts (bytes.drop size)

def chunkFrom (counter : UInt64) (flags : UInt32) (chain : Chain) : List (List UInt8) → Node
  | [] => { chain, message := messageOf [], counter, length := 0, flags := flags ||| chunkEnd }
  | [block] =>
    { chain, message := messageOf block, counter, length := block.length.toUInt32,
      flags := flags ||| chunkEnd }
  | block :: blocks =>
    let node : Node :=
      { chain, message := messageOf block, counter, length := block.length.toUInt32, flags }
    chunkFrom counter 0 (node.compress 0) blocks

def chunk (number : Nat) (bytes : List UInt8) : Node :=
  chunkFrom number.toUInt64 chunkStart start (pieces 64 bytes.length bytes)

/-- Joins neighbours in pairs. An odd node at the end stays as it is. -/
def joinPairs : List Node → List Node
  | left :: right :: nodes => left.join right :: joinPairs nodes
  | nodes => nodes

theorem length_joinPairs : ∀ nodes : List Node, (joinPairs nodes).length ≤ nodes.length
  | [] => Nat.le_refl _
  | [_] => Nat.le_refl _
  | _ :: _ :: nodes => by
    have := length_joinPairs nodes
    simp only [joinPairs, List.length_cons]
    omega

/-- Joins pairs until one node is left. Going level by level puts the greatest power of two that
leaves something over to the left of every join. -/
def rootOf (first : Node) (others : List Node) : Node :=
  match others with
  | [] => first
  | second :: nodes => rootOf (first.join second) (joinPairs nodes)
termination_by others.length
decreasing_by
  have := length_joinPairs nodes
  simp only [List.length_cons]
  omega

def rootNode (bytes : List UInt8) : Node :=
  match (pieces 1024 bytes.length bytes).mapIdx chunk with
  | [] => chunk 0 []
  | first :: others => rootOf first others

def digest (bytes : List UInt8) : Chain := (rootNode bytes).compress root

end Placement.Digest
