import RelationalStore.Bytes.Basic

/-!
# SHA3-256

The sponge function over the permutation of 1600 bits. The state is five by five
lanes of 64 bits; a message is padded, added to the state in blocks of 136 bytes, and
the first 32 bytes of the state are the digest.
-/

namespace RelationalStore.Sha3

/-- The lanes of the state, row by row. -/
abbrev State := Vector UInt64 25

/-- The lane in a column and a row, both counted modulo five. -/
def lane (s : State) (x y : Nat) : UInt64 :=
  s.get ⟨x % 5 + 5 * (y % 5), by omega⟩

/-- The state whose lanes are given by column and row. -/
def ofLanes (f : Nat → Nat → UInt64) : State :=
  Vector.ofFn fun i => f (i.val % 5) (i.val / 5)

/-- Rotates a lane to the left. -/
def rotate (lane : UInt64) (count : UInt64) : UInt64 :=
  (lane <<< count) ||| (lane >>> (64 - count))

/-- How far the lanes are rotated, row by row. -/
def rotations : Vector UInt64 25 :=
  #v[0, 1, 62, 28, 27,
     36, 44, 6, 55, 20,
     3, 10, 43, 25, 39,
     41, 45, 15, 21, 8,
     18, 2, 61, 56, 14]

/-- The constants that are added in the rounds. -/
def roundConstants : List UInt64 :=
  [0x0000000000000001, 0x0000000000008082, 0x800000000000808A, 0x8000000080008000,
   0x000000000000808B, 0x0000000080000001, 0x8000000080008081, 0x8000000000008009,
   0x000000000000008A, 0x0000000000000088, 0x0000000080008009, 0x000000008000000A,
   0x000000008000808B, 0x800000000000008B, 0x8000000000008089, 0x8000000000008003,
   0x8000000000008002, 0x8000000000000080, 0x000000000000800A, 0x800000008000000A,
   0x8000000080008081, 0x8000000000008080, 0x0000000080000001, 0x8000000080008008]

/-- Adds to each lane the parities of two neighbouring columns. -/
def mixColumns (s : State) : State :=
  let parity : Vector UInt64 5 := Vector.ofFn fun x =>
    lane s x 0 ^^^ lane s x 1 ^^^ lane s x 2 ^^^ lane s x 3 ^^^ lane s x 4
  let parityOf (x : Nat) : UInt64 := parity.get ⟨x % 5, by omega⟩
  ofLanes fun x y => lane s x y ^^^ parityOf (x + 4) ^^^ rotate (parityOf (x + 1)) 1

/-- Rotates the lanes and moves them to their new places. -/
def moveLanes (s : State) : State :=
  ofLanes fun x y => rotate (lane s (x + 3 * y) x) (lane rotations (x + 3 * y) x)

/-- Combines each lane with the two that follow it in its row. -/
def mixRows (s : State) : State :=
  ofLanes fun x y => lane s x y ^^^ (~~~(lane s (x + 1) y) &&& lane s (x + 2) y)

/-- One round of the permutation. -/
def round (s : State) (constant : UInt64) : State :=
  let mixed := mixRows (moveLanes (mixColumns s))
  mixed.set 0 (mixed[0] ^^^ constant)

/-- The permutation of the state. -/
def permute (s : State) : State :=
  roundConstants.foldl round s

/-- The number of bytes that are added to the state at a time. -/
def rate : Nat := 136

/-- The message with its padding, in whole blocks. -/
def pad (message : Bytes) : Bytes :=
  let missing := rate - message.length % rate
  if missing = 1 then message ++ [0x86]
  else message ++ 0x06 :: List.replicate (missing - 2) 0 ++ [0x80]

/-- The number in the eight bytes of a block that belong to a lane. -/
def blockLane (block : Bytes) (i : Nat) : UInt64 :=
  UInt64.ofNat (Bytes.ofLittleEndian ((block.drop (8 * i)).take 8))

/-- Adds a block to the state and permutes it. -/
def absorb (s : State) (block : Bytes) : State :=
  permute (ofLanes fun x y =>
    if x + 5 * y < 17 then lane s x y ^^^ blockLane block (x + 5 * y) else lane s x y)

/-- Adds so many blocks to the state. -/
def absorbBlocks : Nat → State → Bytes → State
  | 0, s, _ => s
  | n + 1, s, message => absorbBlocks n (absorb s (message.take rate)) (message.drop rate)

/-- The digest of a message: 32 bytes. -/
def digest (message : Bytes) : Bytes :=
  let padded := pad message
  let s := absorbBlocks (padded.length / rate) (Vector.replicate 25 0) padded
  (s.toList.take 4).flatMap fun lane => Bytes.littleEndian 8 lane.toNat

/-- The checksum of a byte string: the eight bytes of its digest from the fifteenth
on, the highest first. -/
def checksum (message : Bytes) : UInt64 :=
  UInt64.ofNat (Bytes.ofBigEndian (((digest message).drop 15).take 8))

end RelationalStore.Sha3
