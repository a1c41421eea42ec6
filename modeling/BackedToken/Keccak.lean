import BackedToken.Bytes

/-! The Keccak-256 digest: a sponge over 25 lanes of 64 bits that absorbs blocks of 136 bytes. -/

namespace BackedToken.Keccak

/-- The lane in column `x` and row `y` is number `x + 5 * y`. -/
abbrev Lanes := List UInt64

def lane (lanes : Lanes) (x y : Nat) : UInt64 := lanes.getD (x % 5 + 5 * (y % 5)) 0

def tabulate (f : Nat → Nat → UInt64) : Lanes := (List.range 25).map fun i => f (i % 5) (i / 5)

def rotate (w : UInt64) (n : Nat) : UInt64 :=
  if n = 0 then w else w <<< UInt64.ofNat n ||| w >>> UInt64.ofNat (64 - n)

def rotations : List Nat :=
  [0, 1, 62, 28, 27, 36, 44, 6, 55, 20, 3, 10, 43, 25, 39, 41, 45, 15, 21, 8, 18, 2, 61, 56, 14]

def roundConstants : List UInt64 :=
  [0x0000000000000001, 0x0000000000008082, 0x800000000000808A, 0x8000000080008000, 0x000000000000808B, 0x0000000080000001,
   0x8000000080008081, 0x8000000000008009, 0x000000000000008A, 0x0000000000000088, 0x0000000080008009, 0x000000008000000A,
   0x000000008000808B, 0x800000000000008B, 0x8000000000008089, 0x8000000000008003, 0x8000000000008002, 0x8000000000000080,
   0x000000000000800A, 0x800000008000000A, 0x8000000080008081, 0x8000000000008080, 0x0000000080000001, 0x8000000080008008]

def mixColumns (lanes : Lanes) : Lanes :=
  let parity := (List.range 5).map fun x =>
    lane lanes x 0 ^^^ lane lanes x 1 ^^^ lane lanes x 2 ^^^ lane lanes x 3 ^^^ lane lanes x 4
  tabulate fun x y => lane lanes x y ^^^ parity.getD ((x + 4) % 5) 0 ^^^ rotate (parity.getD ((x + 1) % 5) 0) 1

def scatter (lanes : Lanes) : Lanes :=
  tabulate fun x y =>
    let column := (x + 3 * y) % 5
    rotate (lane lanes column x) (rotations.getD (column + 5 * x) 0)

def combineRows (lanes : Lanes) : Lanes :=
  tabulate fun x y => lane lanes x y ^^^ (~~~lane lanes (x + 1) y &&& lane lanes (x + 2) y)

def addConstant (constant : UInt64) : Lanes → Lanes
  | [] => []
  | first :: rest => (first ^^^ constant) :: rest

def round (lanes : Lanes) (constant : UInt64) : Lanes :=
  addConstant constant (combineRows (scatter (mixColumns lanes)))

def permute (lanes : Lanes) : Lanes := roundConstants.foldl round lanes

def rate : Nat := 136

def pad (bytes : Bytes) : Bytes :=
  let room := rate - bytes.length % rate
  if room = 1 then bytes ++ [0x81] else bytes ++ [0x01] ++ List.replicate (room - 2) 0 ++ [0x80]

def blocks (bytes : Bytes) : List Bytes :=
  (List.range (bytes.length / rate)).map fun i => (bytes.drop (rate * i)).take rate

def laneOfBytes (bytes : Bytes) : UInt64 := bytes.foldr (fun b w => w <<< 8 ||| b.toUInt64) 0

def laneBytes (w : UInt64) : Bytes := (List.range 8).map fun i => (w >>> UInt64.ofNat (8 * i)).toUInt8

def blockLanes (block : Bytes) : Lanes := (List.range 25).map fun i => laneOfBytes ((block.drop (8 * i)).take 8)

def absorb (lanes : Lanes) (block : Bytes) : Lanes :=
  permute (List.zipWith (· ^^^ ·) lanes (blockLanes block))

def digest (bytes : Bytes) : Bytes :=
  (((blocks (pad bytes)).foldl absorb (List.replicate 25 0)).take 4).flatMap laneBytes

end BackedToken.Keccak
