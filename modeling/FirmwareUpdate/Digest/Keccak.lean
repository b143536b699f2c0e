/-! The permutation Keccak-f[1600] on twenty-five 64-bit lanes; lane `(x, y)` has the index
`x + 5 * y`. -/
namespace FirmwareUpdate.Keccak

abbrev Lanes := Vector UInt64 25

def zero : Lanes := Vector.replicate 25 0

/-- Both coordinates wrap at five. -/
def lane (s : Lanes) (x y : Nat) : UInt64 := s.get ⟨x % 5 + 5 * (y % 5), by omega⟩

def ofLanes (f : Nat → Nat → UInt64) : Lanes := Vector.ofFn fun i => f (i.val % 5) (i.val / 5)

def rotate (v : UInt64) (amount : UInt64) : UInt64 := (v <<< amount) ||| (v >>> (64 - amount))

def column (s : Lanes) (x : Nat) : UInt64 :=
  lane s x 0 ^^^ lane s x 1 ^^^ lane s x 2 ^^^ lane s x 3 ^^^ lane s x 4

def theta (s : Lanes) : Lanes :=
  let columns := Vector.ofFn (n := 5) fun x => column s x.val
  let parity (x : Nat) : UInt64 := columns.get ⟨x % 5, by omega⟩
  ofLanes fun x y => lane s x y ^^^ parity (x + 4) ^^^ rotate (parity (x + 1)) 1

def rotations : Vector UInt64 25 :=
  #v[0, 1, 62, 28, 27,
     36, 44, 6, 55, 20,
     3, 10, 43, 25, 39,
     41, 45, 15, 21, 8,
     18, 2, 61, 56, 14]

/-- Rotates each lane and moves lane `(x, y)` to `(y, 2 * x + 3 * y)`. -/
def rhoPi (s : Lanes) : Lanes :=
  ofLanes fun x y => rotate (lane s (x + 3 * y) x) (lane rotations (x + 3 * y) x)

def chi (s : Lanes) : Lanes :=
  ofLanes fun x y => lane s x y ^^^ (~~~lane s (x + 1) y &&& lane s (x + 2) y)

def iota (constant : UInt64) (s : Lanes) : Lanes := s.set 0 (s[0] ^^^ constant)

def roundConstants : List UInt64 :=
  [0x0000000000000001, 0x0000000000008082, 0x800000000000808A, 0x8000000080008000,
   0x000000000000808B, 0x0000000080000001, 0x8000000080008081, 0x8000000000008009,
   0x000000000000008A, 0x0000000000000088, 0x0000000080008009, 0x000000008000000A,
   0x000000008000808B, 0x800000000000008B, 0x8000000000008089, 0x8000000000008003,
   0x8000000000008002, 0x8000000000000080, 0x000000000000800A, 0x800000008000000A,
   0x8000000080008081, 0x8000000000008080, 0x0000000080000001, 0x8000000080008008]

def round (s : Lanes) (constant : UInt64) : Lanes := iota constant (chi (rhoPi (theta s)))

def permute (s : Lanes) : Lanes := roundConstants.foldl round s

end FirmwareUpdate.Keccak
