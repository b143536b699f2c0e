import FirmwareUpdate.Cipher.Aes.Block

/-! The AES block cipher for keys of 16, 24 and 32 bytes. Decryption undoes the layers of each
round in the reverse order. -/
namespace FirmwareUpdate.Aes

/-- The round keys: one before the first round, one for each round but the last, one for it. -/
structure KeySchedule where
  first : Block
  middle : List Block
  last : Block
  deriving DecidableEq

/-- The constant of the `i`-th round key, from one on. -/
def roundConstant : Nat → UInt8
  | 0 => 0
  | 1 => 1
  | i + 1 => double (roundConstant i)

/-- The word that follows `previous`, the newest of `index` words, given the one `size` back. -/
def nextWord (size index : Nat) (previous back : Word) : Word :=
  let mask :=
    if index % size = 0 then
      (previous.rotate.map substitute).xor ⟨roundConstant (index / size), 0, 0, 0⟩
    else if 6 < size ∧ index % size = 4 then previous.map substitute
    else previous
  back.xor mask

/-- Adds `count` words to those of a key of `size` words, the newest first. -/
def expandWords (size : Nat) : (count : Nat) → List Word → List Word
  | 0, words => words
  | count + 1, words =>
    let next := nextWord size words.length (words.headD .zero) (words.getD (size - 1) .zero)
    expandWords size count (next :: words)

def blocksOfWords : List Word → List Block
  | w0 :: w1 :: w2 :: w3 :: rest => ⟨w0, w1, w2, w3⟩ :: blocksOfWords rest
  | _ => []

/-- A key of `size` words has `size + 7` round keys. -/
def KeySchedule.ofKey (key : Bytes) : KeySchedule :=
  let size := key.length / 4
  let words := (List.range size).map fun i => Word.ofBytes key (4 * i)
  let blocks := blocksOfWords (expandWords size (4 * (size + 7) - size) words.reverse).reverse
  { first := blocks.headD .zero
    middle := blocks.tail.dropLast
    last := blocks.getLastD .zero }

def encryptRound (s key : Block) : Block :=
  (((s.map (·.map substitute)).shiftRows).map Word.mix).xor key

def decryptRound (key s : Block) : Block :=
  (((s.xor key).map Word.unmix).unshiftRows).map (·.map unsubstitute)

def encryptBlock (keys : KeySchedule) (plain : Block) : Block :=
  let s := keys.middle.foldl encryptRound (plain.xor keys.first)
  ((s.map (·.map substitute)).shiftRows).xor keys.last

def decryptBlock (keys : KeySchedule) (coded : Block) : Block :=
  let s := ((coded.xor keys.last).unshiftRows).map (·.map unsubstitute)
  (keys.middle.foldr decryptRound s).xor keys.first

end FirmwareUpdate.Aes
