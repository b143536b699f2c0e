import FirmwareUpdate.Action
import FirmwareUpdate.Cipher.Aes
import FirmwareUpdate.Cipher.Error

/-! AES in cipher block chaining. A stream may be handed over in any whole number of blocks at a
time: the last coded block is carried from one call to the next. -/
namespace FirmwareUpdate.Cbc

open Aes

/-- Bytes in an initialization vector. -/
def ivLength : Nat := 16

/-- The round keys and the coded block that the next block is chained to. -/
structure Stream where
  keys : KeySchedule
  chain : Block
  deriving DecidableEq

namespace Stream

/-- Refuses a key that is not 16, 24 or 32 bytes long, then an initialization vector that is not
one block. -/
def start (key iv : Bytes) : Except CipherError Stream :=
  if key.length ∈ [16, 24, 32] then
    if iv.length = ivLength then .ok { keys := .ofKey key, chain := .ofBytes iv }
    else .error .invalidIv
  else .error .invalidKey

def encryptBlock (s : Stream) (plain : Block) : Block × Stream :=
  let coded := Aes.encryptBlock s.keys (plain.xor s.chain)
  (coded, { s with chain := coded })

def decryptBlock (s : Stream) (coded : Block) : Block × Stream :=
  ((Aes.decryptBlock s.keys coded).xor s.chain, { s with chain := coded })

/-- Feeds the blocks one after the other. -/
def feed (step : Stream → Block → Block × Stream) : Stream → List Block → List Block × Stream
  | s, [] => ([], s)
  | s, block :: rest =>
    let (out, s) := step s block
    let (outs, s) := feed step s rest
    (out :: outs, s)

def blocksOf (data : Bytes) : List Block := (Bytes.wholePieces blockLength data).map Block.ofBytes

/-- Data that is not a whole number of blocks is refused and the stream is left as it was. -/
def process (step : Stream → Block → Block × Stream) (data : Bytes) :
    Action Stream CipherError Bytes := do
  if data.length % blockLength = 0 then do
    let (outs, s) := feed step (← get) (blocksOf data)
    set s
    return outs.flatMap Block.toBytes
  else Action.fail .invalidLength

def encrypt (data : Bytes) : Action Stream CipherError Bytes := process encryptBlock data

def decrypt (data : Bytes) : Action Stream CipherError Bytes := process decryptBlock data

/-- The coded form of data that is handed over at once. -/
def encryptWhole (s : Stream) (data : Bytes) : Except CipherError Bytes :=
  if data.length % blockLength = 0 then
    .ok ((feed encryptBlock s (blocksOf data)).1.flatMap Block.toBytes)
  else .error .invalidLength

end Stream

/-- A decrypting cipher, which may hold no key. -/
abbrev Cipher := Option Stream

namespace Cipher

/-- A key or vector that is refused leaves the cipher as it was. -/
def load (key iv : Bytes) : Action Cipher CipherError Unit := do
  let s ← Action.ofExcept (Stream.start key iv)
  set (some s)

/-- Unaligned data is refused before a missing key. -/
def decrypt (data : Bytes) : Action Cipher CipherError Bytes := do
  if data.length % blockLength = 0 then do
    match ← get with
    | none => Action.fail .notInitialized
    | some s => Action.focus (fun _ => s) (fun _ t => some t) (Stream.decrypt data)
  else Action.fail .invalidLength

def unload : Action Cipher CipherError Unit := set (none : Cipher)

def isLoaded (c : Cipher) : Bool := c.isSome

end Cipher
end FirmwareUpdate.Cbc
