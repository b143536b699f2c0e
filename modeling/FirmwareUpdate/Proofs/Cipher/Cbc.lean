import FirmwareUpdate.Cipher.Cbc
import FirmwareUpdate.Proofs.Action
import FirmwareUpdate.Proofs.Bytes.Pieces
import FirmwareUpdate.Proofs.Cipher.Aes

/-! A coded string is decrypted the same whether it is handed over at once or in parts, and what has been
encrypted comes back. -/
namespace FirmwareUpdate.Cbc

open Aes

namespace Stream

/-- With a vector of the right length, it is the key that is refused. -/
theorem start_error {key iv : Bytes} {refusal : CipherError} (hiv : iv.length = ivLength)
    (h : start key iv = .error refusal) : refusal = .invalidKey := by
  simp only [start] at h
  rw [if_pos hiv] at h
  split at h
  · cases h
  · exact (Except.error.inj h).symm

/-- The plain form of data that is handed over at once. -/
def decryptWhole (s : Stream) (data : Bytes) : Bytes :=
  (feed decryptBlock s (blocksOf data)).1.flatMap Block.toBytes

/-- The stream once the data has been decrypted. -/
def after (s : Stream) (data : Bytes) : Stream := (feed decryptBlock s (blocksOf data)).2

private theorem feed_append (step : Stream → Block → Block × Stream) (s : Stream) (front back : List Block) :
    feed step s (front ++ back) =
      ((feed step s front).1 ++ (feed step (feed step s front).2 back).1,
        (feed step (feed step s front).2 back).2) := by
  induction front generalizing s with
  | nil => rfl
  | cons block rest ih =>
    simp only [List.cons_append, feed]
    rw [ih]

private theorem blocksOf_append {front back : Bytes} (h : front.length % blockLength = 0) :
    blocksOf (front ++ back) = blocksOf front ++ blocksOf back := by
  rw [blocksOf, Bytes.wholePieces_append (by decide) h, List.map_append]
  rfl

/-- What a step makes of data that are handed over at once, and the stream after them. -/
def through (step : Stream → Block → Block × Stream) (s : Stream) (data : Bytes) : Bytes × Stream :=
  ((feed step s (blocksOf data)).1.flatMap Block.toBytes, (feed step s (blocksOf data)).2)

/-- Data may be parted wherever a block ends. -/
theorem through_append {step : Stream → Block → Block × Stream} {s : Stream} {front back : Bytes}
    (h : front.length % blockLength = 0) :
    through step s (front ++ back) =
      ((through step s front).1 ++ (through step (through step s front).2 back).1,
        (through step (through step s front).2 back).2) := by
  simp only [through]
  rw [blocksOf_append h, feed_append, List.flatMap_append]

/-- Whole blocks in front are decrypted apart from what follows, which goes on with the stream they leave. -/
theorem decryptWhole_append {s : Stream} {front back : Bytes} (h : front.length % blockLength = 0) :
    s.decryptWhole (front ++ back) = s.decryptWhole front ++ (s.after front).decryptWhole back :=
  congrArg Prod.fst (through_append h)

private theorem length_feed (step : Stream → Block → Block × Stream) (s : Stream) (blocks : List Block) :
    (feed step s blocks).1.length = blocks.length := by
  induction blocks generalizing s with
  | nil => rfl
  | cons block rest ih => exact congrArg (· + 1) (ih _)

private theorem length_pieces (size count : Nat) (data : Bytes) : (Bytes.pieces size count data).length = count := by
  induction count generalizing data with
  | zero => rfl
  | succ count ih => exact congrArg (· + 1) (ih _)

private theorem length_flatMap_toBytes (blocks : List Block) :
    (blocks.flatMap Block.toBytes).length = blocks.length * blockLength := by
  induction blocks with
  | nil => rfl
  | cons block rest ih =>
    rw [List.flatMap_cons, List.length_append, ih, Block.length_toBytes, List.length_cons, Nat.succ_mul,
      Nat.add_comm]
    rfl

/-- Whole blocks come out as long as they went in. -/
theorem length_through {step : Stream → Block → Block × Stream} {s : Stream} {data : Bytes}
    (h : data.length % blockLength = 0) : (through step s data).1.length = data.length := by
  rw [through, length_flatMap_toBytes, length_feed, blocksOf, List.length_map, Bytes.wholePieces, length_pieces]
  exact Nat.div_mul_cancel (Nat.dvd_of_mod_eq_zero h)

/-- Decrypting whole blocks makes nothing longer or shorter. -/
theorem length_decryptWhole {s : Stream} {data : Bytes} (h : data.length % blockLength = 0) :
    (s.decryptWhole data).length = data.length :=
  length_through h

/-! ### There and back -/

private theorem feed_decrypt_encrypt (s : Stream) (blocks : List Block) :
    feed decryptBlock s (feed encryptBlock s blocks).1 = (blocks, (feed encryptBlock s blocks).2) := by
  -- Both directions chain to the coded blocks, so that they go through the same streams.
  induction blocks generalizing s with
  | nil => rfl
  | cons block rest ih =>
    have hblock : (decryptBlock s (encryptBlock s block).1) = (block, (encryptBlock s block).2) := by
      simp only [decryptBlock, encryptBlock]
      rw [decryptBlock_encryptBlock, Block.xor_xor]
    simp only [feed]
    rw [hblock, ih]

private theorem blocksOf_toBytes (blocks : List Block) : blocksOf (blocks.flatMap Block.toBytes) = blocks := by
  induction blocks with
  | nil => rfl
  | cons block rest ih =>
    have hlength : block.toBytes.length = blockLength := Block.length_toBytes block
    rw [List.flatMap_cons, blocksOf_append (by rw [hlength, Nat.mod_self]), ih, blocksOf,
      Bytes.wholePieces_one (by decide) hlength, List.map_singleton, Block.ofBytes_toBytes, List.singleton_append]

private theorem toBytes_ofBytes : ∀ {data : Bytes}, data.length = blockLength → (Block.ofBytes data).toBytes = data
  | [_, _, _, _, _, _, _, _, _, _, _, _, _, _, _, _], _ => rfl

private theorem toBytes_pieces {count : Nat} {data : Bytes} (h : data.length = count * blockLength) :
    ((Bytes.pieces blockLength count data).map Block.ofBytes).flatMap Block.toBytes = data := by
  induction count generalizing data with
  | zero =>
    rw [Nat.zero_mul] at h
    rw [List.length_eq_zero_iff.mp h]
    rfl
  | succ count ih =>
    rw [Nat.succ_mul] at h
    rw [Bytes.pieces, List.map_cons, List.flatMap_cons, toBytes_ofBytes, ih, List.take_append_drop]
    · rw [List.length_drop]
      omega
    · rw [List.length_take]
      omega

private theorem toBytes_blocksOf {data : Bytes} (h : data.length % blockLength = 0) :
    (blocksOf data).flatMap Block.toBytes = data :=
  toBytes_pieces (Nat.div_mul_cancel (Nat.dvd_of_mod_eq_zero h)).symm

/-- Decrypting takes a stream where encrypting took it. -/
theorem through_decrypt_encrypt {s : Stream} {data : Bytes} (h : data.length % blockLength = 0) :
    through decryptBlock s (through encryptBlock s data).1 = (data, (through encryptBlock s data).2) := by
  simp only [through]
  rw [blocksOf_toBytes, feed_decrypt_encrypt, toBytes_blocksOf h]

/-- Whole blocks are encrypted, and decrypting gives them back. -/
theorem encryptWhole_ok {s : Stream} {data : Bytes} (h : data.length % blockLength = 0) :
    ∃ coded, s.encryptWhole data = .ok coded ∧ coded.length = data.length ∧ s.decryptWhole coded = data :=
  ⟨_, if_pos h, length_through h, congrArg Prod.fst (through_decrypt_encrypt h)⟩

/-- Whole blocks are all processed. -/
theorem process_of_whole {step : Stream → Block → Block × Stream} {s : Stream} {data : Bytes}
    (h : data.length % blockLength = 0) :
    process step data s = .ok (through step s data).1 (through step s data).2 := by
  simp only [process]
  rw [if_pos h]
  rfl

/-- Data that are not whole blocks are refused, and the stream stays as it is. -/
theorem process_of_odd {step : Stream → Block → Block × Stream} {s : Stream} {data : Bytes}
    (h : data.length % blockLength ≠ 0) : process step data s = .error (.error .invalidLength) s := by
  simp only [process]
  rw [if_neg h]
  rfl

end Stream

namespace Cipher
variable {done : Bytes → Cipher → Prop} {failed : CipherError → Cipher → Prop} {trapped : Prop}

/-- A cipher is loaded with any stream that can be started. -/
theorem load_of_start {key iv : Bytes} {s : Stream} {c : Cipher} (h : Stream.start key iv = .ok s) :
    load key iv c = .ok () (some s) := by
  simp only [load]
  rw [h]
  rfl

/-- A cipher keeps what it had if the new one cannot be started. -/
theorem load_of_refusal {key iv : Bytes} {refusal : CipherError} {c : Cipher}
    (h : Stream.start key iv = .error refusal) : load key iv c = .error (.error refusal) c := by
  simp only [load]
  rw [h]
  rfl

/-- A loaded cipher decrypts whole blocks and stays loaded. -/
theorem decrypt_of_whole {s : Stream} {data : Bytes} (h : data.length % blockLength = 0) :
    decrypt data (some s) = .ok (s.decryptWhole data) (some (s.after data)) := by
  have hstream : Stream.decrypt data s = .ok (s.decryptWhole data) (s.after data) := Stream.process_of_whole h
  simp only [decrypt]
  rw [if_pos h, Action.bind_apply]
  simp only [Action.get_apply, Action.focus]
  rw [hstream]

/-- Nothing is decrypted before a key has been loaded. -/
theorem decrypt_of_unloaded {data : Bytes} (h : data.length % blockLength = 0) :
    decrypt data none = .error (.error .notInitialized) none := by
  simp only [decrypt]
  rw [if_pos h]
  rfl

/-- Not even a loaded cipher decrypts a part of a block. -/
theorem decrypt_of_odd {c : Cipher} {data : Bytes} (h : data.length % blockLength ≠ 0) :
    decrypt data c = .error (.error .invalidLength) c := by
  simp only [decrypt]
  rw [if_neg h]
  rfl

/-- A loaded cipher decrypts whole blocks, and moves on behind them. -/
theorem decrypt_ends {s : Stream} {data : Bytes} (h : data.length % blockLength = 0) :
    (decrypt data).Ends (some s) done failed trapped ↔ done (s.decryptWhole data) (some (s.after data)) := by
  simp only [Action.Ends]
  rw [decrypt_of_whole h]

end Cipher
end FirmwareUpdate.Cbc
