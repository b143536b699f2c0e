/-! Cutting a length into consecutive spans, each as long as the chunk size but the last. -/
namespace FirmwareUpdate

/-- A stretch of bytes, by its first one and its length. -/
structure Span where
  start : Nat
  length : Nat
  deriving DecidableEq, Repr

/-- The smallest number of chunks that reaches `total`. -/
def chunkCount (chunk total : Nat) : Nat := (total + chunk - 1) / chunk

def spans (chunk total : Nat) : List Span :=
  (List.range (chunkCount chunk total)).map fun i =>
    { start := i * chunk, length := min chunk (total - i * chunk) }

end FirmwareUpdate
