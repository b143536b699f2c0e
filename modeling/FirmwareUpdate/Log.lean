import FirmwareUpdate.Text.Numeral

/-! The boot log: the newest entries of those recorded, each numbered when it was recorded and
with its text cut to a fixed capacity. -/
namespace FirmwareUpdate

/-- How much a message matters. -/
inductive Severity where
  | error
  | warn
  | info
  | debug
  | trace
  deriving DecidableEq, Repr

namespace Severity

/-- The higher the rank, the more detailed the level. -/
def rank : Severity → Nat
  | error => 0
  | warn => 1
  | info => 2
  | debug => 3
  | trace => 4

def letter : Severity → String
  | error => "E"
  | warn => "W"
  | info => "I"
  | debug => "D"
  | trace => "T"

end Severity

/-- A message as it is kept. -/
structure LogItem where
  level : Severity
  sequence : UInt32
  tag : String
  message : String
  deriving DecidableEq, Repr

/-- One line of text, the sequence number in at least four digits. -/
def LogItem.line (e : LogItem) : String :=
  "#" ++ Text.paddedDecimal 4 e.sequence.toNat ++ " " ++ e.level.letter ++ " [" ++ e.tag ++ "] " ++
    e.message

/-- The entries are held oldest first. -/
structure Log where
  entries : List LogItem := []
  next : UInt32 := 0
  threshold : Severity := .info
  deriving DecidableEq, Repr

namespace Log

/-- Bytes of text an entry can hold. -/
def messageCapacity : Nat := 96

/-- Entries the log can hold. -/
def capacity : Nat := 32

def isRecorded (log : Log) (level : Severity) : Bool := level.rank ≤ log.threshold.rank

/-- A piece of text stops at the first of its characters that does not fit. -/
def appendFitting (text : String) : List Char → String
  | [] => text
  | c :: rest =>
    if text.utf8ByteSize + c.utf8Size ≤ messageCapacity then appendFitting (text.push c) rest
    else text

/-- The pieces are written one after the other; a piece may still fit after another did not. -/
def compose (pieces : List String) : String :=
  pieces.foldl (fun text piece => appendFitting text piece.toList) ""

def push (log : Log) (entry : LogItem) : Log :=
  let kept := if log.entries.length < capacity then log.entries else log.entries.tail
  { log with entries := kept ++ [entry], next := log.next + 1 }

def record (log : Log) (level : Severity) (tag : String) (pieces : List String) : Log :=
  if log.isRecorded level then
    log.push { level, sequence := log.next, tag, message := compose pieces }
  else log

/-- Entries recorded since the log was made, modulo the word size. -/
def total (log : Log) : UInt32 := log.next

def clear (log : Log) : Log := { log with entries := [] }

/-- The needle stands somewhere in the text. -/
def occurs (needle : List Char) : List Char → Bool
  | [] => needle.isEmpty
  | c :: rest => needle.isPrefixOf (c :: rest) || occurs needle rest

def contains (log : Log) (tag needle : String) : Bool :=
  log.entries.any fun e => e.tag = tag && occurs needle.toList e.message.toList

end Log
end FirmwareUpdate
