import Leviculum.Lib.Bytes

/-! What the propagation role and its stores say to each other about one message. -/

namespace Leviculum.Propagation

abbrev TransientId := FixedBytes 32

abbrev DestinationHash := FixedBytes 16

def destinationLength : Nat := 16

def stampSize : Nat := 32

/-- The smallest body a store accepts: a destination hash and a stamp. -/
def minBodyLen : Nat := destinationLength + stampSize

structure StoredMessage where
  transientId : TransientId
  destinationHash : DestinationHash
  size : Nat
  receivedAt : Nat
  stampValue : UInt8
  /-- Position in the store's append order. -/
  sequence : Nat
  deriving DecidableEq

inductive StorageError where
  | full
  | notFound
  | corrupt
  | io
  deriving DecidableEq

/-- Outcome of an explicit client confirmation. -/
inductive ConfirmedPurge where
  | absent
  | committed
  | queued
  deriving DecidableEq

end Leviculum.Propagation
