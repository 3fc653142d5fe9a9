import Leviculum.Propagation.SyncCursor

/-! When a peer catches up. A message that the peer neither refuses for good nor takes in a sync of its
own is stepped over by no round. -/

namespace Leviculum.Propagation

/-- A message some round steps past: skipped for good, or within the peer's sync limit by itself. -/
def Peer.passes (peer : Peer) (entry : StoredMessage) : Prop :=
  peer.skips entry = true ∨ offerBaseSize + entry.transferSize < peer.syncLimitBytes

structure SyncRound where
  offerBudget : Nat
  response : OfferResponse
  fits : Nat → Nat → Nat → Bool

/-- A budget for one id, an answer that is no error, and room for one body the peer takes. -/
structure SyncRound.WellFormed (peer : Peer) (round : SyncRound) : Prop where
  probe : offerProbeBudget ≤ round.offerBudget
  answered : ∀ error, round.response ≠ .error error
  single : ∀ length payload, payload + offerPerMessageOverhead ≤ peer.transferLimitBytes →
    round.fits 1 length payload = true

section Round

variable {peer : Peer} {directory : Directory} {round : SyncRound}

end Round

def Peer.behind (peer : Peer) (entries : List StoredMessage) : Nat := (entries.filter peer.above).length

section Rounds

variable {peer : Peer} {directory : Directory}

end Rounds

end Leviculum.Propagation
