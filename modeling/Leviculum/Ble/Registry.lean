import Leviculum.Lib.Bytes
import Mathlib.Data.List.FinRange
import Mathlib.Logic.Function.Basic

/-! The peers a board is linked to over BLE, one slot for each connection, and the rule that decides between two
connections of one identity: the peer's own arbitration, computed from its perspective. -/

namespace Leviculum.Ble

abbrev Identity := FixedBytes 16

/-- Byte by byte, as arrays compare. -/
def Below (one other : Identity) : Prop := one.val < other.val

instance (one other : Identity) : Decidable (Below one other) := inferInstanceAs (Decidable (one.val < other.val))

theorem below_of_not {one other : Identity} (apart : one ≠ other) (notBelow : ¬ Below other one) : Below one other := by
  by_contra neither
  exact apart (Subtype.ext (List.le_antisymm (List.not_lt.mp notBelow) (List.not_lt.mp neither)))

/-- Who opened a connection. -/
inductive Origin where
  | incoming
  | outgoing
  deriving DecidableEq

/-- The role a node keeps of a duplicate pair: the connection it dialled, or the one its peer dialled. -/
inductive BleRole where
  | central
  | peripheral
  deriving DecidableEq

def minUsableMtu : Nat := 20

def maxAttributeValueLength : Nat := 512

def usableMtu (attMtu : Nat) : Nat :=
  let usable := attMtu - 3
  if usable < minUsableMtu then minUsableMtu
  else if usable > maxAttributeValueLength then maxAttributeValueLength
  else usable

theorem minUsableMtu_le (attMtu : Nat) : minUsableMtu ≤ usableMtu attMtu := by
  unfold usableMtu minUsableMtu maxAttributeValueLength
  dsimp only
  split_ifs <;> omega

def keepaliveIntervalMs : Nat := 15000

def linkAbandonedMs : Nat := 2 * keepaliveIntervalMs

/-- The larger usable MTU wins, identity order breaks the tie. -/
def preferredBleRole (centralMtu peripheralMtu : Nat) (localIdentity peerIdentity : Identity) : BleRole :=
  if centralMtu > peripheralMtu then .central
  else if peripheralMtu > centralMtu then .peripheral
  else if Below localIdentity peerIdentity then .central
  else .peripheral

inductive DupRule where
  | abandoned
  | columbaMtu
  | columbaIdentity
  | sameRole
  | waitingMtu
  deriving DecidableEq

inductive DupVerdict where
  | keepNew (rule : DupRule)
  | keepOld (rule : DupRule)
  | wait
  deriving DecidableEq

def judgeDuplicate (oldSilenceMs : Nat) (oldOrigin newOrigin : Origin) (oldUsableMtu : Option Nat) (newUsableMtu : Nat)
    (localIdentity peerIdentity : Identity) : DupVerdict :=
  if oldSilenceMs ≥ linkAbandonedMs then .keepNew .abandoned
  else if oldOrigin = newOrigin then
    match newOrigin with
    | .incoming => .keepNew .sameRole
    | .outgoing => .keepOld .sameRole
  else
    match oldUsableMtu with
    | none => .wait
    | some oldUsableMtu =>
      -- the peer's central connection is the one we did not dial
      let peerCentralMtu := match newOrigin with | .outgoing => oldUsableMtu | .incoming => newUsableMtu
      let peerPeripheralMtu := match newOrigin with | .outgoing => newUsableMtu | .incoming => oldUsableMtu
      let keeps := preferredBleRole peerCentralMtu peerPeripheralMtu peerIdentity localIdentity
      let keepsNew := match keeps, newOrigin with
        | .central, .incoming | .peripheral, .outgoing => true
        | .central, .outgoing | .peripheral, .incoming => false
      let rule := if peerCentralMtu ≠ peerPeripheralMtu then .columbaMtu else .columbaIdentity
      if keepsNew then .keepNew rule else .keepOld rule

def DupVerdict.rule : DupVerdict → DupRule
  | .keepNew rule | .keepOld rule => rule
  | .wait => .waitingMtu

def DupVerdict.isKeepNew : DupVerdict → Bool
  | .keepNew _ => true
  | .keepOld _ | .wait => false

theorem preferredBleRole_eq_central {centralMtu peripheralMtu : Nat} {localIdentity peerIdentity : Identity} :
    preferredBleRole centralMtu peripheralMtu localIdentity peerIdentity = .central ↔
      peripheralMtu < centralMtu ∨ centralMtu = peripheralMtu ∧ Below localIdentity peerIdentity := by
  unfold preferredBleRole
  split_ifs with more less below
  · simp [more]
  · simp only [false_iff]
    omega
  · have level : centralMtu = peripheralMtu := by omega
    simp [level, below]
  · simp only [false_iff, below, and_false, or_false]
    omega

section Judge

variable {oldSilenceMs oldUsableMtu newUsableMtu : Nat} {localIdentity peerIdentity : Identity}

theorem judgeDuplicate_outgoing (alive : oldSilenceMs < linkAbandonedMs) :
    (judgeDuplicate oldSilenceMs .incoming .outgoing (some oldUsableMtu) newUsableMtu localIdentity
        peerIdentity).isKeepNew = true ↔
      preferredBleRole oldUsableMtu newUsableMtu peerIdentity localIdentity ≠ .central := by
  unfold judgeDuplicate
  rw [if_neg (Nat.not_le.mpr alive), if_neg (by decide)]
  dsimp only
  cases preferredBleRole oldUsableMtu newUsableMtu peerIdentity localIdentity with
  | central => simp [DupVerdict.isKeepNew]
  | peripheral => simp [DupVerdict.isKeepNew]

theorem judgeDuplicate_incoming (alive : oldSilenceMs < linkAbandonedMs) :
    (judgeDuplicate oldSilenceMs .outgoing .incoming (some oldUsableMtu) newUsableMtu localIdentity
        peerIdentity).isKeepNew = true ↔
      preferredBleRole newUsableMtu oldUsableMtu peerIdentity localIdentity = .central := by
  unfold judgeDuplicate
  rw [if_neg (Nat.not_le.mpr alive), if_neg (by decide)]
  dsimp only
  cases preferredBleRole newUsableMtu oldUsableMtu peerIdentity localIdentity with
  | central => simp [DupVerdict.isKeepNew]
  | peripheral => simp [DupVerdict.isKeepNew]

end Judge

/-- What the duplicate lines report of a decision. -/
structure Decision where
  rule : DupRule
  oldSilenceMs : Nat
  oldDataSilenceMs : Option Nat
  oldUsableMtu : Nat
  newUsableMtu : Nat
  deriving DecidableEq

inductive LinkUp (n : Nat) where
  | accepted (first : Bool)
  /-- Registered; the old link must be torn down now. -/
  | displaced (oldSlot : Fin n) (decision : Decision)
  /-- Not registered; this connection is dropped. -/
  | refused (oldSlot : Fin n) (decision : Decision)
  deriving DecidableEq

structure PeerRegistry (n : Nat) where
  localIdentity : Identity
  slots : Fin n → Option Identity
  addrs : Fin n → Option Nat
  connSinceMs : Fin n → Nat
  lastHeardMs : Fin n → Nat
  lastDataMs : Fin n → Option Nat
  attMtus : Fin n → Nat
  origins : Fin n → Origin

namespace PeerRegistry

variable {n : Nat}

def new : PeerRegistry n where
  localIdentity := FixedBytes.replicate 16 0
  slots := fun _ => none
  addrs := fun _ => none
  connSinceMs := fun _ => 0
  lastHeardMs := fun _ => 0
  lastDataMs := fun _ => none
  attMtus := fun _ => 0
  origins := fun _ => .incoming

def setLocalIdentity (r : PeerRegistry n) (identity : Identity) : PeerRegistry n := { r with localIdentity := identity }

def connUp (r : PeerRegistry n) (slot : Fin n) (addr nowMs : Nat) : PeerRegistry n :=
  { r with
    addrs := Function.update r.addrs slot (some addr)
    connSinceMs := Function.update r.connSinceMs slot nowMs }

def connDown (r : PeerRegistry n) (slot : Fin n) : PeerRegistry n := { r with addrs := Function.update r.addrs slot none }

def slotFor (r : PeerRegistry n) (peer : Identity) : Option (Fin n) :=
  (List.finRange n).find? (fun slot => r.slots slot = some peer)

def isLinked (r : PeerRegistry n) (peer : Identity) : Bool := (r.slotFor peer).isSome

def register (r : PeerRegistry n) (slot : Fin n) (peer : Identity) (origin : Origin) (attMtu nowMs : Nat) :
    PeerRegistry n :=
  { r with
    slots := Function.update r.slots slot (some peer)
    lastHeardMs := Function.update r.lastHeardMs slot nowMs
    lastDataMs := Function.update r.lastDataMs slot none
    attMtus := Function.update r.attMtus slot attMtu
    origins := Function.update r.origins slot origin }

/-- The peer's ledger reads a fresh connection of ours at the floor. -/
def newUsableMtu (origin : Origin) (attMtu : Nat) : Nat :=
  match origin with
  | .outgoing => minUsableMtu
  | .incoming => usableMtu attMtu

def verdict (r : PeerRegistry n) (oldSlot : Fin n) (peer : Identity) (origin : Origin) (attMtu nowMs : Nat) : DupVerdict :=
  judgeDuplicate (nowMs - r.lastHeardMs oldSlot) (r.origins oldSlot) origin (some (usableMtu (r.attMtus oldSlot)))
    (newUsableMtu origin attMtu) r.localIdentity peer

def linkUp (r : PeerRegistry n) (slot : Fin n) (peer : Identity) (origin : Origin) (attMtu nowMs : Nat) :
    PeerRegistry n × LinkUp n :=
  match (r.slotFor peer).filter (· ≠ slot) with
  | some oldSlot =>
    let verdict := r.verdict oldSlot peer origin attMtu nowMs
    let decision : Decision :=
      { rule := verdict.rule
        oldSilenceMs := nowMs - r.lastHeardMs oldSlot
        oldDataSilenceMs := (r.lastDataMs oldSlot).map (nowMs - ·)
        oldUsableMtu := usableMtu (r.attMtus oldSlot)
        newUsableMtu := newUsableMtu origin attMtu }
    if verdict.isKeepNew then (r.register slot peer origin attMtu nowMs, .displaced oldSlot decision)
    else (r, .refused oldSlot decision)
  | none => (r.register slot peer origin attMtu nowMs, .accepted (!r.isLinked peer))

def noteHeard (r : PeerRegistry n) (slot : Fin n) (nowMs : Nat) : PeerRegistry n :=
  { r with lastHeardMs := Function.update r.lastHeardMs slot nowMs }

def noteData (r : PeerRegistry n) (slot : Fin n) (nowMs : Nat) : PeerRegistry n :=
  { r with
    lastHeardMs := Function.update r.lastHeardMs slot nowMs
    lastDataMs := Function.update r.lastDataMs slot (some nowMs) }

def linkDown (r : PeerRegistry n) (slot : Fin n) : PeerRegistry n × Option (Identity × Origin) :=
  match r.slots slot with
  | none => (r, none)
  | some identity =>
    let after : PeerRegistry n :=
      { r with
        slots := Function.update r.slots slot none
        lastDataMs := Function.update r.lastDataMs slot none
        attMtus := Function.update r.attMtus slot 0 }
    (after, if after.isLinked identity then none else some (identity, r.origins slot))

/-! ### What the calls do to the slots of one peer -/

variable {r : PeerRegistry n} {slot : Fin n} {peer : Identity} {origin : Origin} {attMtu nowMs : Nat}

theorem slotFor_eq_none : r.slotFor peer = none ↔ ∀ slot, r.slots slot ≠ some peer := by
  unfold slotFor
  simp

theorem slots_slotFor {slot : Fin n} (found : r.slotFor peer = some slot) : r.slots slot = some peer := by
  unfold slotFor at found
  simpa using List.find?_some found

theorem slotFor_of_only (held : r.slots slot = some peer) (only : ∀ other, r.slots other = some peer → other = slot) :
    r.slotFor peer = some slot := by
  cases found : r.slotFor peer with
  | none => exact absurd held (slotFor_eq_none.mp found slot)
  | some other => rw [only other (slots_slotFor found)]

theorem linkUp_fst (r : PeerRegistry n) (slot : Fin n) (peer : Identity) (origin : Origin) (attMtu nowMs : Nat) :
    (r.linkUp slot peer origin attMtu nowMs).1 = r ∨
      (r.linkUp slot peer origin attMtu nowMs).1 = r.register slot peer origin attMtu nowMs := by
  unfold linkUp
  split
  · dsimp only
    split_ifs
    · exact .inr rfl
    · exact .inl rfl
  · exact .inr rfl

theorem linkUp_alone (alone : ∀ other, r.slots other = some peer → other = slot) (origin : Origin) (attMtu nowMs : Nat) :
    (r.linkUp slot peer origin attMtu nowMs).1 = r.register slot peer origin attMtu nowMs ∧
      ∃ first, (r.linkUp slot peer origin attMtu nowMs).2 = .accepted first := by
  have none_ : (r.slotFor peer).filter (· ≠ slot) = none := by
    cases found : r.slotFor peer with
    | none => rfl
    | some other => simp [alone other (slots_slotFor found)]
  unfold linkUp
  rw [none_]
  exact ⟨rfl, _, rfl⟩

theorem linkUp_second {old : Fin n} (held : r.slots old = some peer)
    (only : ∀ other, r.slots other = some peer → other = old) (apart : old ≠ slot) (origin : Origin) (attMtu nowMs : Nat) :
    ∃ decision, r.linkUp slot peer origin attMtu nowMs =
      if (r.verdict old peer origin attMtu nowMs).isKeepNew then
        (r.register slot peer origin attMtu nowMs, .displaced old decision)
      else (r, .refused old decision) := by
  have found : (r.slotFor peer).filter (· ≠ slot) = some old := by
    rw [slotFor_of_only held only]
    simp [apart]
  unfold linkUp
  rw [found]
  exact ⟨_, rfl⟩

theorem verdict_outgoing {old : Fin n} (alive : nowMs - r.lastHeardMs old < linkAbandonedMs)
    (incoming : r.origins old = .incoming) :
    (r.verdict old peer .outgoing attMtu nowMs).isKeepNew = true ↔
      usableMtu (r.attMtus old) = minUsableMtu ∧ ¬ Below peer r.localIdentity := by
  have floor := minUsableMtu_le (r.attMtus old)
  unfold verdict
  rw [incoming, judgeDuplicate_outgoing alive, ne_eq, preferredBleRole_eq_central]
  show ¬ (minUsableMtu < _ ∨ _) ↔ _
  constructor
  · intro neither
    have level : usableMtu (r.attMtus old) = minUsableMtu := by omega
    exact ⟨level, fun below => neither (.inr ⟨level, below⟩)⟩
  · rintro ⟨level, above⟩ (more | ⟨-, below⟩)
    · omega
    · exact above below

theorem verdict_incoming {old : Fin n} (alive : nowMs - r.lastHeardMs old < linkAbandonedMs)
    (outgoing : r.origins old = .outgoing) (peer : Identity) (attMtu : Nat) :
    (r.verdict old peer .incoming attMtu nowMs).isKeepNew = true ↔
      usableMtu (r.attMtus old) < usableMtu attMtu ∨
        usableMtu attMtu = usableMtu (r.attMtus old) ∧ Below peer r.localIdentity := by
  unfold verdict
  rw [outgoing, judgeDuplicate_incoming alive, preferredBleRole_eq_central]
  rfl

theorem verdict_abandoned {old : Fin n} (silent : linkAbandonedMs ≤ nowMs - r.lastHeardMs old) :
    (r.verdict old peer origin attMtu nowMs).isKeepNew = true := by
  unfold verdict judgeDuplicate
  rw [if_pos silent]
  rfl

end PeerRegistry

end Leviculum.Ble
