import Mathlib.Algebra.BigOperators.Group.List.Basic
import Leviculum.Lib.Bytes
import Leviculum.Lib.Execution

/-! What a transport node forwards for the links of other nodes, metered and capped: two token buckets for each
direction of a link, one for its bytes and one for its packets. -/

namespace Leviculum.Transport.ForwardMeter

abbrev Hash := FixedBytes 16

def u64Max : Nat := 2 ^ 64 - 1

structure ForwardRequest where
  linkId : Hash
  destinationHash : Hash
  fromInterface : Nat
  toInterface : Nat
  hops : UInt8
  remainingHops : UInt8

inductive ForwardDecision where
  | refuse
  | admitLink (maxBytesPerS maxPacketsPerS : Option UInt32)

structure DirectionCount where
  bytes : Nat
  packets : Nat
  droppedOverCap : Nat

/-- A token bucket holding up to one second of its rate. -/
structure Bucket where
  rate : UInt32
  tokens : Nat
  atMs : Nat

namespace Bucket

def new (rate : UInt32) (nowMs : Nat) : Bucket := ⟨rate, rate.toNat, nowMs⟩

/-- The tokens that came in since the bucket was last filled; the fraction of a token is dropped with the time. -/
def refill (b : Bucket) (nowMs : Nat) : Bucket :=
  let elapsed := nowMs - b.atMs
  let refill := min (elapsed * b.rate.toNat) u64Max / 1000
  if refill > 0 then { b with tokens := min (b.tokens + refill) b.rate.toNat, atMs := nowMs } else b

def take (b : Bucket) (n nowMs : Nat) : Bucket × Bool :=
  let b := b.refill nowMs
  if b.tokens ≥ n then ({ b with tokens := b.tokens - n }, true) else (b, false)

end Bucket

/-- A cap that is not set lets everything through. -/
def takeCap (cap : Option Bucket) (n nowMs : Nat) : Option Bucket × Bool :=
  match cap with
  | none => (none, true)
  | some b => (some (b.take n nowMs).1, (b.take n nowMs).2)

/-- The buckets of one direction of a link. -/
structure Lane where
  bytes : Option Bucket
  packets : Option Bucket

namespace Lane

def new (maxBytesPerS maxPacketsPerS : Option UInt32) (nowMs : Nat) : Lane :=
  ⟨maxBytesPerS.map (Bucket.new · nowMs), maxPacketsPerS.map (Bucket.new · nowMs)⟩

/-- The packet bucket is asked only when the byte bucket has been charged. -/
def take (lane : Lane) (bytes nowMs : Nat) : Lane × Bool :=
  let byBytes := takeCap lane.bytes bytes nowMs
  if byBytes.2 then
    let byPackets := takeCap lane.packets 1 nowMs
    (⟨byBytes.1, byPackets.1⟩, byPackets.2)
  else (⟨byBytes.1, lane.packets⟩, false)

end Lane

structure ForwardedLink where
  linkId : Hash
  destinationHash : Hash
  initiatorInterface : Nat
  destinationInterface : Nat
  /-- For each direction, `true` toward the destination. -/
  count : Bool → DirectionCount
  admittedAtMs : Nat
  lastForwardedMs : Nat
  decision : ForwardDecision

structure Meter where
  link : ForwardedLink
  lane : Bool → Lane

structure ForwardMeters where
  links : Hash → Option Meter
  refused : Nat

namespace ForwardMeters

/-- The host's hook has given its decision on the request; without a hook that is an admission without caps. -/
def admitLink (m : ForwardMeters) (request : ForwardRequest) (decision : ForwardDecision) (nowMs : Nat) :
    ForwardMeters × Bool :=
  match decision with
  | .refuse => ({ m with refused := min (m.refused + 1) u64Max }, false)
  | .admitLink maxBytesPerS maxPacketsPerS =>
    let meter : Meter :=
      { link :=
          { linkId := request.linkId
            destinationHash := request.destinationHash
            initiatorInterface := request.fromInterface
            destinationInterface := request.toInterface
            count := fun _ => ⟨0, 0, 0⟩
            admittedAtMs := nowMs
            lastForwardedMs := nowMs
            decision }
        lane := fun _ => Lane.new maxBytesPerS maxPacketsPerS nowMs }
    ({ m with links := Function.update m.links request.linkId (some meter) }, true)

def forward (m : ForwardMeters) (linkId : Hash) (towardDestination : Bool) (bytes nowMs : Nat) : ForwardMeters × Bool :=
  match m.links linkId with
  | none => (m, true)
  | some meter =>
    let count := meter.link.count towardDestination
    let taken := (meter.lane towardDestination).take bytes nowMs
    let meter := { meter with lane := Function.update meter.lane towardDestination taken.1 }
    let link :=
      if taken.2 then
        { meter.link with
          count := Function.update meter.link.count towardDestination
            { count with bytes := min (count.bytes + bytes) u64Max, packets := min (count.packets + 1) u64Max }
          lastForwardedMs := nowMs }
      else
        { meter.link with
          count := Function.update meter.link.count towardDestination
            { count with droppedOverCap := min (count.droppedOverCap + 1) u64Max } }
    ({ m with links := Function.update m.links linkId (some { meter with link }) }, taken.2)

end ForwardMeters

/-- What happens at the node: requests for any links, and packets on any of them. -/
inductive Event where
  | admitLink (request : ForwardRequest) (decision : ForwardDecision) (nowMs : Nat)
  | forward (linkId : Hash) (towardDestination : Bool) (bytes nowMs : Nat)

namespace Event

def nowMs : Event → Nat
  | .admitLink _ _ nowMs => nowMs
  | .forward _ _ _ nowMs => nowMs

/-- Whether the event puts the link on file, with new buckets. -/
def Admits (linkId : Hash) : Event → Prop
  | .admitLink request (.admitLink _ _) _ => request.linkId = linkId
  | _ => False

end Event

def ForwardMeters.step (m : ForwardMeters) : Event → ForwardMeters × Bool
  | .admitLink request decision nowMs => m.admitLink request decision nowMs
  | .forward linkId towardDestination bytes nowMs => m.forward linkId towardDestination bytes nowMs

structure Packet where
  bytes : Nat
  nowMs : Nat

def packetsOf (linkId : Hash) (towardDestination : Bool) : List Event → List Packet
  | [] => []
  | .forward other toward bytes nowMs :: events =>
    if other = linkId ∧ toward = towardDestination then
      ⟨bytes, nowMs⟩ :: packetsOf linkId towardDestination events
    else packetsOf linkId towardDestination events
  | .admitLink _ _ _ :: events => packetsOf linkId towardDestination events

/-- What the node answered to each of these packets, `true` for forwarded. -/
def answersOf (linkId : Hash) (towardDestination : Bool) : ForwardMeters → List Event → List (Packet × Bool)
  | _, [] => []
  | m, .forward other toward bytes nowMs :: events =>
    let stepped := m.forward other toward bytes nowMs
    if other = linkId ∧ toward = towardDestination then
      (⟨bytes, nowMs⟩, stepped.2) :: answersOf linkId towardDestination stepped.1 events
    else answersOf linkId towardDestination stepped.1 events
  | m, .admitLink request decision nowMs :: events =>
    answersOf linkId towardDestination (m.admitLink request decision nowMs).1 events

namespace Lane

def step (lane : Lane) (packet : Packet) : Option Lane := some (lane.take packet.bytes packet.nowMs).1

def answers : Lane → List Packet → List (Packet × Bool)
  | _, [] => []
  | lane, packet :: later =>
    let taken := lane.take packet.bytes packet.nowMs
    (packet, taken.2) :: answers taken.1 later

end Lane

section Simulation

variable {linkId : Hash} {towardDestination : Bool}

def ForwardMeters.lane? (m : ForwardMeters) (linkId : Hash) (towardDestination : Bool) : Option Lane :=
  (m.links linkId).map (·.lane towardDestination)

theorem lane?_forward {m : ForwardMeters} {lane : Lane} (held : m.lane? linkId towardDestination = some lane)
    (bytes nowMs : Nat) :
    (m.forward linkId towardDestination bytes nowMs).2 = (lane.take bytes nowMs).2 ∧
      (m.forward linkId towardDestination bytes nowMs).1.lane? linkId towardDestination =
        some (lane.take bytes nowMs).1 := by
  obtain ⟨meter, found, rfl⟩ := Option.map_eq_some_iff.mp held
  unfold ForwardMeters.forward ForwardMeters.lane?
  rw [found]
  refine ⟨rfl, ?_⟩
  simp only [Function.update_self, Option.map_some]

theorem lane?_forward_other {m : ForwardMeters} {lane : Lane} (held : m.lane? linkId towardDestination = some lane)
    {other : Hash} {toward : Bool} (apart : ¬ (other = linkId ∧ toward = towardDestination)) (bytes nowMs : Nat) :
    (m.forward other toward bytes nowMs).1.lane? linkId towardDestination = some lane := by
  obtain ⟨meter, found, rfl⟩ := Option.map_eq_some_iff.mp held
  unfold ForwardMeters.forward ForwardMeters.lane?
  by_cases same : other = linkId
  · subst same
    have otherWay : towardDestination ≠ toward := fun way => apart ⟨rfl, way.symm⟩
    rw [found]
    simp only [Function.update_self, Option.map_some, Function.update_of_ne otherWay]
  · cases m.links other with
    | none => exact held
    | some theirs =>
      dsimp only
      rw [Function.update_of_ne (Ne.symm same)]
      exact held

theorem lane?_admitLink_other {m : ForwardMeters} {lane : Lane} (held : m.lane? linkId towardDestination = some lane)
    {request : ForwardRequest} {decision : ForwardDecision} {nowMs : Nat}
    (apart : ¬ (Event.admitLink request decision nowMs).Admits linkId) :
    (m.admitLink request decision nowMs).1.lane? linkId towardDestination = some lane := by
  cases decision with
  | refuse => exact held
  | admitLink maxBytesPerS maxPacketsPerS =>
    unfold ForwardMeters.admitLink ForwardMeters.lane?
    dsimp only
    rw [Function.update_of_ne (Ne.symm apart)]
    exact held

theorem lane?_admitLink (m : ForwardMeters) (request : ForwardRequest) (maxBytesPerS maxPacketsPerS : Option UInt32)
    (nowMs : Nat) :
    (m.admitLink request (.admitLink maxBytesPerS maxPacketsPerS) nowMs).1.lane? request.linkId towardDestination =
      some (Lane.new maxBytesPerS maxPacketsPerS nowMs) := by
  unfold ForwardMeters.admitLink ForwardMeters.lane?
  simp only [Function.update_self, Option.map_some]

theorem answersOf_eq {m : ForwardMeters} {lane : Lane} (held : m.lane? linkId towardDestination = some lane)
    {events : List Event} (calm : ∀ event ∈ events, ¬ event.Admits linkId) :
    answersOf linkId towardDestination m events = lane.answers (packetsOf linkId towardDestination events) := by
  induction events generalizing m lane with
  | nil => rfl
  | cons event later ih =>
    have rest := fun event member => calm event (List.mem_cons_of_mem _ member)
    cases event with
    | admitLink request decision nowMs =>
      exact ih (lane?_admitLink_other held (calm _ List.mem_cons_self)) rest
    | forward other toward bytes nowMs =>
      unfold answersOf packetsOf
      dsimp only
      by_cases same : other = linkId ∧ toward = towardDestination
      · obtain ⟨rfl, rfl⟩ := same
        obtain ⟨answer, next⟩ := lane?_forward held bytes nowMs
        rw [if_pos ⟨rfl, rfl⟩, if_pos ⟨rfl, rfl⟩, answer, ih next rest]
        rfl
      · rw [if_neg same, if_neg same]
        exact ih (lane?_forward_other held same bytes nowMs) rest

theorem mem_packetsOf {events : List Event} {packet : Packet}
    (member : packet ∈ packetsOf linkId towardDestination events) : ∃ event ∈ events, event.nowMs = packet.nowMs := by
  induction events with
  | nil => cases member
  | cons event later ih =>
    have behind : packet ∈ packetsOf linkId towardDestination later →
        ∃ event' ∈ event :: later, event'.nowMs = packet.nowMs := by
      intro there
      obtain ⟨found, inside, same⟩ := ih there
      exact ⟨found, List.mem_cons_of_mem _ inside, same⟩
    cases event with
    | admitLink request decision nowMs => exact behind member
    | forward other toward bytes nowMs =>
      unfold packetsOf at member
      split at member
      · rcases List.mem_cons.mp member with rfl | there
        · exact ⟨_, List.mem_cons_self, rfl⟩
        · exact behind there
      · exact behind member

theorem pairwise_packetsOf {events : List Event} (ordered : (events.map Event.nowMs).Pairwise (· ≤ ·)) :
    (packetsOf linkId towardDestination events).Pairwise (fun one two => one.nowMs ≤ two.nowMs) := by
  induction events with
  | nil => exact .nil
  | cons event later ih =>
    rw [List.map_cons, List.pairwise_cons] at ordered
    have rest := ih ordered.2
    cases event with
    | admitLink request decision nowMs => exact rest
    | forward other toward bytes nowMs =>
      unfold packetsOf
      split
      · refine List.pairwise_cons.mpr ⟨?_, rest⟩
        intro packet member
        obtain ⟨found, inside, same⟩ := mem_packetsOf member
        exact same ▸ ordered.1 _ (List.mem_map.mpr ⟨found, inside, rfl⟩)
      · exact rest

end Simulation

namespace Bucket

def Fits (b : Bucket) : Prop := b.tokens ≤ b.rate.toNat

theorem fits_new (rate : UInt32) (nowMs : Nat) : (new rate nowMs).Fits := Nat.le_refl _

theorem refill_cases (b : Bucket) (nowMs : Nat) :
    (b.refill nowMs = b ∧ (nowMs - b.atMs) * b.rate.toNat < 1000) ∨
      ∃ tokens, b.refill nowMs = { b with tokens := min (b.tokens + tokens) b.rate.toNat, atMs := nowMs } ∧
        tokens = min ((nowMs - b.atMs) * b.rate.toNat) u64Max / 1000 ∧ 0 < tokens := by
  unfold refill
  dsimp only
  split
  next some => exact .inr ⟨_, rfl, rfl, some⟩
  next none =>
    refine .inl ⟨rfl, ?_⟩
    have large : 1000 ≤ u64Max := by decide
    have small : min ((nowMs - b.atMs) * b.rate.toNat) u64Max / 1000 = 0 := by omega
    rw [Nat.div_eq_zero_iff] at small
    omega

theorem rate_refill (b : Bucket) (nowMs : Nat) : (b.refill nowMs).rate = b.rate := by
  rcases refill_cases b nowMs with ⟨same, -⟩ | ⟨tokens, same, -⟩ <;> rw [same]

theorem fits_refill {b : Bucket} (fits : b.Fits) (nowMs : Nat) : (b.refill nowMs).Fits := by
  rcases refill_cases b nowMs with ⟨same, -⟩ | ⟨tokens, same, -⟩
  · rw [same]
    exact fits
  · rw [same]
    exact Nat.min_le_right _ _

theorem refill_settled (b : Bucket) (nowMs : Nat) :
    (nowMs - (b.refill nowMs).atMs) * (b.refill nowMs).rate.toNat < 1000 := by
  rcases refill_cases b nowMs with ⟨same, less⟩ | ⟨tokens, same, -⟩
  · rw [same]
    exact less
  · rw [same]
    simp

theorem atMs_refill_le {b : Bucket} {nowMs : Nat} (past : b.atMs ≤ nowMs) : (b.refill nowMs).atMs ≤ nowMs := by
  rcases refill_cases b nowMs with ⟨same, -⟩ | ⟨tokens, same, -⟩
  · rw [same]
    exact past
  · exact Nat.le_of_eq (by rw [same])

theorem take_cases (b : Bucket) (n nowMs : Nat) :
    (n ≤ (b.refill nowMs).tokens ∧
      b.take n nowMs = ({ b.refill nowMs with tokens := (b.refill nowMs).tokens - n }, true)) ∨
    ((b.refill nowMs).tokens < n ∧ b.take n nowMs = (b.refill nowMs, false)) := by
  unfold take
  dsimp only
  split
  next enough => exact .inl ⟨enough, rfl⟩
  next short => exact .inr ⟨Nat.lt_of_not_le short, rfl⟩

theorem rate_take (b : Bucket) (n nowMs : Nat) : (b.take n nowMs).1.rate = b.rate := by
  rcases take_cases b n nowMs with ⟨-, same⟩ | ⟨-, same⟩ <;> rw [same] <;> exact rate_refill b nowMs

theorem fits_take {b : Bucket} (fits : b.Fits) (n nowMs : Nat) : (b.take n nowMs).1.Fits := by
  have filled := fits_refill fits nowMs
  rcases take_cases b n nowMs with ⟨-, same⟩ | ⟨-, same⟩
  · rw [same]
    exact Nat.le_trans (Nat.sub_le _ _) filled
  · rw [same]
    exact filled

theorem atMs_take_le {b : Bucket} {nowMs : Nat} (past : b.atMs ≤ nowMs) (n : Nat) :
    (b.take n nowMs).1.atMs ≤ nowMs := by
  have filled := atMs_refill_le past
  rcases take_cases b n nowMs with ⟨-, same⟩ | ⟨-, same⟩ <;> rw [same] <;> exact filled

/-- What can still be let through until `finish`, in thousandths of a token. -/
def potential (b : Bucket) (finish : Nat) : Nat := 1000 * b.tokens + (finish - b.atMs) * b.rate.toNat

theorem potential_refill_le {b : Bucket} {nowMs finish : Nat} (past : b.atMs ≤ nowMs) (inside : nowMs ≤ finish) :
    (b.refill nowMs).potential finish ≤ b.potential finish := by
  unfold potential
  rcases refill_cases b nowMs with ⟨same, -⟩ | ⟨tokens, same, amount, -⟩
  · exact Nat.le_of_eq (by rw [same])
  · rw [same]
    dsimp only
    have parts : finish - b.atMs = (finish - nowMs) + (nowMs - b.atMs) := by omega
    rw [parts, Nat.add_mul]
    have whole : tokens * 1000 ≤ (nowMs - b.atMs) * b.rate.toNat := by
      rw [amount]
      exact Nat.le_trans (Nat.div_mul_le_self _ _) (Nat.min_le_left _ _)
    omega

theorem spent_add_potential_take (b : Bucket) (n nowMs finish : Nat) :
    1000 * (if (b.take n nowMs).2 then n else 0) + (b.take n nowMs).1.potential finish ≤
      (b.refill nowMs).potential finish := by
  unfold potential
  rcases take_cases b n nowMs with ⟨enough, same⟩ | ⟨-, same⟩
  · rw [same]
    simp only [if_true]
    omega
  · rw [same]
    simp

end Bucket

/-- Answers that one bucket agrees to: each packet either was not put to it and not forwarded, or was forwarded only
if the bucket had its amount. -/
inductive Charged (amount : Packet → Nat) : Bucket → List (Packet × Bool) → Prop
  | done (b : Bucket) : Charged amount b []
  | skip {b : Bucket} {packet : Packet} {log : List (Packet × Bool)} (later : Charged amount b log) :
      Charged amount b ((packet, false) :: log)
  | ask {b : Bucket} {packet : Packet} {answer : Bool} {log : List (Packet × Bool)}
      (had : answer = true → (b.take (amount packet) packet.nowMs).2 = true)
      (later : Charged amount (b.take (amount packet) packet.nowMs).1 log) :
      Charged amount b ((packet, answer) :: log)

theorem charged_bytes {lane : Lane} {b : Bucket} (held : lane.bytes = some b) (packets : List Packet) :
    Charged Packet.bytes b (lane.answers packets) := by
  induction packets generalizing lane b with
  | nil => exact .done b
  | cons packet later ih =>
    have taken : (lane.take packet.bytes packet.nowMs).1.bytes = some (b.take packet.bytes packet.nowMs).1 ∧
        ((lane.take packet.bytes packet.nowMs).2 = true → (b.take packet.bytes packet.nowMs).2 = true) := by
      unfold Lane.take takeCap
      rw [held]
      dsimp only
      split
      next passed => exact ⟨rfl, fun _ => passed⟩
      next => exact ⟨rfl, fun impossible => by cases impossible⟩
    exact .ask taken.2 (ih taken.1)

theorem charged_packets {lane : Lane} {b : Bucket} (held : lane.packets = some b) (packets : List Packet) :
    Charged (fun _ => 1) b (lane.answers packets) := by
  induction packets generalizing lane b with
  | nil => exact .done b
  | cons packet later ih =>
    unfold Lane.answers Lane.take
    dsimp only
    split
    next passed =>
      refine .ask ?_ (ih ?_)
      · rw [held]
        exact fun answer => answer
      · rw [held]
        rfl
    next => exact .skip (ih held)

/-- The amounts let through from `start` to `finish`. -/
def letThrough (amount : Packet → Nat) (start finish : Nat) (log : List (Packet × Bool)) : Nat :=
  ((log.filter (fun entry => entry.2 ∧ start ≤ entry.1.nowMs ∧ entry.1.nowMs ≤ finish)).map
    (fun entry => amount entry.1)).sum

theorem letThrough_cons (amount : Packet → Nat) (start finish : Nat) (packet : Packet) (answer : Bool)
    (log : List (Packet × Bool)) :
    letThrough amount start finish ((packet, answer) :: log) =
      (if answer = true ∧ start ≤ packet.nowMs ∧ packet.nowMs ≤ finish then amount packet else 0) +
        letThrough amount start finish log := by
  unfold letThrough
  by_cases here : answer = true ∧ start ≤ packet.nowMs ∧ packet.nowMs ≤ finish
  · rw [List.filter_cons_of_pos (by simpa using here), List.map_cons, List.sum_cons, if_pos here]
  · rw [List.filter_cons_of_neg (by simpa using here), if_neg here, Nat.zero_add]

theorem letThrough_eq_zero {amount : Packet → Nat} {start finish : Nat} {log : List (Packet × Bool)}
    (later : ∀ entry ∈ log, finish < entry.1.nowMs) : letThrough amount start finish log = 0 := by
  unfold letThrough
  rw [List.filter_eq_nil_iff.mpr ?_]
  · rfl
  · intro entry member
    have after := later entry member
    simp only [decide_eq_true_eq]
    omega

section Interval

variable {amount : Packet → Nat} {b : Bucket} {log : List (Packet × Bool)} {start finish : Nat}

theorem counted_le_taken {packet : Packet} {answer : Bool}
    (had : answer = true → (b.take (amount packet) packet.nowMs).2 = true) (start finish : Nat) :
    (if answer = true ∧ start ≤ packet.nowMs ∧ packet.nowMs ≤ finish then amount packet else 0) ≤
      if (b.take (amount packet) packet.nowMs).2 then amount packet else 0 := by
  by_cases both : answer = true ∧ start ≤ packet.nowMs ∧ packet.nowMs ≤ finish
  · exact Nat.le_of_eq (by rw [if_pos both, if_pos (had both.1)])
  · rw [if_neg both]
    exact Nat.zero_le _

theorem letThrough_le_potential (charged : Charged amount b log)
    (ordered : log.Pairwise (fun one two => one.1.nowMs ≤ two.1.nowMs)) (past : ∀ entry ∈ log, b.atMs ≤ entry.1.nowMs) :
    1000 * letThrough amount start finish log ≤ b.potential finish := by
  induction charged with
  | done b => exact Nat.zero_le _
  | @skip b packet log later ih =>
    rw [letThrough_cons, if_neg (fun both => by cases both.1), Nat.zero_add]
    exact ih (List.pairwise_cons.mp ordered).2 (fun entry member => past entry (List.mem_cons_of_mem _ member))
  | @ask b packet answer log had later ih =>
    obtain ⟨after, ordered⟩ := List.pairwise_cons.mp ordered
    have reached : b.atMs ≤ packet.nowMs := past _ List.mem_cons_self
    by_cases inside : packet.nowMs ≤ finish
    · have rest := ih ordered (fun entry member => Nat.le_trans (Bucket.atMs_take_le reached _) (after entry member))
      have spent := b.spent_add_potential_take (amount packet) packet.nowMs finish
      have filled := Bucket.potential_refill_le reached inside
      rw [letThrough_cons]
      have counted := counted_le_taken had start finish
      omega
    · rw [letThrough_eq_zero]
      · exact Nat.zero_le _
      · intro entry member
        rcases List.mem_cons.mp member with rfl | behind
        · exact Nat.lt_of_not_le inside
        · exact Nat.lt_of_lt_of_le (Nat.lt_of_not_le inside) (after entry behind)

/-- In an interval, whatever came before it, at most one second of the rate, what comes in over the interval and
one token more. -/
theorem letThrough_le (charged : Charged amount b log) (fits : b.Fits)
    (ordered : log.Pairwise (fun one two => one.1.nowMs ≤ two.1.nowMs)) (past : ∀ entry ∈ log, b.atMs ≤ entry.1.nowMs)
    (length : Nat) :
    letThrough amount start (start + length) log ≤ b.rate.toNat + b.rate.toNat * length / 1000 + 1 := by
  induction charged with
  | done b => exact Nat.zero_le _
  | @skip b packet log later ih =>
    rw [letThrough_cons, if_neg (fun both => by cases both.1), Nat.zero_add]
    exact ih fits (List.pairwise_cons.mp ordered).2 (fun entry member => past entry (List.mem_cons_of_mem _ member))
  | @ask b packet answer log had later ih =>
    obtain ⟨after, sorted⟩ := List.pairwise_cons.mp ordered
    have reached : b.atMs ≤ packet.nowMs := past _ List.mem_cons_self
    have next := fun entry member => Nat.le_trans (Bucket.atMs_take_le reached (amount packet)) (after entry member)
    by_cases before : packet.nowMs < start
    · rw [letThrough_cons, if_neg (fun both => absurd both.2.1 (Nat.not_le.mpr before)), Nat.zero_add]
      have rest := ih (Bucket.fits_take fits _ _) sorted next
      rwa [Bucket.rate_take] at rest
    by_cases inside : packet.nowMs ≤ start + length
    · -- the first call of the interval finds a bucket that is at most full and owes less than a token
      have rest : 1000 * letThrough amount start (start + length) log ≤ _ := letThrough_le_potential later sorted next
      have spent := b.spent_add_potential_take (amount packet) packet.nowMs (start + length)
      have full := Bucket.fits_refill fits packet.nowMs
      have settled := b.refill_settled packet.nowMs
      have filled := Bucket.atMs_refill_le reached
      unfold Bucket.Fits at full
      rw [Bucket.rate_refill] at full settled
      have parts : start + length - (b.refill packet.nowMs).atMs =
          (start + length - packet.nowMs) + (packet.nowMs - (b.refill packet.nowMs).atMs) := by omega
      have whole : (b.refill packet.nowMs).potential (start + length) ≤
          1000 * b.rate.toNat + (b.rate.toNat * length + 999) := by
        unfold Bucket.potential
        rw [Bucket.rate_refill, parts, Nat.add_mul]
        have shorter : (start + length - packet.nowMs) * b.rate.toNat ≤ b.rate.toNat * length := by
          rw [Nat.mul_comm]
          exact Nat.mul_le_mul_left _ (by omega)
        omega
      have counted := counted_le_taken had start (start + length)
      rw [letThrough_cons]
      omega
    · rw [letThrough_eq_zero]
      · exact Nat.zero_le _
      · intro entry member
        rcases List.mem_cons.mp member with rfl | behind
        · exact Nat.lt_of_not_le inside
        · exact Nat.lt_of_lt_of_le (Nat.lt_of_not_le inside) (after entry behind)

end Interval

theorem fst_answers (lane : Lane) (packets : List Packet) : (lane.answers packets).map Prod.fst = packets := by
  induction packets generalizing lane with
  | nil => rfl
  | cons packet later ih => exact congrArg (packet :: ·) (ih _)

theorem letThrough_answers_le {lane : Lane} {amount : Packet → Nat} {rate : UInt32} {admittedAtMs : Nat}
    {packets : List Packet} (charged : Charged amount (Bucket.new rate admittedAtMs) (lane.answers packets))
    (ordered : packets.Pairwise (fun one two => one.nowMs ≤ two.nowMs))
    (later : ∀ packet ∈ packets, admittedAtMs ≤ packet.nowMs) (start length : Nat) :
    letThrough amount start (start + length) (lane.answers packets) ≤
      rate.toNat + rate.toNat * length / 1000 + 1 := by
  refine letThrough_le charged (Bucket.fits_new rate admittedAtMs) ?_ ?_ length
  · rw [← fst_answers lane packets, List.pairwise_map] at ordered
    exact ordered
  · intro entry member
    apply later
    rw [← fst_answers lane packets]
    exact List.mem_map.mpr ⟨entry, member, rfl⟩

/-- From its admission until it is admitted again, over any interval of `length` milliseconds and in either
direction, a link gets no more bytes and no more packets through than its caps allow. -/
theorem caps_hold_over_interval (m : ForwardMeters) (request : ForwardRequest)
    (maxBytesPerS maxPacketsPerS : Option UInt32) (admittedAtMs : Nat) (events : List Event)
    (calm : ∀ event ∈ events, ¬ event.Admits request.linkId)
    (ordered : (admittedAtMs :: events.map Event.nowMs).Pairwise (· ≤ ·)) (towardDestination : Bool)
    (start length : Nat) :
    let answered := answersOf request.linkId towardDestination
      (m.admitLink request (.admitLink maxBytesPerS maxPacketsPerS) admittedAtMs).1 events
    (∀ rate ∈ maxBytesPerS, letThrough Packet.bytes start (start + length) answered ≤
        rate.toNat + rate.toNat * length / 1000 + 1) ∧
      ∀ rate ∈ maxPacketsPerS, letThrough (fun _ => 1) start (start + length) answered ≤
        rate.toNat + rate.toNat * length / 1000 + 1 := by
  obtain ⟨first, sorted⟩ := List.pairwise_cons.mp ordered
  have packets : (packetsOf request.linkId towardDestination events).Pairwise (fun one two => one.nowMs ≤ two.nowMs) :=
    pairwise_packetsOf sorted
  have later : ∀ packet ∈ packetsOf request.linkId towardDestination events, admittedAtMs ≤ packet.nowMs := by
    intro packet member
    obtain ⟨event, inside, same⟩ := mem_packetsOf member
    exact same ▸ first _ (List.mem_map.mpr ⟨event, inside, rfl⟩)
  intro answered
  have own : answered = _ := answersOf_eq (lane?_admitLink m request maxBytesPerS maxPacketsPerS admittedAtMs) calm
  rw [own]
  refine ⟨?_, ?_⟩
  · rintro rate set
    exact letThrough_answers_le (charged_bytes (by rw [Lane.new, set, Option.map_some]) _) packets later start length
  · rintro rate set
    exact letThrough_answers_le (charged_packets (by rw [Lane.new, set, Option.map_some]) _) packets later start length

def sampleRequest : ForwardRequest :=
  ⟨FixedBytes.replicate 16 1, FixedBytes.replicate 16 9, 0, 1, 1, 1⟩

def noMeters : ForwardMeters := ⟨fun _ => none, 0⟩

/-- A burst, a packet that is dropped and one that the refill lets through. -/
def sampleEvents : List Event :=
  [.forward sampleRequest.linkId true 600 0, .forward sampleRequest.linkId true 550 100,
    .forward sampleRequest.linkId true 700 400]

theorem caps_hold_sample :
    let answered := answersOf sampleRequest.linkId true
      (noMeters.admitLink sampleRequest (.admitLink (some 1000) (some 10)) 0).1 sampleEvents
    letThrough Packet.bytes 0 (0 + 400) answered = 1300 ∧
      letThrough Packet.bytes 0 (0 + 400) answered ≤ 1000 + 1000 * 400 / 1000 + 1 := by
  intro answered
  refine ⟨by decide, ?_⟩
  exact (caps_hold_over_interval noMeters sampleRequest (some 1000) (some 10) 0 sampleEvents
    (by simp [sampleEvents, Event.Admits]) (by decide) true 0 400).1 1000 rfl

/-! Against an exact bucket, in thousandths of a token: it fills continuously up to one second of the rate and is
charged only for what was forwarded. -/

structure ExactBucket where
  rate : UInt32
  level : Nat
  atMs : Nat

namespace ExactBucket

def new (rate : UInt32) (nowMs : Nat) : ExactBucket := ⟨rate, 1000 * rate.toNat, nowMs⟩

def settle (x : ExactBucket) (nowMs : Nat) : ExactBucket :=
  { x with level := min (x.level + (nowMs - x.atMs) * x.rate.toNat) (1000 * x.rate.toNat), atMs := nowMs }

def admits (x : ExactBucket) (n nowMs : Nat) : Bool := 1000 * n ≤ (x.settle nowMs).level

def charge (x : ExactBucket) (n nowMs : Nat) (forwarded : Bool) : ExactBucket :=
  let x := x.settle nowMs
  if forwarded then { x with level := x.level - 1000 * n } else x

end ExactBucket

structure ExactLane where
  bytes : Option ExactBucket
  packets : Option ExactBucket

namespace ExactLane

def new (maxBytesPerS maxPacketsPerS : Option UInt32) (nowMs : Nat) : ExactLane :=
  ⟨maxBytesPerS.map (ExactBucket.new · nowMs), maxPacketsPerS.map (ExactBucket.new · nowMs)⟩

def admits (x : ExactLane) (packet : Packet) : Bool :=
  x.bytes.all (·.admits packet.bytes packet.nowMs) && x.packets.all (·.admits 1 packet.nowMs)

def charge (x : ExactLane) (packet : Packet) (forwarded : Bool) : ExactLane :=
  ⟨x.bytes.map (·.charge packet.bytes packet.nowMs forwarded), x.packets.map (·.charge 1 packet.nowMs forwarded)⟩

end ExactLane

def ForwardsConforming : ExactLane → List (Packet × Bool) → Prop
  | _, [] => True
  | x, (packet, forwarded) :: log =>
    (x.admits packet = true → forwarded = true) ∧ ForwardsConforming (x.charge packet forwarded) log

instance decidableForwardsConforming : ∀ x log, Decidable (ForwardsConforming x log)
  | _, [] => .isTrue trivial
  | x, (packet, forwarded) :: log =>
    have := decidableForwardsConforming (x.charge packet forwarded) log
    inferInstanceAs (Decidable (_ ∧ _))

namespace Bucket

/-- Refilling now loses no fraction of a token: less than one came in, or whole ones, or the bucket is full. -/
def RefillsExactly (b : Bucket) (nowMs : Nat) : Prop :=
  (nowMs - b.atMs) * b.rate.toNat < 1000 ∨ 1000 ∣ (nowMs - b.atMs) * b.rate.toNat ∨
    b.rate.toNat ≤ b.tokens + (nowMs - b.atMs) * b.rate.toNat / 1000

instance (b : Bucket) (nowMs : Nat) : Decidable (b.RefillsExactly nowMs) := inferInstanceAs (Decidable (_ ∨ _ ∨ _))

end Bucket

/-- The call loses nothing: the buckets it asks refill exactly, and no bytes are charged for a packet that the packet
bucket refuses. -/
def Lane.Lossless (lane : Lane) (packet : Packet) : Prop :=
  (∀ b ∈ lane.bytes, b.RefillsExactly packet.nowMs) ∧
    ((takeCap lane.bytes packet.bytes packet.nowMs).2 = true →
      (∀ b ∈ lane.packets, b.RefillsExactly packet.nowMs) ∧
        ((takeCap lane.packets 1 packet.nowMs).2 = true ∨ lane.bytes = none ∨ packet.bytes = 0))

/-- The bucket has at least what the exact one has at `clock`. -/
structure Covers (clock : Nat) (b : Bucket) (x : ExactBucket) : Prop where
  rate : x.rate = b.rate
  now : x.atMs = clock
  past : b.atMs ≤ clock
  fits : b.Fits
  level : x.level ≤ b.potential clock

section Exact

variable {clock nowMs n : Nat} {b : Bucket} {x : ExactBucket}

theorem covers_new (rate : UInt32) (nowMs : Nat) : Covers nowMs (.new rate nowMs) (.new rate nowMs) where
  rate := rfl
  now := rfl
  past := Nat.le_refl _
  fits := Bucket.fits_new rate nowMs
  level := Nat.le_add_right _ _

theorem Covers.settle (covers : Covers clock b x) (later : clock ≤ nowMs) : Covers nowMs b (x.settle nowMs) := by
  obtain ⟨rate, rfl, past, fits, level⟩ := covers
  refine ⟨rate, rfl, Nat.le_trans past later, fits, ?_⟩
  unfold Bucket.potential at level ⊢
  unfold ExactBucket.settle
  have parts : nowMs - b.atMs = (nowMs - x.atMs) + (x.atMs - b.atMs) := by omega
  rw [parts, Nat.add_mul]
  dsimp only
  rw [rate]
  omega

theorem Covers.refill (covers : Covers clock b x) (later : clock ≤ nowMs) (exactly : b.RefillsExactly nowMs) :
    Covers nowMs (b.refill nowMs) (x.settle nowMs) := by
  have settled := covers.settle later
  have full : (x.settle nowMs).level ≤ 1000 * b.rate.toNat := by
    rw [← covers.rate]
    exact Nat.min_le_right _ _
  refine ⟨settled.rate.trans (Bucket.rate_refill b nowMs).symm, rfl, Bucket.atMs_refill_le settled.past,
    Bucket.fits_refill covers.fits nowMs, ?_⟩
  rcases Bucket.refill_cases b nowMs with ⟨same, -⟩ | ⟨tokens, same, amount, some⟩
  · rw [same]
    exact settled.level
  · have level := settled.level
    rw [same]
    unfold Bucket.potential at level ⊢
    dsimp only
    -- a product too large for sixty-four bits fills any bucket
    have large : 1000 * b.rate.toNat < u64Max := by
      have small := b.rate.toNat_lt
      unfold u64Max
      omega
    rcases exactly with less | whole | enough
    · omega
    · obtain ⟨count, product⟩ := whole
      omega
    · omega

theorem take_of_admits (covers : Covers clock b x) (later : clock ≤ nowMs) (exactly : b.RefillsExactly nowMs)
    (admitted : x.admits n nowMs = true) : (b.take n nowMs).2 = true := by
  have level := (covers.refill later exactly).level
  have settled := b.refill_settled nowMs
  have enough : 1000 * n ≤ (x.settle nowMs).level := by simpa [ExactBucket.admits] using admitted
  rcases b.take_cases n nowMs with ⟨-, same⟩ | ⟨short, same⟩
  · rw [same]
  · unfold Bucket.potential at level
    omega

theorem covers_take (covers : Covers clock b x) (later : clock ≤ nowMs) (exactly : b.RefillsExactly nowMs)
    {forwarded : Bool} (charged : (b.take n nowMs).2 = true → forwarded = true ∨ n = 0) :
    Covers nowMs (b.take n nowMs).1 (x.charge n nowMs forwarded) := by
  obtain ⟨rate, now, past, fits, level⟩ := covers.refill later exactly
  have rate' : (x.charge n nowMs forwarded).rate = (b.take n nowMs).1.rate := by
    rw [Bucket.rate_take, ← covers.rate]
    unfold ExactBucket.charge
    split <;> rfl
  have now' : (x.charge n nowMs forwarded).atMs = nowMs := by
    unfold ExactBucket.charge
    split <;> rfl
  refine ⟨rate', now', Bucket.atMs_take_le (Nat.le_trans covers.past later) n, Bucket.fits_take covers.fits n nowMs, ?_⟩
  unfold ExactBucket.charge
  rcases b.take_cases n nowMs with ⟨enough, same⟩ | ⟨short, same⟩
  · rw [same] at charged ⊢
    unfold Bucket.potential at level ⊢
    rcases charged rfl with rfl | rfl
    · simp only [if_true]
      omega
    · split <;> simpa using level
  · rw [same]
    unfold Bucket.potential at level ⊢
    split <;> dsimp only <;> omega

end Exact

/-- The same for a cap that may not be set. -/
def CoversCap (clock : Nat) : Option Bucket → Option ExactBucket → Prop
  | none, none => True
  | some b, some x => Covers clock b x
  | _, _ => False

section ExactCap

variable {clock nowMs n : Nat} {cap : Option Bucket} {exact : Option ExactBucket}

theorem coversCap_new (rate : Option UInt32) (nowMs : Nat) :
    CoversCap nowMs (rate.map (Bucket.new · nowMs)) (rate.map (ExactBucket.new · nowMs)) := by
  cases rate with
  | none => trivial
  | some rate => exact covers_new rate nowMs

theorem coversCap_settle (covers : CoversCap clock cap exact) (later : clock ≤ nowMs) (n : Nat) :
    CoversCap nowMs cap (exact.map (·.charge n nowMs false)) := by
  cases cap <;> cases exact
  · trivial
  · exact covers
  · exact covers
  · exact Covers.settle covers later

theorem takeCap_of_admits (covers : CoversCap clock cap exact) (later : clock ≤ nowMs)
    (exactly : ∀ b ∈ cap, b.RefillsExactly nowMs) (admitted : exact.all (·.admits n nowMs) = true) :
    (takeCap cap n nowMs).2 = true := by
  cases cap <;> cases exact
  · rfl
  · rfl
  · exact covers.elim
  · exact take_of_admits covers later (exactly _ rfl) admitted

theorem coversCap_takeCap (covers : CoversCap clock cap exact) (later : clock ≤ nowMs)
    (exactly : ∀ b ∈ cap, b.RefillsExactly nowMs) {forwarded : Bool}
    (charged : (takeCap cap n nowMs).2 = true → forwarded = true ∨ cap = none ∨ n = 0) :
    CoversCap nowMs (takeCap cap n nowMs).1 (exact.map (·.charge n nowMs forwarded)) := by
  cases cap <;> cases exact
  · trivial
  · exact covers
  · exact covers
  · refine covers_take covers later (exactly _ rfl) ?_
    intro taken
    rcases charged taken with yes | none | zero
    · exact .inl yes
    · cases none
    · exact .inr zero

end ExactCap

theorem Lane.take_lossless {clock : Nat} {lane : Lane} {x : ExactLane} {packet : Packet}
    (bytes : CoversCap clock lane.bytes x.bytes) (packets : CoversCap clock lane.packets x.packets)
    (later : clock ≤ packet.nowMs) (lossless : lane.Lossless packet) :
    (x.admits packet = true → (lane.take packet.bytes packet.nowMs).2 = true) ∧
      CoversCap packet.nowMs (lane.take packet.bytes packet.nowMs).1.bytes
        (x.charge packet (lane.take packet.bytes packet.nowMs).2).bytes ∧
      CoversCap packet.nowMs (lane.take packet.bytes packet.nowMs).1.packets
        (x.charge packet (lane.take packet.bytes packet.nowMs).2).packets := by
  obtain ⟨byteRefill, rest⟩ := lossless
  unfold Lane.take
  dsimp only
  by_cases passed : (takeCap lane.bytes packet.bytes packet.nowMs).2 = true
  · obtain ⟨packetRefill, kept⟩ := rest passed
    rw [if_pos passed]
    refine ⟨?_, ?_, ?_⟩
    · intro admitted
      exact takeCap_of_admits packets later packetRefill (Bool.and_eq_true_iff.mp admitted).2
    · exact coversCap_takeCap bytes later byteRefill (fun _ => kept)
    · exact coversCap_takeCap packets later packetRefill (fun taken => .inl taken)
  · rw [if_neg passed]
    refine ⟨?_, ?_, ?_⟩
    · intro admitted
      exact absurd (takeCap_of_admits bytes later byteRefill (Bool.and_eq_true_iff.mp admitted).1) passed
    · exact coversCap_takeCap bytes later byteRefill (fun taken => absurd taken passed)
    · exact coversCap_settle packets later 1

theorem forwardsConforming_answers {clock : Nat} {lane : Lane} {x : ExactLane} {stream : List Packet}
    (bytes : CoversCap clock lane.bytes x.bytes) (packets : CoversCap clock lane.packets x.packets)
    (ordered : stream.Pairwise (fun one two => one.nowMs ≤ two.nowMs)) (later : ∀ packet ∈ stream, clock ≤ packet.nowMs)
    (lossless : Execution.Along Lane.step Lane.Lossless lane stream) :
    ForwardsConforming x (lane.answers stream) := by
  induction stream generalizing clock lane x with
  | nil => trivial
  | cons packet rest ih =>
    obtain ⟨after, sorted⟩ := List.pairwise_cons.mp ordered
    obtain ⟨forwards, bytes', packets'⟩ :=
      Lane.take_lossless bytes packets (later packet List.mem_cons_self) lossless.1
    exact ⟨forwards, ih bytes' packets' sorted after (lossless.2 _ rfl)⟩

/-- From its admission until it is admitted again, a link whose calls in a direction all lose nothing gets every packet
forwarded that the exact buckets would admit. -/
theorem conforming_forwarded (m : ForwardMeters) (request : ForwardRequest)
    (maxBytesPerS maxPacketsPerS : Option UInt32) (admittedAtMs : Nat) (events : List Event)
    (calm : ∀ event ∈ events, ¬ event.Admits request.linkId)
    (ordered : (admittedAtMs :: events.map Event.nowMs).Pairwise (· ≤ ·)) (towardDestination : Bool)
    (lossless : Execution.Along Lane.step Lane.Lossless (.new maxBytesPerS maxPacketsPerS admittedAtMs)
      (packetsOf request.linkId towardDestination events)) :
    ForwardsConforming (.new maxBytesPerS maxPacketsPerS admittedAtMs)
      (answersOf request.linkId towardDestination
        (m.admitLink request (.admitLink maxBytesPerS maxPacketsPerS) admittedAtMs).1 events) := by
  obtain ⟨first, sorted⟩ := List.pairwise_cons.mp ordered
  rw [answersOf_eq (lane?_admitLink m request maxBytesPerS maxPacketsPerS admittedAtMs) calm]
  refine forwardsConforming_answers (coversCap_new maxBytesPerS admittedAtMs) (coversCap_new maxPacketsPerS admittedAtMs)
    (pairwise_packetsOf sorted) ?_ lossless
  intro packet member
  obtain ⟨event, inside, same⟩ := mem_packetsOf member
  exact same ▸ first _ (List.mem_map.mpr ⟨event, inside, rfl⟩)

instance (lane : Lane) (packet : Packet) : Decidable (lane.Lossless packet) :=
  inferInstanceAs (Decidable (_ ∧ (_ → _ ∧ (_ ∨ _ ∨ _))))

theorem conforming_forwarded_sample :
    ForwardsConforming (.new (some 1000) (some 10) 0)
      (answersOf sampleRequest.linkId true
        (noMeters.admitLink sampleRequest (.admitLink (some 1000) (some 10)) 0).1 sampleEvents) :=
  conforming_forwarded noMeters sampleRequest (some 1000) (some 10) 0 sampleEvents
    (by simp [sampleEvents, Event.Admits]) (by decide) true (by decide)

/-- Ten packets use up the packet cap; the eleventh is dropped but its 900 bytes stay charged, so that a packet of 500
bytes is dropped a tenth of a second later. With 1500 bytes a second the half bytes of two refills are lost too. -/
theorem conforming_dropped :
    (¬ ForwardsConforming (.new (some 1000) (some 10) 0)
      (answersOf sampleRequest.linkId true
        (noMeters.admitLink sampleRequest (.admitLink (some 1000) (some 10)) 0).1
        (List.replicate 10 (.forward sampleRequest.linkId true 1 0) ++
          [.forward sampleRequest.linkId true 900 0, .forward sampleRequest.linkId true 500 100]))) ∧
      ¬ ForwardsConforming (.new (some 1500) none 0)
        (answersOf sampleRequest.linkId true
          (noMeters.admitLink sampleRequest (.admitLink (some 1500) none) 0).1
          [.forward sampleRequest.linkId true 1500 0, .forward sampleRequest.linkId true 1 1,
            .forward sampleRequest.linkId true 2 2]) := by
  decide

end Leviculum.Transport.ForwardMeter
