import Leviculum.Link.ChannelSpec
import Leviculum.Lib.Execution
import Mathlib.Data.List.Perm.Subperm
import Mathlib.Data.List.Range
import Mathlib.Data.List.Infix

/-! One channel sending to another over a network that drops, duplicates and
reorders. Messages are numbered by the order in which they were sent; the number
is the packet identity a proof refers to, and never seen by the channels. -/

namespace Leviculum.Link.Delivery
open Channel Execution

structure System where
  sender : Channel Nat
  receiver : Channel Nat
  /-- Every envelope the sender accepted, in order. -/
  sent : List Envelope
  /-- Every envelope the receiver handed over, in order. -/
  handed : List Envelope
  /-- Every packet ever put on the wire; a lost one is simply never delivered. -/
  wire : List Bytes
  /-- The messages the receiver has proven. -/
  proofs : List Nat

def System.initial : System := ⟨Channel.new, Channel.new, [], [], [], []⟩

inductive Event where
  | send (msgtype : UInt16) (data : Bytes) (linkMdu nowMs : Nat)
  | sendSystem (msgtype : UInt16) (data : Bytes) (linkMdu nowMs : Nat)
  | poll (nowMs rttMs : Nat)
  | deliver (message : Nat) (packet : Bytes) (held : Bool)
  | drainLimit (limit : Nat)
  | drainBudgeted (limit : Nat) (free : UInt16 → Bool)
  | prove (message : Nat) (nowMs rttMs : Nat)

def Fresh (sent : List Envelope) (message : Nat) : Prop := sent.length ≤ message + 32768

instance (sent : List Envelope) (message : Nat) : Decidable (Fresh sent message) :=
  inferInstanceAs (Decidable (_ ≤ _))

namespace System

/-- Record the outcome of a send. The number of a message is its place in `sent`. -/
def afterSend (s : System) : Except ChannelError Bytes × Channel Nat → System
  | (.error _, sender) => { s with sender }
  | (.ok packet, sender) =>
    { s with
      sender
      sent := s.sent ++ (sender.txRing.getLast?.map (·.envelope)).toList
      wire := s.wire ++ [packet] }

/-- A proof goes out for what was delivered now and for what was delivered before. -/
def afterReceive (s : System) (message : Nat) :
    Except ChannelError ReceiveOutcome × Channel Nat → System
  | (.ok (.delivered envelope), receiver) =>
    { s with receiver, handed := s.handed ++ [envelope], proofs := s.proofs ++ [message] }
  | (.ok .alreadyDelivered, receiver) => { s with receiver, proofs := s.proofs ++ [message] }
  | (_, receiver) => { s with receiver }

def afterDrain (s : System) : List (Envelope × Nat) × Channel Nat → System
  | (ready, receiver) =>
    { s with
      receiver
      handed := s.handed ++ ready.map Prod.fst
      proofs := s.proofs ++ ready.map Prod.snd }

def step (s : System) : Event → Option System
  | .send msgtype data linkMdu nowMs =>
    some (s.afterSend (s.sender.send msgtype data linkMdu nowMs))
  | .sendSystem msgtype data linkMdu nowMs =>
    some (s.afterSend (s.sender.sendSystem msgtype data linkMdu nowMs))
  | .poll nowMs rttMs =>
    let (actions, sender) := s.sender.poll nowMs rttMs
    some { s with sender, wire := s.wire ++ retransmissions actions }
  | .deliver message packet held =>
    -- a packet of the wire is a copy of `message` when it is that message packed
    if packet ∈ s.wire ∧ s.sent[message]?.map Envelope.pack = some packet ∧
        Fresh s.sent message then
      some (s.afterReceive message
        (if held then s.receiver.receiveHeld packet message
          else s.receiver.receive packet message))
    else none
  | .drainLimit limit => some (s.afterDrain (s.receiver.drainReceivedLimit limit))
  | .drainBudgeted limit free => some (s.afterDrain (s.receiver.drainReceivedBudgeted limit free))
  | .prove message nowMs rttMs =>
    if message ∈ s.proofs ∧ Fresh s.sent message then
      match s.sent[message]? with
      | some envelope =>
        some { s with sender := (s.sender.markDelivered envelope.sequence nowMs rttMs).2 }
      | none => none
    else none

/-- Sender side. `numbers` are the messages still outstanding: they include every
message not handed over yet, so the window bounds how far the sender is ahead. -/
structure SenderInv (s : System) : Prop where
  numbered : ∀ i envelope, s.sent[i]? = some envelope →
    envelope.sequence = UInt16.ofNat i ∧ envelope.data.length ≤ 65535
  nextTx : s.sender.nextTxSequence = UInt16.ofNat s.sent.length
  window : s.sender.WindowBounded
  ringBound : s.sender.txRing.length ≤ windowMaxFast
  untimed : Untimed s.sender.txRing
  outstanding : ∃ numbers : List Nat,
    (envelopes s.sender.txRing).map some = numbers.map (fun i => s.sent[i]?) ∧
      ∀ i, s.handed.length ≤ i → i < s.sent.length → i ∈ numbers
  wire : ∀ packet ∈ s.wire, ∃ i : Nat, s.sent[i]?.map Envelope.pack = some packet

/-- Slot `i` of the ring is empty or holds message `first + i`. -/
def RingFrom (sent : List Envelope) (first : Nat) (ring : List (Option (Envelope × Nat))) :
    Prop :=
  ∀ i envelope number, ring[i]? = some (some (envelope, number)) →
    sent[first + i]? = some envelope ∧ number = first + i

/-- Receiver side: the ring starts at the first message not handed over. -/
structure ReceiverInv (s : System) : Prop where
  inOrder : s.handed = s.sent.take s.handed.length
  nextRx : s.receiver.nextRxSequence = UInt16.ofNat s.handed.length
  ring : RingFrom s.sent s.handed.length s.receiver.rxRing
  proven : ∀ i ∈ s.proofs, i < s.handed.length

structure Inv (s : System) : Prop where
  tx : SenderInv s
  rx : ReceiverInv s

theorem handed_le_sent {s : System} (rx : ReceiverInv s) : s.handed.length ≤ s.sent.length := by
  have lengths := congrArg List.length rx.inOrder
  rw [List.length_take] at lengths
  omega

theorem sent_le_handed_add_window {s : System} (tx : SenderInv s) :
    s.sent.length ≤ s.handed.length + windowMaxFast := by
  obtain ⟨numbers, same, covers⟩ := tx.outstanding
  have count : numbers.length = s.sender.txRing.length := by
    simpa [envelopes] using (congrArg List.length same).symm
  have inside : List.range' s.handed.length (s.sent.length - s.handed.length) ⊆ numbers := by
    intro i member
    rw [List.mem_range'_1] at member
    exact covers i member.1 (by omega)
  have bound := (List.subperm_of_subset List.nodup_range' inside).length_le
  rw [List.length_range'] at bound
  have ring := tx.ringBound
  omega

theorem ofNat_toNat_mod (n : Nat) : (UInt16.ofNat n).toNat = n % 65536 := UInt16.toNat_ofNat'

theorem sequenceAfter_ofNat (n : Nat) :
    sequenceAfter (UInt16.ofNat n) = UInt16.ofNat (n + 1) := by
  apply UInt16.toNat_inj.mp
  simp only [sequenceAfter, ofNat_toNat_mod, seqModulus]
  omega

theorem initial_inv : Inv initial where
  tx := {
    numbered := by intro i envelope found; simp [initial] at found
    nextTx := rfl
    window := ⟨by decide, by decide⟩
    ringBound := by decide
    untimed := by intro out member; simp [initial, Channel.new] at member
    outstanding := ⟨[], rfl, by intro i _ below; simp [initial] at below⟩
    wire := by intro packet member; simp [initial] at member }
  rx := {
    inOrder := rfl
    nextRx := rfl
    ring := by intro i envelope number found; simp [initial, Channel.new] at found
    proven := by intro i member; simp [initial] at member }

theorem getElem?_append_of_some {sent : List Envelope} {i : Nat} {envelope : Envelope}
    (found : sent[i]? = some envelope) (more : List Envelope) :
    (sent ++ more)[i]? = some envelope := by
  rw [List.getElem?_append_left (List.getElem?_eq_some_iff.mp found).1]
  exact found

theorem inv_afterSend_refused {s : System} (inv : Inv s) {e : ChannelError}
    {sender : Channel Nat} (refused : Refused s.sender sender) :
    Inv (s.afterSend (.error e, sender)) := by
  have nextTx : sender.nextTxSequence = s.sender.nextTxSequence :=
    congrArg Prod.fst refused.queue
  have ring : sender.txRing = s.sender.txRing := congrArg Prod.snd refused.queue
  exact {
    tx := {
      numbered := inv.tx.numbered
      nextTx := nextTx.trans inv.tx.nextTx
      window := refused.window.mpr inv.tx.window
      ringBound := by simpa only [afterSend, ring] using inv.tx.ringBound
      untimed := by simpa only [afterSend, ring] using inv.tx.untimed
      outstanding := by simpa only [afterSend, ring] using inv.tx.outstanding
      wire := inv.tx.wire }
    rx := ⟨inv.rx.inOrder, inv.rx.nextRx, inv.rx.ring, inv.rx.proven⟩ }

theorem inv_afterSend_accepted {s : System} (inv : Inv s) {envelope : Envelope}
    {sender : Channel Nat} (accepted : Accepted s.sender sender envelope) :
    Inv (s.afterSend (.ok envelope.pack, sender)) := by
  obtain ⟨outbound, ring, content, untimed⟩ := accepted.pushed
  have recorded : s.afterSend (.ok envelope.pack, sender) =
      { s with sender, sent := s.sent ++ [envelope], wire := s.wire ++ [envelope.pack] } := by
    simp [afterSend, ring, content]
  have newest : (s.sent ++ [envelope])[s.sent.length]? = some envelope := by simp
  rw [recorded]
  refine ⟨?_, ?_⟩
  · refine {
      numbered := ?_
      nextTx := ?_
      window := accepted.window.mpr inv.tx.window
      ringBound := ?_
      untimed := ?_
      outstanding := ?_
      wire := ?_ }
    · intro i e found
      rcases Nat.lt_or_ge i s.sent.length with old | new
      · rw [List.getElem?_append_left old] at found
        exact inv.tx.numbered i e found
      · have here : i = s.sent.length := by
          have bound := (List.getElem?_eq_some_iff.mp found).1
          rw [List.length_append, List.length_singleton] at bound
          omega
        subst here
        obtain rfl : envelope = e := by simpa using found
        exact ⟨accepted.sequence.trans inv.tx.nextTx, accepted.fits⟩
    · rw [accepted.nextTx, inv.tx.nextTx, sequenceAfter_ofNat, List.length_append,
        List.length_singleton]
    · have room := accepted.room
      have window := inv.tx.window.1
      rw [ring, List.length_append, List.length_singleton]
      omega
    · intro out member
      rw [ring, List.mem_append, List.mem_singleton] at member
      rcases member with old | rfl
      · exact inv.tx.untimed out old
      · exact untimed
    · obtain ⟨numbers, same, covers⟩ := inv.tx.outstanding
      refine ⟨numbers ++ [s.sent.length], ?_, ?_⟩
      · have known : numbers.map (fun i => (s.sent ++ [envelope])[i]?) =
            numbers.map (fun i => s.sent[i]?) := by
          apply List.map_congr_left
          intro i member
          have some_ : s.sent[i]? ∈ (envelopes s.sender.txRing).map some := by
            rw [same]
            exact List.mem_map_of_mem member
          obtain ⟨e, -, found⟩ := List.mem_map.mp some_
          rw [← found]
          exact getElem?_append_of_some found.symm _
        rw [ring, List.map_append, known, ← same]
        simp [envelopes, content]
      · intro i notHanded below
        rw [List.length_append, List.length_singleton] at below
        rw [List.mem_append, List.mem_singleton]
        by_cases new : i = s.sent.length
        · exact .inr new
        · exact .inl (covers i notHanded (by omega))
    · intro packet member
      rw [List.mem_append, List.mem_singleton] at member
      rcases member with old | rfl
      · obtain ⟨i, found⟩ := inv.tx.wire packet old
        obtain ⟨e, here, packed⟩ := Option.map_eq_some_iff.mp found
        exact ⟨i, by rw [getElem?_append_of_some here, Option.map_some, packed]⟩
      · exact ⟨s.sent.length, by rw [newest, Option.map_some]⟩
  · have bound := handed_le_sent inv.rx
    refine ⟨?_, inv.rx.nextRx, ?_, inv.rx.proven⟩
    · rw [List.take_append_of_le_length bound]
      exact inv.rx.inOrder
    · intro i e number found
      obtain ⟨message, same⟩ := inv.rx.ring i e number found
      exact ⟨getElem?_append_of_some message _, same⟩

theorem inv_poll {s : System} (inv : Inv s) (nowMs rttMs : Nat) :
    Inv { s with
      sender := (s.sender.poll nowMs rttMs).2
      wire := s.wire ++ retransmissions (s.sender.poll nowMs rttMs).1 } := by
  obtain ⟨nextTx, kept, untimed, window, copies⟩ :=
    poll_spec s.sender nowMs rttMs inv.tx.untimed inv.tx.window
  refine ⟨?_, ⟨inv.rx.inOrder, inv.rx.nextRx, inv.rx.ring, inv.rx.proven⟩⟩
  refine {
    numbered := inv.tx.numbered
    nextTx := nextTx.trans inv.tx.nextTx
    window := window
    ringBound := ?_
    untimed := untimed
    outstanding := ?_
    wire := ?_ }
  · have same := congrArg List.length kept
    simp only [envelopes, List.length_map] at same
    rw [same]
    exact inv.tx.ringBound
  · rw [kept]
    exact inv.tx.outstanding
  · intro packet member
    rcases List.mem_append.mp member with old | again
    · exact inv.tx.wire packet old
    · obtain ⟨e, inside, rfl⟩ := copies packet again
      obtain ⟨numbers, same, -⟩ := inv.tx.outstanding
      have found : some e ∈ numbers.map (fun i => s.sent[i]?) := by
        rw [← same]
        exact List.mem_map_of_mem inside
      obtain ⟨i, -, here⟩ := List.mem_map.mp found
      exact ⟨i, by rw [here, Option.map_some]⟩

theorem sequenceOffset_message {s : System} (inv : Inv s) {message : Nat} {envelope : Envelope}
    (found : s.sent[message]? = some envelope) (fresh : Fresh s.sent message) :
    (message < s.handed.length ∧
        s.receiver.sequenceOffset envelope.sequence ≥ seqModulus / 2) ∨
      (s.handed.length ≤ message ∧ s.receiver.sequenceOffset envelope.sequence < rxRingMax ∧
        s.receiver.sequenceOffset envelope.sequence = message - s.handed.length) := by
  have ahead := sent_le_handed_add_window inv.tx
  have handed := handed_le_sent inv.rx
  have below := (List.getElem?_eq_some_iff.mp found).1
  simp only [Fresh, windowMaxFast] at fresh ahead
  simp only [sequenceOffset, inv.rx.nextRx, (inv.tx.numbered _ _ found).1, ofNat_toNat_mod,
    seqModulus, rxRingMax]
  split <;> omega

theorem message_eq_handed {s : System} (inv : Inv s) {message : Nat} {envelope : Envelope}
    (found : s.sent[message]? = some envelope) (fresh : Fresh s.sent message)
    (next : envelope.sequence = s.receiver.nextRxSequence) : message = s.handed.length := by
  have ahead := sent_le_handed_add_window inv.tx
  have handed := handed_le_sent inv.rx
  have below := (List.getElem?_eq_some_iff.mp found).1
  rw [(inv.tx.numbered _ _ found).1, inv.rx.nextRx] at next
  have same := congrArg UInt16.toNat next
  simp only [ofNat_toNat_mod] at same
  simp only [Fresh, windowMaxFast] at fresh ahead
  omega

theorem SenderInv.hand {s s' : System} (tx : SenderInv s) (sender : s'.sender = s.sender)
    (sent : s'.sent = s.sent) (wire : s'.wire = s.wire)
    (more : s.handed.length ≤ s'.handed.length) : SenderInv s' where
  numbered := by rw [sent]; exact tx.numbered
  nextTx := by rw [sender, sent]; exact tx.nextTx
  window := by rw [sender]; exact tx.window
  ringBound := by rw [sender]; exact tx.ringBound
  untimed := by rw [sender]; exact tx.untimed
  outstanding := by
    obtain ⟨numbers, same, covers⟩ := tx.outstanding
    rw [sender, sent]
    exact ⟨numbers, same, fun i notHanded below => covers i (more.trans notHanded) below⟩
  wire := by rw [wire, sent]; exact tx.wire

theorem take_succ_of_getElem? {sent handed : List Envelope} {envelope : Envelope}
    (inOrder : handed = sent.take handed.length) (next : sent[handed.length]? = some envelope) :
    handed ++ [envelope] = sent.take (handed ++ [envelope]).length := by
  rw [List.length_append, List.length_singleton, List.take_add_one, next, ← inOrder]
  rfl

theorem getElem?_bufferAt (ring : List (Option (Envelope × Nat))) (offset i : Nat)
    (entry found : Envelope × Nat) (here : (bufferAt ring offset entry)[i]? = some (some found)) :
    (i = offset ∧ found = entry) ∨ ring[i]? = some (some found) := by
  unfold bufferAt at here
  rw [List.getElem?_set] at here
  split at here
  next same =>
    split at here
    · left
      simpa [same.symm, eq_comm] using here
    · cases here
  next =>
    right
    rw [List.getElem?_append] at here
    split at here
    · exact here
    · have placeholder := List.mem_of_getElem? here
      rw [List.mem_replicate] at placeholder
      cases placeholder.2

theorem inv_deliver {s : System} (inv : Inv s) {message : Nat} {envelope : Envelope}
    (found : s.sent[message]? = some envelope) (fresh : Fresh s.sent message)
    (inOrder : Bool) :
    Inv (s.afterReceive message (s.receiver.receiveInner envelope.pack message inOrder)) := by
  have fits := (inv.tx.numbered _ _ found).2
  unfold receiveInner
  rw [Envelope.unpack_pack envelope fits]
  simp only
  split
  next next =>
    obtain rfl := message_eq_handed inv found fresh next.2
    refine ⟨inv.tx.hand rfl rfl rfl (by simp [afterReceive]), ?_⟩
    refine ⟨take_succ_of_getElem? inv.rx.inOrder found, ?_, ?_, ?_⟩
    · simp only [afterReceive, inv.rx.nextRx, sequenceAfter_ofNat, List.length_append,
        List.length_singleton]
    · intro i e number here
      simp only [afterReceive, List.getElem?_tail] at here
      have slot := inv.rx.ring (i + 1) e number here
      simp only [afterReceive, List.length_append, List.length_singleton]
      rw [show s.handed.length + 1 + i = s.handed.length + (i + 1) by omega]
      exact slot
    · intro i member
      simp only [afterReceive, List.mem_append, List.mem_singleton, List.length_append,
        List.length_singleton] at member ⊢
      rcases member with old | rfl
      · exact (inv.rx.proven i old).trans (by omega)
      · omega
  next =>
  rcases sequenceOffset_message inv found fresh with ⟨behind, offset⟩ | ⟨ahead, small, offset⟩
  · rw [if_pos offset]
    refine ⟨inv.tx.hand rfl rfl rfl le_rfl, inv.rx.inOrder, inv.rx.nextRx, inv.rx.ring, ?_⟩
    intro i member
    simp only [afterReceive, List.mem_append, List.mem_singleton] at member ⊢
    rcases member with old | rfl
    · exact inv.rx.proven i old
    · exact behind
  · have notBackward :
        ¬ s.receiver.sequenceOffset envelope.sequence ≥ seqModulus / 2 := by
      simp only [rxRingMax, seqModulus] at small ⊢
      omega
    rw [if_neg notBackward, if_neg (by omega)]
    have buffered : ∀ outcome : ReceiveOutcome,
        outcome = .duplicateBuffered ∨ outcome = .buffered →
        Inv (s.afterReceive message (.ok outcome,
          { s.receiver with
            rxRing := bufferAt s.receiver.rxRing
              (s.receiver.sequenceOffset envelope.sequence) (envelope, message) })) := by
      rintro outcome (rfl | rfl) <;>
      · refine ⟨inv.tx.hand rfl rfl rfl le_rfl, inv.rx.inOrder, inv.rx.nextRx, ?_, inv.rx.proven⟩
        intro i e number here
        rcases getElem?_bufferAt _ _ _ _ _ here with ⟨rfl, same⟩ | old
        · cases same
          rw [offset, show (s.afterReceive _ _).handed.length + (message - s.handed.length) =
            message by simp only [afterReceive]; omega]
          exact ⟨found, rfl⟩
        · exact inv.rx.ring i e number old
    apply buffered
    split
    · exact .inl rfl
    · exact .inr rfl

theorem RingFrom.tail {sent : List Envelope} {first : Nat} {slot : Option (Envelope × Nat)}
    {ring : List (Option (Envelope × Nat))} (filled : RingFrom sent first (slot :: ring)) :
    RingFrom sent (first + 1) ring := by
  intro i envelope number found
  rw [show first + 1 + i = first + (i + 1) by omega]
  exact filled (i + 1) envelope number (by rwa [List.getElem?_cons_succ])

theorem drainLoop_spec (free : UInt16 → Bool) (sent : List Envelope)
    (ring : List (Option (Envelope × Nat))) (room first : Nat) (filled : RingFrom sent first ring) :
    (drainLoop free room ring (UInt16.ofNat first)).nextRxSequence =
        UInt16.ofNat (first + (drainLoop free room ring (UInt16.ofNat first)).ready.length) ∧
      RingFrom sent (first + (drainLoop free room ring (UInt16.ofNat first)).ready.length)
        (drainLoop free room ring (UInt16.ofNat first)).rxRing ∧
      ∀ i entry, (drainLoop free room ring (UInt16.ofNat first)).ready[i]? = some entry →
        sent[first + i]? = some entry.1 ∧ entry.2 = first + i := by
  induction ring generalizing room first with
  | nil =>
    unfold drainLoop
    exact ⟨rfl, filled, by intro i entry found; simp at found⟩
  | cons slot rest ih =>
    match slot with
    | none =>
      unfold drainLoop
      exact ⟨rfl, filled, by intro i entry found; simp at found⟩
    | some (envelope, number) =>
      unfold drainLoop
      simp only
      split
      · exact ⟨rfl, filled, by intro i entry found; simp at found⟩
      · rw [sequenceAfter_ofNat]
        obtain ⟨next, left, taken⟩ := ih
          (if (¬ free envelope.msgtype) then room - 1 else room) (first + 1) filled.tail
        simp only [List.length_cons]
        rw [← Nat.add_right_comm, Nat.add_assoc] at next left
        refine ⟨next, left, ?_⟩
        intro i entry found
        cases i with
        | zero =>
          obtain rfl : (envelope, number) = entry := by simpa using found
          exact filled 0 envelope number rfl
        | succ i =>
          rw [List.getElem?_cons_succ] at found
          rw [show first + (i + 1) = first + 1 + i by omega]
          exact taken i entry found

theorem take_append_of_getElem? {sent handed more : List Envelope}
    (inOrder : handed = sent.take handed.length)
    (following : ∀ (i : Nat) e, more[i]? = some e → sent[handed.length + i]? = some e) :
    handed ++ more = sent.take (handed ++ more).length := by
  induction more generalizing handed with
  | nil => simpa using inOrder
  | cons e more ih =>
    have next := take_succ_of_getElem? inOrder (following 0 e rfl)
    rw [List.append_cons]
    apply ih next
    intro i e' found
    rw [List.length_append, List.length_singleton, Nat.add_assoc, Nat.add_comm 1 i]
    exact following (i + 1) e' (by rwa [List.getElem?_cons_succ])

theorem inv_drain {s : System} (inv : Inv s) (limit : Nat) (free : UInt16 → Bool) :
    Inv (s.afterDrain (s.receiver.drainReceivedBudgeted limit free)) := by
  obtain ⟨next, left, taken⟩ :=
    drainLoop_spec free s.sent s.receiver.rxRing limit s.handed.length inv.rx.ring
  rw [← inv.rx.nextRx] at next left taken
  refine ⟨inv.tx.hand rfl rfl rfl (by simp [afterDrain]), ?_⟩
  refine ⟨?_, ?_, ?_, ?_⟩
  · apply take_append_of_getElem? inv.rx.inOrder
    intro i e found
    rw [List.getElem?_map] at found
    obtain ⟨entry, here, rfl⟩ := Option.map_eq_some_iff.mp found
    exact (taken i entry here).1
  · simpa only [afterDrain, drainReceivedBudgeted, List.length_append, List.length_map] using next
  · simpa only [afterDrain, drainReceivedBudgeted, List.length_append, List.length_map] using left
  · intro i member
    simp only [afterDrain, drainReceivedBudgeted, List.mem_append, List.mem_map,
      List.length_append, List.length_map] at member ⊢
    rcases member with old | ⟨entry, inside, rfl⟩
    · exact (inv.rx.proven i old).trans_le (Nat.le_add_right _ _)
    · obtain ⟨k, here⟩ := List.getElem?_of_mem inside
      have bound := (List.getElem?_eq_some_iff.mp here).1
      rw [(taken k entry here).2]
      omega

theorem handed_of_sequence {s : System} (inv : Inv s) {message number : Nat}
    {envelope removed : Envelope} (proven : message ∈ s.proofs)
    (found : s.sent[message]? = some envelope) (fresh : Fresh s.sent message)
    (ring : s.sent[number]? = some removed) (same : removed.sequence = envelope.sequence) :
    number < s.handed.length := by
  have ahead := sent_le_handed_add_window inv.tx
  have handed := inv.rx.proven message proven
  have below := (List.getElem?_eq_some_iff.mp ring).1
  rw [(inv.tx.numbered _ _ found).1, (inv.tx.numbered _ _ ring).1] at same
  have equal := congrArg UInt16.toNat same
  simp only [ofNat_toNat_mod] at equal
  simp only [Fresh, windowMaxFast] at fresh ahead
  omega

theorem inv_prove {s : System} (inv : Inv s) {message : Nat} {envelope : Envelope}
    (proven : message ∈ s.proofs) (found : s.sent[message]? = some envelope)
    (fresh : Fresh s.sent message) (nowMs rttMs : Nat) :
    Inv { s with sender := (s.sender.markDelivered envelope.sequence nowMs rttMs).2 } := by
  refine ⟨?_, ⟨inv.rx.inOrder, inv.rx.nextRx, inv.rx.ring, inv.rx.proven⟩⟩
  rcases markDelivered_cases s.sender envelope.sequence nowMs rttMs with
    unchanged | ⟨pos, outbound, entry, same, queue, window⟩
  · rw [unchanged]
    exact inv.tx
  have nextTx := congrArg Prod.fst queue
  have ring := congrArg Prod.snd queue
  simp only [Channel.queue] at nextTx ring
  refine {
    numbered := inv.tx.numbered
    nextTx := nextTx.trans inv.tx.nextTx
    window := window
    ringBound := ?_
    untimed := ?_
    outstanding := ?_
    wire := inv.tx.wire }
  · rw [ring]
    exact (List.length_eraseIdx_le _ _).trans inv.tx.ringBound
  · intro out member
    rw [ring] at member
    exact inv.tx.untimed out (List.mem_of_mem_eraseIdx member)
  · obtain ⟨numbers, matching, covers⟩ := inv.tx.outstanding
    refine ⟨numbers.eraseIdx pos, ?_, ?_⟩
    · rw [ring]
      simp only [envelopes, List.map_map] at matching ⊢
      rw [← List.eraseIdx_map, matching, List.eraseIdx_map]
    · intro i notHanded below
      obtain ⟨k, here⟩ := List.getElem?_of_mem (covers i notHanded below)
      have slot := congrArg (·[k]?) matching
      have apart : k ≠ pos := by
        rintro rfl
        simp only [envelopes, List.getElem?_map, entry, here, Option.map_some,
          Option.some.injEq] at slot
        have handed := handed_of_sequence inv proven found fresh slot.symm same
        exact absurd handed (Nat.not_lt.mpr notHanded)
      exact List.mem_eraseIdx_iff_getElem?.mpr ⟨k, apart, here⟩

theorem step_inv (s : System) (event : Event) (s' : System) (inv : Inv s)
    (stepped : s.step event = some s') : Inv s' := by
  cases event with
  | send msgtype data linkMdu nowMs =>
    obtain rfl := Option.some.inj stepped
    rcases send_cases s.sender msgtype data linkMdu nowMs with
      ⟨e, sender, result, refused⟩ | ⟨envelope, sender, result, accepted⟩
    · rw [result]; exact inv_afterSend_refused inv refused
    · rw [result]; exact inv_afterSend_accepted inv accepted
  | sendSystem msgtype data linkMdu nowMs =>
    obtain rfl := Option.some.inj stepped
    rcases sendRaw_cases s.sender msgtype data linkMdu nowMs with
      ⟨e, sender, result, refused⟩ | ⟨envelope, sender, result, accepted⟩
    · rw [sendSystem, result]; exact inv_afterSend_refused inv refused
    · rw [sendSystem, result]; exact inv_afterSend_accepted inv accepted
  | poll nowMs rttMs =>
    obtain rfl := Option.some.inj stepped
    exact inv_poll inv nowMs rttMs
  | deliver message packet held =>
    simp only [step] at stepped
    split at stepped
    next copy =>
      obtain rfl := Option.some.inj stepped
      obtain ⟨envelope, found, rfl⟩ := Option.map_eq_some_iff.mp copy.2.1
      cases held
      · exact inv_deliver inv found copy.2.2 true
      · exact inv_deliver inv found copy.2.2 false
    next => cases stepped
  | drainLimit limit =>
    obtain rfl := Option.some.inj stepped
    exact inv_drain inv limit (fun _ => false)
  | drainBudgeted limit free =>
    obtain rfl := Option.some.inj stepped
    exact inv_drain inv limit free
  | prove message nowMs rttMs =>
    simp only [step] at stepped
    split at stepped
    next proof =>
      split at stepped
      next envelope found =>
        obtain rfl := Option.some.inj stepped
        exact inv_prove inv proof.1 found proof.2 nowMs rttMs
      next => cases stepped
    next => cases stepped

/-- Exactly once and in order: whatever the network does, what the receiver handed
over is the start of what was sent. -/
theorem handed_prefix_sent (events : List Event) (s : System)
    (run : exec step initial events = some s) : s.handed <+: s.sent := by
  have inv := exec_invariant step_inv initial_inv run
  rw [inv.rx.inOrder]
  exact List.take_prefix _ _

/-- Two messages, the second overtaking the first and the first arriving twice. -/
def overtaking : List Event :=
  [.send 1 [7] 100 0, .sendSystem 1 [8] 100 1,
    .deliver 1 (Envelope.pack ⟨1, 1, [8]⟩) false, .deliver 0 (Envelope.pack ⟨1, 0, [7]⟩) true,
    .drainLimit 1, .deliver 0 (Envelope.pack ⟨1, 0, [7]⟩) false, .drainBudgeted 1 (fun _ => false)]

theorem handed_prefix_sent_overtaking :
    ∃ s, exec step initial overtaking = some s ∧ s.handed = [⟨1, 0, [7]⟩, ⟨1, 1, [8]⟩] ∧
      s.proofs = [0, 0, 1] ∧ s.handed <+: s.sent :=
  ⟨_, rfl, rfl, rfl, handed_prefix_sent overtaking _ rfl⟩

end System

end Leviculum.Link.Delivery
