import Leviculum.Link.Channel
import Mathlib.Data.List.Basic

/-! What each channel operation does to the transmit queue, the receive ring and
the window, stated once for the proofs about whole runs. -/

namespace Leviculum.Link.Channel

variable {Hash : Type}

/-- The part of a channel that decides what is sent under which sequence number. -/
def queue (ch : Channel Hash) : UInt16 × List OutboundEnvelope := (ch.nextTxSequence, ch.txRing)

/-- No window tier opens further than the fast one. -/
def WindowBounded (ch : Channel Hash) : Prop :=
  ch.window ≤ windowMaxFast ∧ ch.windowMax ≤ windowMaxFast

/-- No outstanding frame carries a deadline, as no plain send gives it one. -/
def Untimed (ring : List OutboundEnvelope) : Prop := ∀ out ∈ ring, out.deadlineMs = none

theorem windowTier_le (rttMs : Nat) : (windowTier rttMs).2 ≤ windowMaxFast := by
  unfold windowTier
  split_ifs <;> decide

theorem queue_recalculatePacing (ch : Channel Hash) (rttMs : Nat) :
    (ch.recalculatePacing rttMs).queue = ch.queue := by
  unfold recalculatePacing
  split <;> rfl

theorem queue_adjustWindow (ch : Channel Hash) (success : Bool) (rttMs : Nat) :
    (ch.adjustWindow success rttMs).queue = ch.queue := by
  unfold adjustWindow
  rw [queue_recalculatePacing]
  rfl

theorem queue_sampleRtt (ch : Channel Hash) (outbound : OutboundEnvelope) (nowMs : Nat) :
    (ch.sampleRtt outbound nowMs).queue = ch.queue := by
  unfold sampleRtt updateSrtt
  dsimp only
  split_ifs <;> rfl

theorem queue_backOffPacing (ch : Channel Hash) (doublings effRtt : Nat) :
    (ch.backOffPacing doublings effRtt).queue = ch.queue := by
  unfold backOffPacing
  split <;> rfl

theorem WindowBounded.recalculatePacing {ch : Channel Hash} (bounded : ch.WindowBounded)
    (rttMs : Nat) : (ch.recalculatePacing rttMs).WindowBounded := by
  unfold Channel.recalculatePacing
  split
  · exact bounded
  · exact bounded

theorem windowBounded_adjustWindow (ch : Channel Hash) (success : Bool) (rttMs : Nat) :
    (ch.adjustWindow success rttMs).WindowBounded := by
  have tier : (ch.updateWindowForRtt rttMs).windowMax ≤ windowMaxFast := windowTier_le rttMs
  have inside : (ch.updateWindowForRtt rttMs).window ≤ (ch.updateWindowForRtt rttMs).windowMax :=
    Nat.min_le_right _ _
  unfold adjustWindow
  apply WindowBounded.recalculatePacing
  constructor
  · dsimp only
    split <;> split <;> omega
  · exact tier

theorem WindowBounded.backOffPacing {ch : Channel Hash} (bounded : ch.WindowBounded)
    (doublings effRtt : Nat) : (ch.backOffPacing doublings effRtt).WindowBounded := by
  unfold Channel.backOffPacing
  split
  · exact bounded
  · exact bounded

structure Refused (before after : Channel Hash) : Prop where
  queue : after.queue = before.queue
  window : after.WindowBounded ↔ before.WindowBounded

/-- An accepted send takes the next sequence number and one free window slot. -/
structure Accepted (before after : Channel Hash) (envelope : Envelope) : Prop where
  room : before.txRing.length < before.window
  sequence : envelope.sequence = before.nextTxSequence
  fits : envelope.data.length ≤ 65535
  nextTx : after.nextTxSequence = sequenceAfter before.nextTxSequence
  pushed : ∃ outbound : OutboundEnvelope, after.txRing = before.txRing ++ [outbound] ∧
    outbound.envelope = envelope ∧ outbound.deadlineMs = none
  window : after.WindowBounded ↔ before.WindowBounded

theorem sendRaw_cases (ch : Channel Hash) (msgtype : UInt16) (data : Bytes)
    (linkMdu nowMs : Nat) :
    (∃ e ch', ch.sendRaw msgtype data linkMdu nowMs = (.error e, ch') ∧ Refused ch ch') ∨
      ∃ envelope ch', ch.sendRaw msgtype data linkMdu nowMs = (.ok envelope.pack, ch') ∧
        Accepted ch ch' envelope := by
  unfold sendRaw
  split
  next => exact .inl ⟨_, _, rfl, rfl, Iff.rfl⟩
  next small =>
  split
  next => exact .inl ⟨_, _, rfl, rfl, Iff.rfl⟩
  next ready =>
  split
  next => exact .inl ⟨_, _, rfl, rfl, Iff.rfl⟩
  next =>
  have fits : ¬ data.length > 65535 := by
    simp only [mdu] at small
    omega
  have room : ch.txRing.length < ch.window := by
    simpa only [isReadyToSend, decide_eq_true_eq, not_not] using ready
  simp only [Envelope.tryNew, if_neg fits]
  exact .inr ⟨_, _, rfl, room, rfl, by simpa using fits, rfl, ⟨_, rfl, rfl, rfl⟩, Iff.rfl⟩

theorem send_cases (ch : Channel Hash) (msgtype : UInt16) (data : Bytes) (linkMdu nowMs : Nat) :
    (∃ e ch', ch.send msgtype data linkMdu nowMs = (.error e, ch') ∧ Refused ch ch') ∨
      ∃ envelope ch', ch.send msgtype data linkMdu nowMs = (.ok envelope.pack, ch') ∧
        Accepted ch ch' envelope := by
  unfold send
  cases validateMsgtype msgtype with
  | error e => exact .inl ⟨e, ch, rfl, rfl, Iff.rfl⟩
  | ok _ => exact sendRaw_cases ch msgtype data linkMdu nowMs

theorem markDelivered_cases (ch : Channel Hash) (sequence : UInt16) (nowMs rttMs : Nat) :
    (ch.markDelivered sequence nowMs rttMs).2 = ch ∨
      ∃ pos outbound, ch.txRing[pos]? = some outbound ∧ outbound.envelope.sequence = sequence ∧
        (ch.markDelivered sequence nowMs rttMs).2.queue =
          (ch.nextTxSequence, ch.txRing.eraseIdx pos) ∧
        (ch.markDelivered sequence nowMs rttMs).2.WindowBounded := by
  unfold markDelivered
  cases found : ch.txRing.findIdx? (fun e => e.envelope.sequence == sequence) with
  | none => exact .inl rfl
  | some pos =>
    obtain ⟨inside, matching, -⟩ := List.findIdx?_eq_some_iff_getElem.mp found
    have entry : ch.txRing[pos]? = some ch.txRing[pos] := List.getElem?_eq_getElem inside
    simp only [entry]
    refine .inr ⟨pos, ch.txRing[pos], entry, by simpa using matching, ?_, ?_⟩
    · rw [queue_recalculatePacing, queue_adjustWindow]
      have unchanged := congrArg Prod.fst (queue_sampleRtt ch ch.txRing[pos] nowMs)
      simpa only [queue, Prod.mk.injEq, and_true] using unchanged
    · exact (windowBounded_adjustWindow _ true rttMs).recalculatePacing _

theorem expireEntry_untimed (nowMs : Nat) (out : OutboundEnvelope) (none_ : out.deadlineMs = none) :
    expireEntry nowMs out = (out, []) := by
  simp only [expireEntry, none_]

theorem expireDue_untimed (ch : Channel Hash) (nowMs : Nat) (untimed : Untimed ch.txRing) :
    ch.expireDue nowMs = ([], ch) := by
  have same : ch.txRing.map (expireEntry nowMs) = ch.txRing.map (fun out => (out, [])) :=
    List.map_congr_left fun out member => expireEntry_untimed nowMs out (untimed out member)
  simp only [expireDue, same, List.map_map]
  congr 1
  · simp [Function.comp_def]
  · simp [Function.comp_def]

/-- The envelopes of a ring, without the bookkeeping around them. -/
def envelopes (ring : List OutboundEnvelope) : List Envelope := ring.map (·.envelope)

theorem envelopes_set (ring : List OutboundEnvelope) (i : Nat) (old new : OutboundEnvelope)
    (entry : ring[i]? = some old) (same : new.envelope = old.envelope) :
    envelopes (ring.set i new) = envelopes ring := by
  apply List.ext_getElem?
  intro j
  simp only [envelopes, List.getElem?_map, List.getElem?_set]
  split
  next here =>
    subst here
    simp only [entry, (List.getElem?_eq_some_iff.mp entry).1, ↓reduceIte, Option.map_some, same]
  next => rfl

theorem Untimed.set {ring : List OutboundEnvelope} (untimed : Untimed ring) (i : Nat)
    {old new : OutboundEnvelope} (entry : ring[i]? = some old)
    (same : new.deadlineMs = old.deadlineMs) : Untimed (ring.set i new) := by
  intro out member
  rcases List.mem_or_eq_of_mem_set member with kept | rfl
  · exact untimed out kept
  · rw [same]
    exact untimed old (List.mem_of_getElem? entry)

/-- The packets a list of actions puts on the wire. -/
def retransmissions (actions : List ChannelAction) : List Bytes :=
  actions.filterMap fun
    | .retransmit _ data _ => some data
    | _ => none

theorem retransmitPass_spec (maxTries nowMs : Nat) (due : List (Nat × Nat)) (pass : PollPass)
    (untimed : Untimed pass.txRing) :
    envelopes (retransmitPass maxTries nowMs due pass).txRing = envelopes pass.txRing ∧
      Untimed (retransmitPass maxTries nowMs due pass).txRing ∧
      ∀ data ∈ retransmissions (retransmitPass maxTries nowMs due pass).actions,
        data ∈ retransmissions pass.actions ∨ ∃ e ∈ envelopes pass.txRing, data = e.pack := by
  induction due generalizing pass with
  | nil => exact ⟨rfl, untimed, fun data member => .inl member⟩
  | cons head rest ih =>
    obtain ⟨i, tries⟩ := head
    unfold retransmitPass
    cases entry : pass.txRing[i]? with
    | none => exact ih pass untimed
    | some outbound =>
      simp only
      split
      · refine ⟨envelopes_set _ _ _ _ entry rfl, untimed.set i entry rfl, ?_⟩
        intro data member
        simp only [retransmissions, List.filterMap_append, List.filterMap_cons,
          List.filterMap_nil, List.append_nil] at member
        exact .inl member
      · obtain ⟨kept, still, sent⟩ := ih
          { txRing := pass.txRing.set i { outbound with tries := tries + 1, sentAtMs := nowMs }
            actions := pass.actions ++
              [.retransmit outbound.envelope.sequence outbound.envelope.pack (tries + 1)]
            windowDecrements := pass.windowDecrements + 1
            pacingDoublings := pass.pacingDoublings + if tries ≥ 2 then 1 else 0 }
          (untimed.set i entry rfl)
        have ring := envelopes_set pass.txRing i outbound
          { outbound with tries := tries + 1, sentAtMs := nowMs } entry rfl
        refine ⟨kept.trans ring, still, ?_⟩
        intro data member
        rcases sent data member with earlier | ⟨e, inside, rfl⟩
        · simp only [retransmissions, List.filterMap_append, List.filterMap_cons,
            List.filterMap_nil, List.mem_append, List.mem_singleton] at earlier
          rcases earlier with earlier | rfl
          · exact .inl earlier
          · exact .inr ⟨_, List.mem_map_of_mem (List.mem_of_getElem? entry), rfl⟩
        · exact .inr ⟨e, by rwa [ring] at inside, rfl⟩

theorem queue_iterate_adjustWindow (ch : Channel Hash) (rttMs n : Nat) :
    ((fun c : Channel Hash => c.adjustWindow false rttMs)^[n] ch).queue = ch.queue := by
  induction n generalizing ch with
  | zero => rfl
  | succ n ih => rw [Function.iterate_succ_apply, ih, queue_adjustWindow]

theorem WindowBounded.iterate {ch : Channel Hash} (bounded : ch.WindowBounded) (rttMs n : Nat) :
    ((fun c : Channel Hash => c.adjustWindow false rttMs)^[n] ch).WindowBounded := by
  induction n generalizing ch with
  | zero => exact bounded
  | succ n ih =>
    rw [Function.iterate_succ_apply]
    exact ih (windowBounded_adjustWindow ch false rttMs)

theorem poll_spec (ch : Channel Hash) (nowMs rttMs : Nat) (untimed : Untimed ch.txRing)
    (bounded : ch.WindowBounded) :
    (ch.poll nowMs rttMs).2.nextTxSequence = ch.nextTxSequence ∧
      envelopes (ch.poll nowMs rttMs).2.txRing = envelopes ch.txRing ∧
      Untimed (ch.poll nowMs rttMs).2.txRing ∧
      (ch.poll nowMs rttMs).2.WindowBounded ∧
      ∀ data ∈ retransmissions (ch.poll nowMs rttMs).1,
        ∃ e ∈ envelopes ch.txRing, data = e.pack := by
  obtain ⟨kept, still, sent⟩ := retransmitPass_spec ch.maxTries nowMs
    (ch.timedOut nowMs (ch.effectiveRttMs rttMs)) ⟨ch.txRing, [], 0, 0⟩ untimed
  unfold poll
  simp only [expireDue_untimed ch nowMs untimed]
  generalize passed : retransmitPass ch.maxTries nowMs
    (ch.timedOut nowMs (ch.effectiveRttMs rttMs)) ⟨ch.txRing, [], 0, 0⟩ = pass at kept still sent ⊢
  set shrunk := (fun c : Channel Hash => c.adjustWindow false rttMs)^[pass.windowDecrements]
    { ch with txRing := pass.txRing } with shrunkDef
  have shrunkQueue : shrunk.queue = (ch.nextTxSequence, pass.txRing) := by
    rw [shrunkDef, queue_iterate_adjustWindow]
    rfl
  have shrunkBounded : shrunk.WindowBounded := by
    have same : WindowBounded { ch with txRing := pass.txRing } := bounded
    exact same.iterate rttMs _
  generalize pacedDef : (if pass.windowDecrements > 0
    then shrunk.recalculatePacing (ch.effectiveRttMs rttMs) else shrunk) = paced
  have pacedSpec : paced.queue = shrunk.queue ∧ paced.WindowBounded := by
    rw [← pacedDef]
    split
    · exact ⟨queue_recalculatePacing _ _, shrunkBounded.recalculatePacing _⟩
    · exact ⟨rfl, shrunkBounded⟩
  have final := (queue_backOffPacing paced pass.pacingDoublings (ch.effectiveRttMs rttMs)).trans
    (pacedSpec.1.trans shrunkQueue)
  have nextTx := congrArg Prod.fst final
  have ring := congrArg Prod.snd final
  simp only [queue] at nextTx ring
  refine ⟨nextTx, by rw [ring]; exact kept, by rw [ring]; exact still,
    pacedSpec.2.backOffPacing _ _, ?_⟩
  intro data member
  rcases sent data member with none_ | found
  · simp [retransmissions] at none_
  · exact found

end Leviculum.Link.Channel
