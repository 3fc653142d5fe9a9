import Leviculum.Msgpack.Shortest
import Leviculum.Propagation.Envelope
import Leviculum.Propagation.SyncCursor

/-! An offer, any answer to it and the messages it leads to keep within the link and within the peer's limit. -/

namespace Leviculum.Propagation

open Msgpack.Lxmf (Rmp shortest shortest_compact)

/-- Whatever has been offered keeps within the peer's sync limit and within the budget. -/
def Bounded (builder : OfferBuilder) : Prop :=
  builder.plan.ids = [] ∨
    builder.cumulative < builder.syncLimitBytes ∧ offerEncodedLen builder.plan.ids.length ≤ builder.offerBudget

theorem Bounded.push {builder : OfferBuilder} (bounded : Bounded builder) (entry : StoredMessage) :
    Bounded (builder.push entry).1 := by
  unfold OfferBuilder.push
  split_ifs with stopped old low large full
  · exact bounded
  · exact bounded
  · exact bounded
  · exact bounded
  · exact bounded
  · obtain ⟨room, short⟩ := not_or.mp full
    right
    refine ⟨Nat.lt_of_not_le room, ?_⟩
    dsimp only
    rw [List.length_append]
    exact Nat.le_of_not_lt short

theorem Bounded.pushAll {builder : OfferBuilder} (bounded : Bounded builder) (entries : List StoredMessage) :
    Bounded (builder.pushAll entries) := by
  induction entries generalizing builder with
  | nil => exact bounded
  | cons entry rest ih =>
    unfold OfferBuilder.pushAll
    dsimp only
    split
    · exact bounded.push entry
    · exact ih (bounded.push entry)

structure OfferedWithin (peer : Peer) (entries : List StoredMessage) (budget : Nat) (plan : OfferPlan)
    (offered : List StoredMessage) : Prop where
  stored : offered.Sublist entries
  ids : plan.ids = offered.map StoredMessage.transientId
  limit : offerBaseSize + (offered.map StoredMessage.transferSize).sum < peer.syncLimitBytes
  budget : offerEncodedLen plan.ids.length ≤ budget

theorem buildOffer_within {peer : Peer} {entries : List StoredMessage} {budget : Nat} {plan : OfferPlan}
    (built : buildOffer peer entries budget = some plan) (offers : plan.ids ≠ []) :
    ∃ offered, OfferedWithin peer entries budget plan offered := by
  obtain ⟨taken, rest, same, final, -⟩ := (built_new peer budget).pushAll rfl entries
  rw [List.nil_append] at final
  have bounded : Bounded ((OfferBuilder.new peer budget).pushAll entries) := Bounded.pushAll (.inl rfl) entries
  unfold buildOffer OfferBuilder.finish at built
  split at built
  · cases built
  · obtain rfl := Option.some.inj built
    obtain ⟨limit, short⟩ := bounded.resolve_left offers
    refine ⟨taken.filter peer.offers, ?_, final.ids, ?_, ?_⟩
    · rw [same]
      exact List.filter_sublist.trans (List.sublist_append_left taken rest)
    · rw [final.cumulative, final.syncLimit] at limit
      exact limit
    · rw [final.offerBudget] at short
      exact short

/-! ### The sizes of a batch -/

def binLenOf (entries : List StoredMessage) (id : TransientId) : Nat :=
  (metaOf entries id).elim 0 (fun found => binHeaderLen found.size + found.size)

structure Binned (entries : List StoredMessage) (wanted : WantedIds) (walked : List TransientId) (state : BatchPlan) :
    Prop where
  stop : state.batch.stop ≤ walked.length
  bins : state.bins =
    (((walked.take state.batch.stop).filter (serves entries wanted)).map (binLenOf entries)).sum
  count : state.batch.count = ((walked.take state.batch.stop).filter (serves entries wanted)).length
  running : state.batch.withheld = 0 →
    (walked.take state.batch.stop).filter (serves entries wanted) = walked.filter (serves entries wanted)

section Batch

variable {entries : List StoredMessage} {wanted : WantedIds} {walked : List TransientId} {state : BatchPlan}

theorem Binned.pass (binned : Binned entries wanted walked state) {batch : SyncBatch} (stop : batch.stop = state.batch.stop)
    (count : batch.count = state.batch.count) {id : TransientId}
    (running : batch.withheld = 0 → state.batch.withheld = 0 ∧ serves entries wanted id = false) :
    Binned entries wanted (walked ++ [id]) { state with batch := batch } where
  stop := by
    rw [stop, List.length_append]
    exact Nat.le_add_right_of_le binned.stop
  bins := by
    dsimp only
    rw [stop, List.take_append_of_le_length binned.stop]
    exact binned.bins
  count := by
    dsimp only
    rw [stop, count, List.take_append_of_le_length binned.stop]
    exact binned.count
  running := by
    intro none
    obtain ⟨unheld, unserved⟩ := running none
    dsimp only
    rw [stop, List.take_append_of_le_length binned.stop, binned.running unheld, List.filter_append,
      List.filter_cons_of_neg (by rw [unserved]; decide), List.filter_nil, List.append_nil]

theorem Binned.step (binned : Binned entries wanted walked state) (fits : Nat → Nat → Nat → Bool) (id : TransientId) :
    Binned entries wanted (walked ++ [id]) (batchStep entries wanted fits state (id, walked.length)) := by
  unfold batchStep
  dsimp only
  by_cases wants : wanted.wants id = false
  · rw [if_pos wants]
    refine binned.pass rfl rfl (fun unheld => ⟨unheld, ?_⟩)
    rw [serves, wants, Bool.false_and]
  rw [if_neg wants]
  rw [Bool.not_eq_false] at wants
  cases held : metaOf entries id with
  | none =>
    refine binned.pass rfl rfl (fun unheld => ⟨unheld, ?_⟩)
    rw [serves, held, wants]
    rfl
  | some found =>
    dsimp only
    split_ifs with closed full
    · refine binned.pass ?_ ?_ ?_
      · rfl
      · rfl
      · exact fun none => absurd none (Nat.succ_ne_zero _)
    · refine binned.pass ?_ ?_ ?_
      · rfl
      · rfl
      · exact fun none => absurd none Nat.one_ne_zero
    · have served : serves entries wanted id = true := by
        rw [serves, held, wants]
        rfl
      have whole : (walked ++ [id]).take (walked.length + 1) = walked ++ [id] :=
        List.take_of_length_le (by rw [List.length_append]; exact Nat.le_refl _)
      have more : (walked ++ [id]).filter (serves entries wanted) =
          (walked.take state.batch.stop).filter (serves entries wanted) ++ [id] := by
        rw [binned.running (by omega), List.filter_append, List.filter_cons_of_pos served, List.filter_nil]
      have bin : binLenOf entries id = binHeaderLen found.size + found.size := by rw [binLenOf, held]; rfl
      refine ⟨?_, ?_, ?_, ?_⟩
      · rw [List.length_append]
        exact Nat.le_refl _
      · dsimp only
        rw [whole, more, List.map_append, List.sum_append, ← binned.bins, List.map_singleton, List.sum_singleton, bin,
          Nat.add_assoc]
      · dsimp only
        rw [whole, more, List.length_append, ← binned.count]
        rfl
      · intro _
        dsimp only
        rw [whole]

end Batch

theorem planSyncBatch_sizes {entries : List StoredMessage} {plan : OfferPlan} {wanted : WantedIds}
    {fits : Nat → Nat → Nat → Bool} {batch : SyncBatch}
    (planned : planSyncBatch (.ok entries) plan wanted fits = .ok batch) :
    batch.stop ≤ plan.ids.length ∧ batch.count = (sentIds entries plan wanted batch).length ∧
      batch.encodedLen =
        syncEnvelopeLen batch.count ((sentIds entries plan wanted batch).map (binLenOf entries)).sum := by
  have walk : ∀ (ids : List TransientId) (start : BatchPlan), Binned entries wanted [] start →
      Binned entries wanted ids (ids.zipIdx.foldl (batchStep entries wanted fits) start) := by
    intro ids start fresh
    induction ids using List.reverseRecOn with
    | nil => exact fresh
    | append_singleton ids id ih =>
      have last : (ids ++ [id]).zipIdx = ids.zipIdx ++ [(id, ids.length)] := by
        rw [List.zipIdx_append, Nat.zero_add]
        rfl
      rw [last, List.foldl_concat]
      exact ih.step fits id
  unfold planSyncBatch at planned
  obtain rfl := Except.ok.inj planned
  have binned := walk plan.ids ⟨⟨0, 0, 0, syncEnvelopeLen 0 0, 0, plan.cursorTarget⟩, 0⟩
    ⟨Nat.le_refl _, rfl, rfl, fun _ => rfl⟩
  exact ⟨binned.stop, binned.count, congrArg _ binned.bins⟩

/-! ### Everything fits -/

theorem OfferedWithin.sum_lt {peer : Peer} {entries : List StoredMessage} {budget : Nat} {plan : OfferPlan}
    {offered : List StoredMessage} (within : OfferedWithin peer entries budget plan offered)
    {bodies : TransientId → Bytes} (held : ∀ entry ∈ entries, (bodies entry.transientId).length = entry.size)
    {sent : List TransientId} (part : sent.Sublist plan.ids) :
    15 + (sent.map (fun id => 5 + (bodies id).length)).sum < peer.syncLimitBytes := by
  rw [within.ids] at part
  obtain ⟨chosen, among, rfl⟩ := List.sublist_map_iff.mp part
  have each : ((chosen.map StoredMessage.transientId).map (fun id => 5 + (bodies id).length)).sum ≤
      (chosen.map StoredMessage.transferSize).sum := by
    rw [List.map_map]
    apply List.sum_le_sum
    intro entry member
    have stored := held entry (within.stored.subset (among.subset member))
    rw [Function.comp, stored, StoredMessage.transferSize, offerPerMessageOverhead]
    omega
  have all : (chosen.map StoredMessage.transferSize).sum ≤ (offered.map StoredMessage.transferSize).sum :=
    (among.map _).sum_le_sum (fun _ _ => Nat.zero_le _)
  have limit := within.limit
  unfold offerBaseSize at limit
  omega

/-- An answer that asks for some of the offered ids, in their order, or gives an error. -/
def OfferResponse.Answers (response : OfferResponse) (ids : List TransientId) : Prop :=
  ∀ wanted, response = .wanted wanted → wanted.Sublist ids

theorem answerOffer_answers (ids : List TransientId) (contains : TransientId → Bool) :
    (answerOffer ids contains).Answers ids := by
  intro wanted same
  unfold answerOffer at same
  dsimp only at same
  split_ifs at same
  cases same
  exact List.filter_sublist

theorem OfferResponse.Answers.length_encode_le {library : Rmp} (compact : library.Compact) {response : OfferResponse}
    {ids : List TransientId} (answers : response.Answers ids) (few : ids.length < 2 ^ 32) :
    (response.encode library).length ≤ 1 + arrayHeaderLen ids.length + ids.length * offerIdBytes := by
  have single : ∀ value, (Msgpack.Lxmf.bool library value).length = 1 := by
    intro value
    rw [Msgpack.Lxmf.bool, compact.bools]
    rfl
  cases response with
  | wantNone =>
    rw [encode, single]
    omega
  | wantAll =>
    rw [encode, single]
    omega
  | wanted wanted =>
    have fewer := (answers wanted rfl).length_le
    have header := arrayHeaderLen_mono fewer
    have items := Nat.mul_le_mul_right offerIdBytes fewer
    rw [encode, length_encodeIds compact, Nat.mod_eq_of_lt (Nat.lt_of_le_of_lt fewer few)]
    omega
  | error error =>
    have header : 1 ≤ arrayHeaderLen ids.length := by
      unfold arrayHeaderLen
      split_ifs <;> decide
    rw [encode, PeerError.length_encode compact]
    omega

/-- An offer made for a link fits it with the framing of a request, and so does any answer to it; its length is
the predicted one. The envelope of any of the messages it names is shorter than the peer's sync limit, and so is
every batch planned from it. -/
theorem offers_and_batches_fit {library : Rmp} (compact : library.Compact) {peer : Peer}
    {entries : List StoredMessage} {mdu : Nat} {plan : OfferPlan}
    (built : buildOffer peer entries (offerBudgetForMdu mdu) = some plan) (offers : plan.ids ≠ [])
    (peeringKey : FixedBytes 32) (timestamp : UInt64) (pathHash requestId : FixedBytes 16) :
    (packRequest timestamp pathHash (some (PeerOffer.encode library ⟨peeringKey, plan.ids⟩))).length ≤ mdu ∧
    (∀ contains, (answerOffer plan.ids contains).Answers plan.ids) ∧
    (∀ response : OfferResponse, response.Answers plan.ids →
      (packResponse requestId (response.encode library)).length ≤ mdu) ∧
    (PeerOffer.encode library ⟨peeringKey, plan.ids⟩).length = offerEncodedLen plan.ids.length ∧
    ∀ bodies : TransientId → Bytes, (∀ entry ∈ entries, (bodies entry.transientId).length = entry.size) →
      (∀ sent : List TransientId, sent.Sublist plan.ids →
        (PeerSyncEnvelope.encode library ⟨timestamp, sent.map bodies⟩).length < peer.syncLimitBytes) ∧
      ∀ wanted fits batch, planSyncBatch (.ok entries) plan wanted fits = .ok batch →
        batch.encodedLen < peer.syncLimitBytes := by
  obtain ⟨offered, within⟩ := buildOffer_within built offers
  have budget := within.budget
  rw [offerEncodedLen_eq, offerBudgetForMdu, requestEnvelopeBytes, offerBytesLimit, offerKeyBytes, offerIdBytes] at budget
  have few : plan.ids.length < 2 ^ 32 := by omega
  have length : (PeerOffer.encode library ⟨peeringKey, plan.ids⟩).length = offerEncodedLen plan.ids.length :=
    PeerOffer.length_encode compact few
  refine ⟨?_, answerOffer_answers plan.ids, ?_, length, ?_⟩
  · rw [length_packRequest, length, offerEncodedLen_eq, requestEnvelopeBytes, offerKeyBytes, offerIdBytes]
    omega
  · intro response answers
    have short := answers.length_encode_le compact few
    rw [offerIdBytes] at short
    rw [length_packResponse]
    omega
  · intro bodies held
    constructor
    · intro sent part
      have short := PeerSyncEnvelope.length_encode_le compact ⟨timestamp, sent.map bodies⟩
      rw [List.map_map] at short
      exact Nat.lt_of_le_of_lt short (within.sum_lt held part)
    · intro wanted fits batch planned
      obtain ⟨-, -, size⟩ := planSyncBatch_sizes planned
      have part : (sentIds entries plan wanted batch).Sublist plan.ids :=
        List.filter_sublist.trans (List.take_sublist _ _)
      have bins : ((sentIds entries plan wanted batch).map (binLenOf entries)).sum ≤
          ((sentIds entries plan wanted batch).map (fun id => 5 + (bodies id).length)).sum := by
        apply List.sum_le_sum
        intro id _
        unfold binLenOf
        cases found : metaOf entries id with
        | none => exact Nat.zero_le _
        | some entry =>
          obtain ⟨stored, rfl⟩ := mem_metaOf found
          rw [held entry stored]
          exact Nat.add_le_add_right (binHeaderLen_le _) _
      have header := arrayHeaderLen_le batch.count
      have limit := within.sum_lt held part
      rw [size, syncEnvelopeLen, syncEnvelopeHeadBytes]
      omega

/-- Two messages offered over a LoRa link. -/
theorem offers_and_batches_fit_pair :
    (packRequest 0 (FixedBytes.replicate 16 9) (some (PeerOffer.encode shortest ⟨FixedBytes.replicate 32 7,
      [FixedBytes.replicate 32 1, FixedBytes.replicate 32 2]⟩))).length ≤ 431 := by
  have built : buildOffer freshPeer [namedMessage 1 1, namedMessage 2 2] (offerBudgetForMdu 431) =
      some ⟨[FixedBytes.replicate 32 1, FixedBytes.replicate 32 2], 2, 0, 0⟩ := by decide
  exact (offers_and_batches_fit shortest_compact built (List.cons_ne_nil _ _) (FixedBytes.replicate 32 7) 0
    (FixedBytes.replicate 16 9) (FixedBytes.replicate 16 8)).1

end Leviculum.Propagation
