import Leviculum.Propagation.ServingSpec

/-! The streams of the two sources against the encodings of the same bodies. -/

namespace Leviculum.Propagation

open Fallible (exec)
open Msgpack (arrayHeaderBytes binHeaderBytes)
open Msgpack.Lxmf (Rmp array bin arrayLen shortest shortest_compact)
open Resource (SourceError)

theorem length_arrayHeaderBytes (count : Nat) : (arrayHeaderBytes count).length = arrayHeaderLen count := by
  unfold arrayHeaderBytes arrayHeaderLen
  split_ifs
  · rfl
  · rw [List.length_cons, Bytes.length_be]
  · rw [List.length_cons, Bytes.length_be]

theorem length_frame (body : Bytes) : (frame body).length = binHeaderLen body.length + body.length := by
  rw [frame, List.length_append]
  congr 1
  unfold binHeaderBytes binHeaderLen
  split_ifs
  · rfl
  · rw [List.length_cons, Bytes.length_be]
  · rw [List.length_cons, Bytes.length_be]

/-- The list streamed: its header on the stack, then its framed items. -/
def streamedList (items : List Bytes) : Bytes := arrayHeaderBytes items.length ++ (items.map frame).flatten

theorem length_streamedList (items : List Bytes) :
    (streamedList items).length =
      arrayHeaderLen items.length + (items.map (fun item => binHeaderLen item.length + item.length)).sum := by
  rw [streamedList, List.length_append, length_arrayHeaderBytes, List.length_flatten, List.map_map]
  congr 2
  apply List.map_congr_left
  intro item _
  exact length_frame item

section Headers

variable {library : Rmp} (compact : library.Compact)

include compact

theorem arrayHeaderBytes_eq {count : Nat} (few : count < 2 ^ 32) : arrayHeaderBytes count = array library count := by
  rw [array, compact.arrays, UInt32.toNat_ofNat_of_lt' few]
  unfold arrayHeaderBytes Msgpack.Core.header
  split_ifs <;> rfl

theorem frame_eq_bin {body : Bytes} (short : body.length < 2 ^ 32) : frame body = bin library body := by
  rw [frame, bin, compact.bins body short]
  congr 1
  unfold binHeaderBytes Msgpack.Core.binHeader
  split_ifs <;> first | rfl | omega

theorem streamedList_eq {items : List Bytes} (few : items.length < 2 ^ 32)
    (short : ∀ item ∈ items, item.length < 2 ^ 32) : streamedList items = encodeBinaryList library items := by
  have bins : items.map frame = items.map (bin library) :=
    List.map_congr_left (fun item member => frame_eq_bin compact (short item member))
  rw [streamedList, encodeBinaryList, bins, arrayHeaderBytes_eq compact few]

end Headers

/-! ### A peer sync -/

section Sync

variable {entries : List StoredMessage} {bodies : Bodies} {plan : OfferPlan} {wanted : WantedIds}
    {fits : Nat → Nat → Nat → Bool} {batch : SyncBatch}

def sentBodies (entries : List StoredMessage) (bodies : Bodies) (plan : OfferPlan) (wanted : WantedIds)
    (batch : SyncBatch) : List Bytes := (sentIds entries plan wanted batch).map (fun id => (bodies id).getD [])

/-- A store that holds what its directory says, in sizes of 32 bits. -/
structure Holds (entries : List StoredMessage) (bodies : Bodies) : Prop where
  held : ∀ entry ∈ entries, ∃ body, bodies entry.transientId = some body ∧ body.length = entry.size
  short : ∀ entry ∈ entries, entry.size < 2 ^ 32

theorem Holds.sent (holds : Holds entries bodies) {id : TransientId} (member : id ∈ sentIds entries plan wanted batch) :
    ∃ body, bodies id = some body ∧ binLenOf entries id = binHeaderLen body.length + body.length ∧
      body.length < 2 ^ 32 := by
  have served := (List.mem_filter.mp member).2
  rw [serves, Bool.and_eq_true] at served
  obtain ⟨found, here⟩ := Option.isSome_iff_exists.mp served.2
  obtain ⟨stored, rfl⟩ := mem_metaOf here
  obtain ⟨body, has, size⟩ := holds.held found stored
  refine ⟨body, has, ?_, size ▸ holds.short found stored⟩
  rw [binLenOf, here, size]
  rfl

def syncStream (entries : List StoredMessage) (bodies : Bodies) (plan : OfferPlan) (wanted : WantedIds)
    (batch : SyncBatch) (timestamp : UInt64) : Bytes :=
  [0x92, 0xcb] ++ Bytes.be 8 timestamp.toNat ++ streamedList (sentBodies entries bodies plan wanted batch)

theorem left_fresh (planned : planSyncBatch (.ok entries) plan wanted fits = .ok batch) (holds : Holds entries bodies)
    (timestamp : UInt64) :
    (SyncSource.new entries bodies plan wanted batch timestamp).Left SyncSource.fresh
      (syncStream entries bodies plan wanted batch timestamp) := by
  obtain ⟨-, count, -⟩ := planSyncBatch_sizes planned
  refine ⟨?_, [], rfl, ?_⟩
  · exact (Nat.zero_add _).trans count.symm
  · have frames : (sentIds entries plan wanted batch).map (framed bodies) =
        (sentBodies entries bodies plan wanted batch).map frame := by
      rw [sentBodies, List.map_map]
      apply List.map_congr_left
      intro id member
      obtain ⟨body, has, -⟩ := holds.sent member
      rw [framed, Function.comp, has]
      rfl
    have size : (sentBodies entries bodies plan wanted batch).length = batch.count := by
      rw [sentBodies, List.length_map, count]
    rw [syncStream, streamedList, size, ← frames, List.append_nil, ← List.append_assoc]
    rfl

theorem length_syncStream (planned : planSyncBatch (.ok entries) plan wanted fits = .ok batch)
    (holds : Holds entries bodies) (timestamp : UInt64) :
    batch.encodedLen = (syncStream entries bodies plan wanted batch timestamp).length := by
  obtain ⟨-, count, size⟩ := planSyncBatch_sizes planned
  have bins : (sentIds entries plan wanted batch).map (binLenOf entries) =
      (sentBodies entries bodies plan wanted batch).map (fun item => binHeaderLen item.length + item.length) := by
    rw [sentBodies, List.map_map]
    apply List.map_congr_left
    intro id member
    obtain ⟨body, has, same, -⟩ := holds.sent member
    rw [same, Function.comp, has]
    rfl
  have items : (sentBodies entries bodies plan wanted batch).length = batch.count := by
    rw [sentBodies, List.length_map, count]
  have head : ([0x92, 0xcb] ++ Bytes.be 8 timestamp.toNat).length = syncEnvelopeHeadBytes := by
    rw [List.length_append, Bytes.length_be]
    rfl
  rw [size, bins, syncStream, List.length_append, head, length_streamedList, items, syncEnvelopeLen, Nat.add_assoc]

/-- On every pass and for all read sizes the source yields the envelope over the bodies of the batch, as long as
promised. -/
def SyncServes (library : Rmp) (entries : List StoredMessage) (bodies : Bodies) (plan : OfferPlan) (wanted : WantedIds)
    (batch : SyncBatch) (timestamp : UInt64) : Prop :=
  let source := SyncSource.new entries bodies plan wanted batch timestamp
  let encoding := PeerSyncEnvelope.encode library ⟨timestamp, sentBodies entries bodies plan wanted batch⟩
  Streaming.Serves source.read SyncSource.rewind SyncSource.fresh encoding ∧ source.totalLen = encoding.length

theorem syncStream_eq {library : Rmp} (compact : library.Compact) (few : plan.ids.length < 2 ^ 32)
    (holds : Holds entries bodies) (timestamp : UInt64) :
    syncStream entries bodies plan wanted batch timestamp =
      PeerSyncEnvelope.encode library ⟨timestamp, sentBodies entries bodies plan wanted batch⟩ := by
  have short : ∀ item ∈ sentBodies entries bodies plan wanted batch, item.length < 2 ^ 32 := by
    intro item member
    obtain ⟨id, sent, rfl⟩ := List.mem_map.mp member
    obtain ⟨body, has, -, small⟩ := holds.sent sent
    rw [has]
    exact small
  have fewer : (sentBodies entries bodies plan wanted batch).length < 2 ^ 32 := by
    have part : (sentIds entries plan wanted batch).length ≤ plan.ids.length :=
      (List.filter_sublist.trans (List.take_sublist _ _)).length_le
    rw [sentBodies, List.length_map]
    omega
  have head : array library 2 ++ Msgpack.Lxmf.f64 library timestamp = [0x92, 0xcb] ++ Bytes.be 8 timestamp.toNat := by
    rw [array, compact.arrays, Msgpack.Lxmf.f64, compact.floats]
    rfl
  rw [syncStream, PeerSyncEnvelope.encode, head, streamedList_eq compact fewer short]

theorem syncServes {library : Rmp} (compact : library.Compact) (few : plan.ids.length < 2 ^ 32)
    (planned : planSyncBatch (.ok entries) plan wanted fits = .ok batch) (holds : Holds entries bodies)
    (timestamp : UInt64) : SyncServes library entries bodies plan wanted batch timestamp := by
  have stored : (SyncSource.new entries bodies plan wanted batch timestamp).Stored := holds.held
  have serves := (SyncSource.emits stored).serves (left_fresh planned holds timestamp)
    (fun _ _ _ => ⟨SyncSource.fresh, rfl, left_fresh planned holds timestamp⟩)
  unfold SyncServes
  dsimp only
  rw [← syncStream_eq compact few holds]
  exact ⟨serves, length_syncStream planned holds timestamp⟩

theorem buildOffer_few {peer : Peer} {offered : List StoredMessage} {mdu : Nat}
    (built : buildOffer peer offered (offerBudgetForMdu mdu) = some plan) : plan.ids.length < 2 ^ 32 := by
  by_cases none : plan.ids = []
  · rw [none]
    decide
  · obtain ⟨_, within⟩ := buildOffer_within built none
    have budget := within.budget
    rw [offerEncodedLen_eq, offerBudgetForMdu, offerBytesLimit, offerIdBytes] at budget
    omega

end Sync

/-! ### A fetch -/

/-- The plan knows the length of the response over its records. -/
def FetchPlan.Exact (plan : FetchPlan) : Prop :=
  plan.encodedLen = arrayHeaderLen plan.served.length +
    (plan.served.map (fun record => binHeaderLen record.2 + record.2)).sum

theorem serve_exact (serving : Serving) (ids : List TransientId)
    (exact : serving.payloadBytes = (serving.served.map (fun record => binHeaderLen record.2 + record.2)).sum) :
    (serve serving ids).payloadBytes =
      ((serve serving ids).served.map (fun record => binHeaderLen record.2 + record.2)).sum := by
  induction ids generalizing serving with
  | nil => exact exact
  | cons id rest ih =>
    unfold serve
    split_ifs
    · exact exact
    · split
      · exact ih serving exact
      · dsimp only
        split_ifs
        · exact ih serving exact
        · exact ih serving exact
        · apply ih
          dsimp only
          rw [List.map_append, List.sum_append, exact, List.map_singleton, List.sum_singleton, Nat.add_assoc]

theorem length_serve (serving : Serving) (ids : List TransientId) :
    (serve serving ids).served.length ≤ serving.served.length + ids.length := by
  induction ids generalizing serving with
  | nil => exact Nat.le_refl _
  | cons id rest ih =>
    have passed : (serve serving rest).served.length ≤ serving.served.length + (rest.length + 1) :=
      Nat.le_succ_of_le (ih serving)
    unfold serve
    split_ifs
    · exact Nat.le_add_right _ _
    · split
      · exact passed
      · dsimp only
        split_ifs
        · exact passed
        · exact passed
        · refine (ih _).trans ?_
          rw [List.length_append, List.length_singleton, List.length_cons]
          omega

theorem decoding_eq_ok {Value : Type} {reader : Msgpack.Lxmf.Reader Value} {data : Bytes} {position after : Nat}
    {value : Value} (ok : exec (decoding reader data) position = (.ok value, after)) :
    exec (reader data) position = (.ok value, after) := by
  have ran : exec (decoding reader data) position =
      ((exec (reader data) position).1.mapError PropagationError.ofMsgpack, (exec (reader data) position).2) := rfl
  rw [ran] at ok
  rcases outcome : exec (reader data) position with ⟨result, last⟩
  rw [outcome] at ok
  cases result with
  | error error => cases ok
  | ok found =>
    obtain ⟨same, rfl⟩ := Prod.mk.inj ok
    obtain rfl := Except.ok.inj same
    rfl

theorem arrayLen_lt {library : Rmp} {data : Bytes} {position after count : Nat}
    (ok : exec (arrayLen library data) position = (.ok count, after)) : count < 2 ^ 32 := by
  obtain ⟨n, _, _, shown⟩ := Fallible.bind_eq_ok ok
  obtain rfl : n.toNat = count := Except.ok.inj (Prod.mk.inj shown).1
  exact n.toNat_lt

theorem length_decodeIdList {library : Rmp} {data : Bytes} {count position after : Nat} {ids : List TransientId}
    (ok : exec (decodeIdList library count data) position = (.ok ids, after)) : ids.length = count := by
  induction count generalizing position after ids with
  | zero =>
    obtain rfl : [] = ids := Except.ok.inj (Prod.mk.inj ok).1
    rfl
  | succ count ih =>
    obtain ⟨id, _, _, ok⟩ := Fallible.bind_eq_ok ok
    obtain ⟨rest, _, listed, shown⟩ := Fallible.bind_eq_ok ok
    obtain rfl : id :: rest = ids := Except.ok.inj (Prod.mk.inj shown).1
    exact congrArg (· + 1) (ih listed)

theorem decodeOptionalIds_few {library : Rmp} {data : Bytes} {position after : Nat} {ids : Option (List TransientId)}
    (ok : exec (decodeOptionalIds library data) position = (.ok ids, after)) : (ids.getD []).length < 2 ^ 32 := by
  obtain ⟨kind, _, _, ok⟩ := Fallible.bind_eq_ok ok
  split at ok
  · obtain ⟨_, _, _, shown⟩ := Fallible.bind_eq_ok ok
    obtain rfl : none = ids := Except.ok.inj (Prod.mk.inj shown).1
    decide
  · obtain ⟨found, _, read, shown⟩ := Fallible.bind_eq_ok ok
    obtain rfl : some found = ids := Except.ok.inj (Prod.mk.inj shown).1
    obtain ⟨count, _, counted, read⟩ := Fallible.bind_eq_ok read
    obtain ⟨_, _, _, read⟩ := Fallible.bind_eq_ok read
    rw [Option.getD_some, length_decodeIdList read]
    exact arrayLen_lt (decoding_eq_ok counted)

theorem decode_wants_few {library : Rmp} {data : Bytes} {request : MessageGetRequest}
    (ok : MessageGetRequest.decode library data = .ok request) : (request.wants.getD []).length < 2 ^ 32 := by
  have ran : exec (MessageGetRequest.decoder library data) 0 =
      (.ok request, (exec (MessageGetRequest.decoder library data) 0).2) := Prod.ext ok rfl
  obtain ⟨count, _, _, ran⟩ := Fallible.bind_eq_ok ran
  split at ran
  · cases ran
  · obtain ⟨wants, _, wanted, ran⟩ := Fallible.bind_eq_ok ran
    obtain ⟨haves, _, _, ran⟩ := Fallible.bind_eq_ok ran
    obtain ⟨limit, _, _, ran⟩ := Fallible.bind_eq_ok ran
    obtain ⟨_, _, _, ran⟩ := Fallible.bind_eq_ok ran
    obtain ⟨_, _, _, shown⟩ := Fallible.bind_eq_ok ran
    obtain rfl : (⟨wants, haves, limit⟩ : MessageGetRequest) = request := Except.ok.inj (Prod.mk.inj shown).1
    exact decodeOptionalIds_few wanted

theorem prepareGet_exact {library : Rmp} {Store : Type} [PropagationStore Store] {node : PropagationNode Store}
    {request : Bytes} {remote : DestinationHash} {nowSecs : Nat} {prepared : PreparedFetch}
    (ready : (node.prepareGet library request remote nowSecs).1 = .ok (.fetch prepared)) :
    prepared.plan.Exact ∧ prepared.plan.served.length < 2 ^ 32 := by
  unfold PropagationNode.prepareGet at ready
  split at ready
  · cases ready
  next decoded well =>
    split_ifs at ready
    · cases ready
    · split at ready
      · cases ready
      · cases ready
    · split at ready
      · cases ready
      · dsimp only at ready
        split at ready
        · cases ready
        · cases ready
          constructor
          · unfold FetchPlan.Exact
            dsimp only
            rw [serve_exact _ _ rfl]
          · refine Nat.lt_of_le_of_lt (length_serve _ _) ?_
            rw [List.length_nil, Nat.zero_add]
            exact decode_wants_few well

section Fetch

variable {bodies : Bodies} {plan : FetchPlan}

/-- A store that holds every served record with its stamp, in sizes of 32 bits. -/
structure HoldsServed (bodies : Bodies) (plan : FetchPlan) : Prop where
  held : ∀ record ∈ plan.served, ∃ body, bodies record.1 = some body ∧ body.length = record.2 + stampSize
  short : ∀ record ∈ plan.served, record.2 < 2 ^ 32

def servedBodies (bodies : Bodies) (plan : FetchPlan) : List Bytes :=
  plan.served.map (fun record => ((bodies record.1).getD []).take record.2)

theorem HoldsServed.length (holds : HoldsServed bodies plan) {record : TransientId × Nat} (member : record ∈ plan.served) :
    (((bodies record.1).getD []).take record.2).length = record.2 := by
  obtain ⟨body, has, size⟩ := holds.held record member
  rw [has, Option.getD_some, List.length_take]
  omega

theorem encodeFetch_eq (library : Rmp) (holds : HoldsServed bodies plan) :
    encodeFetch library bodies plan = .ok (encodeBinaryList library (servedBodies bodies plan)) := by
  have each : ∀ records : List (TransientId × Nat), (∀ record ∈ records, record ∈ plan.served) →
      records.mapM (servedBody bodies) = .ok (records.map (fun record => ((bodies record.1).getD []).take record.2)) := by
    intro records
    induction records with
    | nil => exact fun _ => rfl
    | cons record rest ih =>
      intro among
      obtain ⟨body, has, size⟩ := holds.held record (among record List.mem_cons_self)
      have first : servedBody bodies record = .ok (((bodies record.1).getD []).take record.2) := by
        unfold servedBody
        dsimp only
        rw [has, Option.getD_some, if_neg (not_not.mpr size)]
      rw [List.mapM_cons, first, ih (fun other member => among other (List.mem_cons_of_mem _ member))]
      rfl
  unfold encodeFetch
  rw [each plan.served (fun _ member => member)]
  rfl

/-- On every pass and for all read sizes the source yields the encoded fetch, as long as promised. -/
def FetchServes (library : Rmp) (bodies : Bodies) (plan : FetchPlan) : Prop :=
  let source := FetchSource.new bodies plan
  ∃ encoding, encodeFetch library bodies plan = .ok encoding ∧
    Streaming.Serves source.read FetchSource.rewind FetchSource.fresh encoding ∧ source.totalLen = encoding.length

theorem fetchServes {library : Rmp} (compact : library.Compact) (exact : plan.Exact)
    (few : plan.served.length < 2 ^ 32) (holds : HoldsServed bodies plan) : FetchServes library bodies plan := by
  have frames : plan.served.map (FetchSource.servedFrame bodies) = (servedBodies bodies plan).map frame := by
    rw [servedBodies, List.map_map]
    apply List.map_congr_left
    intro record member
    rw [FetchSource.servedFrame, Function.comp, frame, holds.length member]
  have items : (servedBodies bodies plan).length = plan.served.length := List.length_map _
  have fresh : (FetchSource.new bodies plan).Left FetchSource.fresh (streamedList (servedBodies bodies plan)) := by
    refine .inl ⟨rfl, ?_⟩
    rw [streamedList, ← frames, items]
    rfl
  have stored : (FetchSource.new bodies plan).Stored := holds.held
  have serves := (FetchSource.emits stored).serves fresh
    (fun _ _ _ => ⟨FetchSource.fresh, rfl, fresh⟩)
  have short : ∀ item ∈ servedBodies bodies plan, item.length < 2 ^ 32 := by
    intro item member
    obtain ⟨record, served, rfl⟩ := List.mem_map.mp member
    rw [holds.length served]
    exact holds.short record served
  have size : plan.encodedLen = (streamedList (servedBodies bodies plan)).length := by
    have bins : (servedBodies bodies plan).map (fun item => binHeaderLen item.length + item.length) =
        plan.served.map (fun record => binHeaderLen record.2 + record.2) := by
      rw [servedBodies, List.map_map]
      apply List.map_congr_left
      intro record member
      rw [Function.comp, holds.length member]
    rw [length_streamedList, bins, items]
    exact exact
  refine ⟨_, encodeFetch_eq library holds, ?_⟩
  rw [← streamedList_eq compact (items ▸ few) short]
  exact ⟨serves, size⟩

end Fetch

/-- For every batch planned from an offer that was made for a link and every fetch planned from a request, a store
that holds what was planned, every pass and all read sizes, the sources yield the encodings of the same bodies and as
many bytes as promised. -/
theorem streamed_serving_is_encoding {library : Rmp} (compact : library.Compact) :
    (∀ {peer : Peer} {offered entries : List StoredMessage} {mdu : Nat} {plan : OfferPlan} {wanted : WantedIds}
      {fits : Nat → Nat → Nat → Bool} {batch : SyncBatch} {bodies : Bodies} (timestamp : UInt64),
      buildOffer peer offered (offerBudgetForMdu mdu) = some plan →
      planSyncBatch (.ok entries) plan wanted fits = .ok batch → Holds entries bodies →
      SyncServes library entries bodies plan wanted batch timestamp) ∧
    ∀ {Store : Type} [PropagationStore Store] {node : PropagationNode Store} {request : Bytes} {remote : DestinationHash}
      {nowSecs : Nat} {prepared : PreparedFetch} {bodies : Bodies},
      (node.prepareGet library request remote nowSecs).1 = .ok (.fetch prepared) →
      HoldsServed bodies prepared.plan → FetchServes library bodies prepared.plan := by
  constructor
  · intro peer offered entries mdu plan wanted fits batch bodies timestamp built planned holds
    exact syncServes compact (buildOffer_few built) planned holds timestamp
  · intro Store _ node request remote nowSecs prepared bodies ready holds
    obtain ⟨exact, few⟩ := prepareGet_exact ready
    exact fetchServes compact exact few holds

def hundredBytes : Bodies := fun _ => some (List.replicate 100 0)

theorem holds_hundredBytes (name : UInt8) (sequence : Nat) : Holds [namedMessage name sequence] hundredBytes where
  held := by
    intro entry member
    obtain rfl := List.mem_singleton.mp member
    exact ⟨_, rfl, List.length_replicate⟩
  short := by
    intro entry member
    obtain rfl := List.mem_singleton.mp member
    exact show 100 < 2 ^ 32 by decide

theorem serve_record {serving : Serving} {ids : List TransientId} {record : TransientId × Nat}
    (member : record ∈ (serve serving ids).served) : record ∈ serving.served ∨
      ∃ size, serving.owned.lookup record.1 = some size ∧ minBodyLen ≤ size ∧ record.2 = size - stampSize := by
  induction ids generalizing serving with
  | nil => exact .inl member
  | cons id rest ih =>
    unfold serve at member
    split_ifs at member with full
    · exact .inl member
    cases found : serving.owned.lookup id with
    | none =>
      rw [found] at member
      exact ih member
    | some size =>
      rw [found] at member
      dsimp only at member
      split_ifs at member with small refused
      · exact ih member
      · exact ih member
      · rcases ih member with served | ⟨other, held, long, same⟩
        · rcases List.mem_append.mp served with old | new
          · exact .inl old
          · obtain rfl := List.mem_singleton.mp new
            exact .inr ⟨size, found, Nat.le_of_not_lt small, rfl⟩
        · right
          by_cases again : record.1 = id
          · rw [again, AList.lookup_erase] at held
            cases held
          · rw [AList.lookup_erase_ne again] at held
            exact ⟨other, held, long, same⟩

/-- A node whose store holds one message of a hundred bytes, for the destination of zeros. -/
def mailboxNode : PropagationNode MemoryPropagationStore where
  store := ⟨AList.singleton (FixedBytes.replicate 32 1) ⟨0, 16, 1, List.replicate 100 0, by decide⟩, 200, 100, 1, by decide,
    by decide⟩
  config := ⟨0, 0, false, none, none⟩
  processed := ∅
  computeStampValue := false

/-- The message wanted, and nothing confirmed. -/
def fetchRequest : Bytes := [0x92, 0x91, 0xc4, 0x20] ++ List.replicate 32 1 ++ [0xc0]

/-- The answer to it, for what the client owns and a budget. -/
def mailboxFetch (owned : Owned) (budget : TransferBudget) : PreparedFetch :=
  let serving := serve ⟨owned, budget, [], 0, 0⟩ [FixedBytes.replicate 32 1]
  ⟨⟨serving.served, arrayHeaderLen serving.served.length + serving.payloadBytes, serving.servedBytes⟩, []⟩

theorem mailboxNode_answers :
    ∃ budget, (mailboxNode.prepareGet shortest fetchRequest (FixedBytes.replicate 16 0) 0).1 =
      .ok (.fetch (mailboxFetch (AList.singleton (FixedBytes.replicate 32 1) 100) budget)) := by
  have decoded : MessageGetRequest.decode shortest fetchRequest =
      .ok ⟨some [FixedBytes.replicate 32 1], none, none⟩ := rfl
  have listed : PropagationStore.forEach mailboxNode.store =
      .ok [⟨FixedBytes.replicate 32 1, FixedBytes.replicate 16 0, 100, 0, 16, 1⟩] := rfl
  have owned : ownedOf [FixedBytes.replicate 32 1]
      [⟨FixedBytes.replicate 32 1, FixedBytes.replicate 16 0, 100, 0, 16, 1⟩] =
      AList.singleton (FixedBytes.replicate 32 1) 100 := AList.ext (by decide)
  unfold PropagationNode.prepareGet
  rw [decoded, listed, ← owned]
  exact ⟨_, rfl⟩

theorem mailboxFetch_holds (budget : TransferBudget) :
    HoldsServed hundredBytes (mailboxFetch (AList.singleton (FixedBytes.replicate 32 1) 100) budget).plan := by
  have size : ∀ record ∈ (mailboxFetch (AList.singleton (FixedBytes.replicate 32 1) 100) budget).plan.served,
      record.2 = 68 := by
    intro record member
    rcases serve_record member with none | ⟨size, held, -, same⟩
    · cases none
    · have inside := AList.mem_lookup_iff.mp held
      obtain rfl : size = 100 := eq_of_heq (Sigma.mk.inj (List.mem_singleton.mp inside)).2
      exact same
  constructor
  · intro record member
    exact ⟨_, rfl, by rw [List.length_replicate, size record member]; rfl⟩
  · intro record member
    rw [size record member]
    decide

/-- One message in a sync, and without its stamp in a fetch. -/
theorem streamed_serving_is_encoding_single :
    SyncServes shortest [namedMessage 1 1] hundredBytes ⟨[FixedBytes.replicate 32 1], 1, 0, 0⟩ .all
      ⟨1, 1, 100, 113, 0, 1⟩ 0 ∧
    ∃ prepared, (mailboxNode.prepareGet shortest fetchRequest (FixedBytes.replicate 16 0) 0).1 = .ok (.fetch prepared) ∧
      FetchServes shortest hundredBytes prepared.plan := by
  have built : buildOffer freshPeer [namedMessage 1 1] (offerBudgetForMdu 431) =
      some ⟨[FixedBytes.replicate 32 1], 1, 0, 0⟩ := by decide
  have planned : planSyncBatch (.ok [namedMessage 1 1]) ⟨[FixedBytes.replicate 32 1], 1, 0, 0⟩ .all
      (fun _ _ _ => true) = .ok ⟨1, 1, 100, 113, 0, 1⟩ := by rfl
  have both := streamed_serving_is_encoding shortest_compact
  obtain ⟨budget, ready⟩ := mailboxNode_answers
  exact ⟨both.1 0 built planned (holds_hundredBytes 1 1), _, ready, both.2 ready (mailboxFetch_holds budget)⟩

end Leviculum.Propagation
