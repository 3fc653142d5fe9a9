import Leviculum.Lib.Execution
import Leviculum.Resource.SenderSpec
import Leviculum.Resource.ReceiverSpec

/-! The hashmap as the receiver learns it, segment by segment: always a beginning of the
sender's. -/

namespace Leviculum.Resource

open Blocks

/-- The first `height` entries are known, as the sender has them, and no other is. -/
structure Knows (keys : List MapHash) (height : Nat) (hashmap : List (Option MapHash)) : Prop where
  length : hashmap.length = keys.length
  le : height ≤ keys.length
  entry : ∀ i < keys.length, hashmap[i]? = some (if i < height then keys[i]? else none)

namespace Knows

variable {keys : List MapHash} {height : Nat} {hashmap : List (Option MapHash)}

theorem initial (keys : List MapHash) {height : Nat} (le : height ≤ keys.length) :
    Knows keys height ((keys.take height).map some ++ List.replicate (keys.length - height) none) where
  length := by
    rw [List.length_append, List.length_map, List.length_take, List.length_replicate]
    omega
  le := le
  entry := by
    intro i inside
    have taken : ((keys.take height).map some).length = height := by
      rw [List.length_map, List.length_take]
      omega
    by_cases known : i < height
    · rw [List.getElem?_append_left (by omega), List.getElem?_map, List.getElem?_take_of_lt known,
        if_pos known, List.getElem?_eq_getElem inside]
      rfl
    · rw [List.getElem?_append_right (by omega), if_neg known,
        List.getElem?_replicate_of_lt (by omega)]

theorem getElem?_of_lt (knows : Knows keys height hashmap) {i : Nat} (known : i < height) :
    hashmap[i]? = some keys[i]? := by
  rw [knows.entry i (Nat.lt_of_lt_of_le known knows.le), if_pos known]

theorem lt_of_known (knows : Knows keys height hashmap) {i : Nat} {mh : MapHash}
    (known : hashmap[i]? = some (some mh)) : i < height ∧ keys[i]? = some mh := by
  have inside : i < keys.length := by
    by_contra outside
    rw [List.getElem?_eq_none (by rw [knows.length]; omega)] at known
    cases known
  rw [knows.entry i inside, Option.some.injEq] at known
  by_cases low : i < height
  · rw [if_pos low] at known
    exact ⟨low, known⟩
  · rw [if_neg low] at known
    cases known

theorem set (knows : Knows keys height hashmap) {idx : Nat} {mh : MapHash} (below : idx ≤ height)
    (key : keys[idx]? = some mh) :
    Knows keys (max height (idx + 1)) (hashmap.set idx (some mh)) := by
  have inside : idx < keys.length := (List.getElem?_eq_some_iff.mp key).1
  refine ⟨by rw [List.length_set, knows.length], by have := knows.le; omega, ?_⟩
  intro i short
  by_cases same : i = idx
  · subst same
    rw [List.getElem?_set_self (by rw [knows.length]; exact short), if_pos (by omega), key]
  · rw [List.getElem?_set_ne (Ne.symm same), knows.entry i short]
    by_cases low : i < height
    · rw [if_pos low, if_pos (by omega)]
    · rw [if_neg low, if_neg (by omega)]

end Knows

namespace IncomingResource

theorem fillHashmap_knows {keys entries : List MapHash} {idx height : Nat}
    {hashmap : List (Option MapHash)} (knows : Knows keys height hashmap) (below : idx ≤ height)
    (segment : ∀ j < entries.length, keys[idx + j]? = entries[j]?) :
    Knows keys (fillHashmap entries idx (hashmap, height)).2
        (fillHashmap entries idx (hashmap, height)).1 ∧
      (fillHashmap entries idx (hashmap, height)).2 = max height (idx + entries.length) := by
  induction entries generalizing idx height hashmap with
  | nil => exact ⟨knows, by simp only [fillHashmap, List.length_nil]; omega⟩
  | cons entry entries ih =>
    have key : keys[idx]? = some entry := by
      simpa using segment 0 (by rw [List.length_cons]; omega)
    have inside : idx < keys.length := (List.getElem?_eq_some_iff.mp key).1
    have slot := knows.entry idx inside
    have next := knows.set below key
    have counted : (if (if idx < height then keys[idx]? else none).isNone then height + 1 else height) =
        max height (idx + 1) := by
      by_cases low : idx < height
      · rw [if_pos low, key, Option.isNone_some, if_neg (by decide)]
        omega
      · rw [if_neg low, Option.isNone_none, if_pos rfl]
        omega
    unfold fillHashmap
    rw [slot]
    dsimp only
    rw [counted]
    have less : idx + 1 ≤ max height (idx + 1) := Nat.le_max_right _ _
    obtain ⟨known, high⟩ := ih next less (by
      intro j short
      have later := segment (j + 1) (by rw [List.length_cons]; omega)
      rw [List.getElem?_cons_succ] at later
      rw [← later]
      congr 1
      omega)
    refine ⟨known, ?_⟩
    rw [high, List.length_cons]
    omega

theorem handleHashmapUpdate_spec {keys : List MapHash} {r : IncomingResource}
    (knows : Knows keys r.hashmapHeight r.hashmap) {update : HashmapUpdate}
    (below : update.segment * hashmapMaxLen ≤ r.hashmapHeight)
    (segment : ∀ j < update.entries.length,
      keys[update.segment * hashmapMaxLen + j]? = update.entries[j]?) (nowMs : Nat) :
    (∃ error, r.handleHashmapUpdate nowMs update = (.error error, r)) ∨
      ∃ req r' middle, r.handleHashmapUpdate nowMs update = (.ok req, r') ∧
        Evolves middle (some req) r' ∧ middle.toInbound = r.toInbound ∧ middle.parts = r.parts ∧
        middle.windowState = r.windowState ∧
        middle.consecutiveCompletedHeight = r.consecutiveCompletedHeight ∧
        Knows keys middle.hashmapHeight middle.hashmap ∧
        middle.hashmapHeight =
          max r.hashmapHeight (update.segment * hashmapMaxLen + update.entries.length) := by
  unfold handleHashmapUpdate
  split_ifs
  · exact .inl ⟨_, rfl⟩
  · exact .inl ⟨_, rfl⟩
  · exact .inl ⟨_, rfl⟩
  · obtain ⟨known, high⟩ := fillHashmap_knows knows below segment
    refine .inr ⟨_, _, { r with
      hashmap := (fillHashmap update.entries (update.segment * hashmapMaxLen)
        (r.hashmap, r.hashmapHeight)).1
      hashmapHeight := (fillHashmap update.entries (update.segment * hashmapMaxLen)
        (r.hashmap, r.hashmapHeight)).2
      waitingForHmu := false
      retries := 0 }, rfl, ?_, rfl, rfl, rfl, rfl, known, high⟩
    exact Evolves.of_build (Keeps.refl _) (Keeps.of_eq rfl rfl rfl rfl rfl rfl) rfl

theorem advanceHeight_replicate_none (count height : Nat) :
    advanceHeight (List.replicate count none) height = height := by
  cases count <;> rfl

/-- The receiver an advertisement makes knows its first segment and has nothing else. -/
structure Fresh (keys : List MapHash) (adv : ResourceAdvertisement) (sdu : Nat)
    (policy : WindowPolicy) (r : IncomingResource) (req : PartRequest) : Prop where
  built : req = r.requestOf
  inbound : r.toInbound =
    { flags := adv.flags, resourceHash := adv.resourceHash, randomHash := adv.randomHash,
      transferSize := adv.transferSize, dataSize := adv.dataSize, numParts := keys.length,
      segmentIndex := adv.segmentIndex, windowPolicy := policy }
  status : r.status = .transferring
  parts : r.parts = List.replicate keys.length none
  knows : Knows keys r.hashmapHeight r.hashmap
  height : r.hashmapHeight = min hashmapMaxLen keys.length
  completed : r.consecutiveCompletedHeight = 0
  bounded : r.windowState.Bounded
  outstanding : r.outstandingParts = r.asking.1.length
  sdu : r.sdu = sdu
  smallerSdu : r.smallerSdu = none

theorem sdu_pos_of_accepted {adv : ResourceAdvertisement} {sdu nowMs maxSize : Nat}
    {policy : WindowPolicy} {outcome : IncomingResource × PartRequest}
    (accepted : fromAdvertisement adv sdu nowMs maxSize policy = .ok outcome) : 0 < sdu := by
  unfold fromAdvertisement at accepted
  dsimp only at accepted
  split_ifs at accepted with _ _ zero
  omega

theorem fromAdvertisement_spec {keys : List MapHash} {adv : ResourceAdvertisement}
    {sdu nowMs maxSize : Nat} {policy : WindowPolicy} {r : IncomingResource} {req : PartRequest}
    (count : divCeil adv.transferSize sdu = keys.length)
    (first : adv.hashmapData = keys.take hashmapMaxLen)
    (accepted : fromAdvertisement adv sdu nowMs maxSize policy = .ok (r, req)) :
    Fresh keys adv sdu policy r req := by
  unfold fromAdvertisement at accepted
  dsimp only at accepted
  split_ifs at accepted
  rw [Except.ok.injEq, Prod.mk.injEq] at accepted
  obtain ⟨rfl, rfl⟩ := accepted
  have taken : (adv.hashmapData.take (divCeil adv.transferSize sdu)) =
      keys.take (min hashmapMaxLen keys.length) := by
    rw [count, first, List.take_take, Nat.min_comm]
  have size : (adv.hashmapData.take (divCeil adv.transferSize sdu)).length =
      min hashmapMaxLen keys.length := by
    rw [taken, List.length_take]
    omega
  have known := Knows.initial keys (Nat.min_le_right hashmapMaxLen keys.length)
  have still := advanceHeight_replicate_none (divCeil adv.transferSize sdu) 0
  refine ⟨rfl, ?_, rfl, ?_, ?_, size, still, WindowState.bounded_new, rfl, rfl, rfl⟩
  · simp only [buildRequest, count]
  · simp only [buildRequest, count]
  · show Knows keys (adv.hashmapData.take (divCeil adv.transferSize sdu)).length
      ((adv.hashmapData.take (divCeil adv.transferSize sdu)).map some ++
        List.replicate (divCeil adv.transferSize sdu -
          (adv.hashmapData.take (divCeil adv.transferSize sdu)).length) none)
    rw [size, taken, count]
    exact known

end IncomingResource

end Leviculum.Resource

/-! A sender, the receiver of its advertisement, and the packets between them. A packet in
flight is lost when no event delivers it, overtaken when a later one is delivered first, and
duplicated when it stays in flight after its delivery. -/

namespace Leviculum.Resource

open Spacing

/-- A REQ in flight, with where the receiver stood when it built it. -/
structure Asked where
  /-- How many REQs were built before. -/
  serial : Nat
  height : Nat
  indices : List Nat
  req : PartRequest

structure System where
  sender : OutgoingResource
  receiver : IncomingResource
  requests : List Asked
  /-- Copies of parts in flight, by their index. -/
  parts : List Nat
  updates : List HashmapUpdate
  /-- How many REQs the receiver has built. -/
  built : Nat
  /-- The greatest height of an exhausted REQ the sender looked up. -/
  reached : Nat

inductive Event where
  | request (k : Nat) (again linkActive : Bool) (nowMs : Nat)
  | part (k : Nat) (again : Bool) (nowMs : Nat)
  | update (k : Nat) (again : Bool) (nowMs : Nat)
  | advertisement (nowMs : Nat)
  | pollReceiver (nowMs rttMs turnaroundMs acquisitionMs : Nat)
  | pollSender (nowMs rttMs : Nat)

def Packet.update? : Packet → Option HashmapUpdate
  | .resource _ => none
  | .resourceHmu update => some update

/-- What is in flight after the delivery of one of `packets`. -/
def leaving {α : Type} (again : Bool) (packets : List α) (k : Nat) : List α :=
  if again then packets else packets.eraseIdx k

theorem mem_of_mem_leaving {α : Type} {again : Bool} {packets : List α} {k : Nat} {packet : α}
    (member : packet ∈ leaving again packets k) : packet ∈ packets := by
  unfold leaving at member
  split at member
  · exact member
  · exact List.mem_of_mem_eraseIdx member

namespace System

/-- The receiver has moved on, with a REQ to send or without. -/
def received (s : System) (sent : Option PartRequest) (receiver : IncomingResource) : System :=
  match sent with
  | none => { s with receiver := receiver }
  | some req =>
    { s with
      receiver := receiver
      requests := s.requests ++ [⟨s.built, receiver.hashmapHeight, receiver.asking.1.map Prod.fst, req⟩]
      built := s.built + 1 }

/-- The sender has handled a REQ. -/
def answered (s : System) (asked : Asked) (linkActive : Bool)
    (outcome : Except ResourceError (List Packet) × OutgoingResource) : System :=
  let reached :=
    if s.sender.LooksUp asked.req linkActive then max s.reached asked.height else s.reached
  match outcome.1 with
  | .error _ => { s with sender := outcome.2, reached := reached }
  | .ok packets =>
    { s with
      sender := outcome.2
      parts := s.parts ++ s.sender.matching asked.req
      updates := s.updates ++ packets.filterMap Packet.update?
      reached := reached }

def step (P : Primitives) (s : System) : Event → Option System
  | .request k again linkActive nowMs =>
    (s.requests[k]?).map fun asked =>
      { s with requests := leaving again s.requests k }.answered asked linkActive
        (s.sender.handleRequest asked.req linkActive nowMs)
  | .part k again nowMs =>
    (s.parts[k]?).map fun i =>
      let outcome := s.receiver.receivePart P (s.sender.parts.getD i []) nowMs
      { s with parts := leaving again s.parts k }.received outcome.1.sent outcome.2
  | .update k again nowMs =>
    (s.updates[k]?).map fun update =>
      let outcome := s.receiver.handleHashmapUpdate nowMs update
      { s with updates := leaving again s.updates k }.received outcome.1.toOption outcome.2
  | .advertisement nowMs =>
    let outcome := s.receiver.requestAgainForReadvertisement s.sender.advertisement.resourceHash nowMs
    some (s.received outcome.1 outcome.2)
  | .pollReceiver nowMs rttMs turnaroundMs acquisitionMs =>
    let outcome := s.receiver.poll nowMs rttMs turnaroundMs acquisitionMs
    some (s.received outcome.1.sent outcome.2)
  | .pollSender nowMs rttMs => some { s with sender := (s.sender.poll nowMs rttMs).2 }

def start (sender : OutgoingResource) (receiver : IncomingResource) (req : PartRequest) : System where
  sender := sender
  receiver := receiver
  requests := [⟨0, receiver.hashmapHeight, receiver.asking.1.map Prod.fst, req⟩]
  parts := []
  updates := []
  built := 1
  reached := 0

end System

structure Placed (keys : List MapHash) (r : IncomingResource) : Prop where
  count : r.numParts = keys.length
  stored : r.parts.length = keys.length
  knows : Knows keys r.hashmapHeight r.hashmap
  segment : r.hashmapHeight = keys.length ∨ hashmapMaxLen ∣ r.hashmapHeight
  positive : 0 < keys.length → 0 < r.hashmapHeight
  completed : r.consecutiveCompletedHeight ≤ keys.length
  bounded : r.windowState.Bounded

/-- What a REQ says of a receiver that may have moved on since. -/
structure Asked.Sound (keys : List MapHash) (r : IncomingResource) (asked : Asked) : Prop where
  resourceHash : asked.req.resourceHash = r.resourceHash
  height : asked.height ≤ r.hashmapHeight
  lastKnown : ∀ mh, asked.req.lastMapHash = some mh →
    0 < asked.height ∧ keys[asked.height - 1]? = some mh
  segment : asked.req.lastMapHash.isSome → hashmapMaxLen ∣ asked.height
  unfinished : asked.req.lastMapHash.isSome → asked.height < keys.length
  completed : asked.req.lastMapHash.isSome →
    asked.height < r.consecutiveCompletedHeight + windowMaxFast

/-- A segment of the sender's hashmap that joins on to what the receiver knows. -/
structure HashmapUpdate.Joins (keys : List MapHash) (height : Nat) (update : HashmapUpdate) : Prop where
  below : update.segment * hashmapMaxLen ≤ height
  entries : update.entries = (keys.drop (update.segment * hashmapMaxLen)).take hashmapMaxLen

theorem HashmapUpdate.Joins.segment {keys : List MapHash} {height : Nat} {update : HashmapUpdate}
    (joins : update.Joins keys height) :
    ∀ j < update.entries.length,
      keys[update.segment * hashmapMaxLen + j]? = update.entries[j]? := by
  intro j short
  rw [joins.entries, List.length_take] at short
  rw [joins.entries, List.getElem?_take_of_lt (by omega), List.getElem?_drop]

theorem HashmapUpdate.Joins.reach_eq {keys : List MapHash} {height : Nat} {update : HashmapUpdate}
    (joins : update.Joins keys height) (le : height ≤ keys.length) :
    update.segment * hashmapMaxLen + update.entries.length =
      min ((update.segment + 1) * hashmapMaxLen) keys.length := by
  have below := joins.below
  rw [joins.entries, List.length_take, List.length_drop, Nat.succ_mul]
  omega

theorem Asked.Sound.mono {keys : List MapHash} {r r' : IncomingResource} {asked : Asked}
    (sound : asked.Sound keys r) (same : r'.resourceHash = r.resourceHash)
    (height : r.hashmapHeight ≤ r'.hashmapHeight)
    (completed : r.consecutiveCompletedHeight ≤ r'.consecutiveCompletedHeight) :
    asked.Sound keys r' where
  resourceHash := sound.resourceHash.trans same.symm
  height := Nat.le_trans sound.height height
  lastKnown := sound.lastKnown
  segment := sound.segment
  unfinished := sound.unfinished
  completed := fun exhausted =>
    Nat.lt_of_lt_of_le (sound.completed exhausted) (Nat.add_le_add_right completed _)

theorem Placed.keeps {keys : List MapHash} {r r' : IncomingResource} (placed : Placed keys r)
    (keeps : r.Keeps r') : Placed keys r' where
  count := keeps.numParts.trans placed.count
  stored := keeps.partsLength.trans placed.stored
  knows := by
    rw [keeps.hashmap, keeps.height]
    exact placed.knows
  segment := by
    rw [keeps.height]
    exact placed.segment
  positive := by
    rw [keeps.height]
    exact placed.positive
  completed := by
    rw [← placed.stored]
    exact keeps.completedLe (placed.stored ▸ placed.completed)
  bounded := keeps.bounded placed.bounded

/-- A REQ built by a receiver in its place is exhausted at the end of a hashmap segment, with
the window reaching past it. -/
theorem Placed.requestOf_sound {keys : List MapHash} {r : IncomingResource} (placed : Placed keys r)
    (serial : Nat) : Asked.Sound keys r ⟨serial, r.hashmapHeight, r.asking.1.map Prod.fst, r.requestOf⟩ := by
  have unknown : r.requestOf.lastMapHash.isSome →
      r.hashmapHeight < keys.length ∧
        r.hashmapHeight < r.consecutiveCompletedHeight + r.windowState.window := by
    intro exhausted
    have met : r.asking.2 = true := by
      by_contra calm
      rw [IncomingResource.requestOf, if_neg calm] at exhausted
      cases exhausted
    obtain ⟨i, inside, short, missing⟩ := IncomingResource.asking_exhausted met
    rw [placed.count] at short
    have above : ¬ i < r.hashmapHeight := by
      intro below
      rw [placed.knows.getElem?_of_lt below, List.getElem?_eq_getElem short] at missing
      cases missing
    omega
  refine ⟨rfl, Nat.le_refl _, ?_, ?_, fun exhausted => (unknown exhausted).1, ?_⟩
  · intro mh named
    have exhausted : r.requestOf.lastMapHash.isSome := by
      rw [named]
      rfl
    have room := (unknown exhausted).1
    have positive := placed.positive (by omega)
    refine ⟨positive, ?_⟩
    show keys[r.hashmapHeight - 1]? = some mh
    rw [IncomingResource.requestOf] at named
    dsimp only at named
    split at named
    next =>
      rw [Option.some.injEq] at named
      rw [← named, IncomingResource.lastKnownHash, if_pos positive,
        placed.knows.getElem?_of_lt (by omega), List.getElem?_eq_getElem (by omega)]
      rfl
    next => cases named
  · intro exhausted
    have room := (unknown exhausted).1
    rcases placed.segment with full | whole
    · omega
    · exact whole
  · intro exhausted
    have room := (unknown exhausted).2
    have small := placed.bounded.1
    show r.hashmapHeight < _
    omega

/-- Both ends agree on where the receiver is, as far as parts and hashmap go. -/
structure System.Aligned (s : System) : Prop where
  spaced : DistinctWithin collisionGuardSize s.sender.hashmap
  sameResource : s.receiver.resourceHash = s.sender.resourceHash
  placed : Placed s.sender.hashmap s.receiver
  behind : s.sender.receiverMinConsecutiveHeight ≤ s.receiver.consecutiveCompletedHeight
  requests : ∀ asked ∈ s.requests, asked.Sound s.sender.hashmap s.receiver
  updates : ∀ update ∈ s.updates, update.Joins s.sender.hashmap s.receiver.hashmapHeight

/-- The sender has not moved its search window past the last hash of an exhausted REQ it
handles. -/
def System.Unpassed (s : System) : Event → Prop
  | .request k _ linkActive _ =>
    ∀ asked, s.requests[k]? = some asked → s.sender.LooksUp asked.req linkActive →
      s.sender.receiverMinConsecutiveHeight < asked.height
  | _ => True

namespace System

theorem Aligned.received {s : System} (aligned : s.Aligned) {sent : Option PartRequest}
    {r' : IncomingResource} (evolves : s.receiver.Evolves sent r') : (s.received sent r').Aligned := by
  have keeps := evolves.keeps
  have placed := aligned.placed.keeps keeps
  have same : r'.resourceHash = s.receiver.resourceHash :=
    congrArg Inbound.resourceHash keeps.inbound
  have old : ∀ asked ∈ s.requests, asked.Sound s.sender.hashmap r' := fun asked member =>
    (aligned.requests asked member).mono same (Nat.le_of_eq keeps.height.symm) keeps.completed
  have behind := Nat.le_trans aligned.behind keeps.completed
  have updates : ∀ update ∈ s.updates, update.Joins s.sender.hashmap r'.hashmapHeight := by
    rw [keeps.height]
    exact aligned.updates
  cases sent with
  | none => exact ⟨aligned.spaced, same.trans aligned.sameResource, placed, behind, old, updates⟩
  | some req =>
    refine ⟨aligned.spaced, same.trans aligned.sameResource, placed, behind, ?_, updates⟩
    intro asked member
    rcases List.mem_append.mp member with earlier | new
    · exact old asked earlier
    · rw [List.mem_singleton.mp new, evolves.built req rfl]
      exact placed.requestOf_sound s.built

theorem Aligned.fewer {s : System} (aligned : s.Aligned) {requests : List Asked}
    {parts : List Nat} {updates : List HashmapUpdate}
    (rest : ∀ asked ∈ requests, asked ∈ s.requests)
    (rest' : ∀ update ∈ updates, update ∈ s.updates) :
    { s with requests := requests, parts := parts, updates := updates }.Aligned :=
  ⟨aligned.spaced, aligned.sameResource, aligned.placed, aligned.behind,
    fun asked member => aligned.requests asked (rest asked member),
    fun update member => aligned.updates update (rest' update member)⟩

theorem Aligned.partIndex_le {s : System} (aligned : s.Aligned) {asked : Asked} {mh : MapHash}
    (sound : asked.Sound s.sender.hashmap s.receiver) (named : asked.req.lastMapHash = some mh)
    (unpassed : s.sender.receiverMinConsecutiveHeight < asked.height) :
    s.sender.partIndex mh ≤ asked.height := by
  obtain ⟨positive, entry⟩ := sound.lastKnown mh named
  have after : s.sender.receiverMinConsecutiveHeight ≤ asked.height - 1 := by omega
  have stop := aligned.spaced.scanPast_le_position entry after
  unfold OutgoingResource.partIndex
  omega

theorem joins_hashmapSegment {sender : OutgoingResource} {height index : Nat} (le : index ≤ height) :
    (sender.hashmapSegment (index / hashmapMaxLen)).Joins sender.hashmap height where
  below := Nat.le_trans (Nat.div_mul_le_self index hashmapMaxLen) le
  entries := rfl

theorem updates_of_answer (sender : OutgoingResource) (req : PartRequest) :
    (sender.answer req).filterMap Packet.update? =
      (req.lastMapHash.map (fun mh =>
        sender.hashmapSegment (sender.partIndex mh / hashmapMaxLen))).toList := by
  have parts : ((sender.matching req).map
      (fun i => Packet.resource (sender.parts.getD i []))).filterMap Packet.update? = [] := by
    rw [List.filterMap_map]
    exact List.filterMap_eq_nil_iff.mpr (fun _ _ => rfl)
  unfold OutgoingResource.answer
  rw [List.filterMap_append, parts, List.nil_append]
  cases req.lastMapHash <;> rfl

theorem Aligned.answered {s : System} (aligned : s.Aligned) {asked : Asked}
    (sound : asked.Sound s.sender.hashmap s.receiver) {linkActive : Bool} (nowMs : Nat)
    (unpassed : s.sender.LooksUp asked.req linkActive →
      s.sender.receiverMinConsecutiveHeight < asked.height) :
    (s.answered asked linkActive (s.sender.handleRequest asked.req linkActive nowMs)).Aligned := by
  rcases s.sender.handleRequest_cases asked.req linkActive nowMs with
    ⟨error, refused, -⟩ | ⟨result, sender', handled, frame, outcome, moved⟩
  · rw [refused]
    exact ⟨aligned.spaced, aligned.sameResource, aligned.placed, aligned.behind, aligned.requests,
      aligned.updates⟩
  · have hashmap : sender'.hashmap = s.sender.hashmap := congrArg Outbound.hashmap frame
    have same : sender'.resourceHash = s.sender.resourceHash := congrArg Outbound.resourceHash frame
    have behind : sender'.receiverMinConsecutiveHeight ≤ s.receiver.consecutiveCompletedHeight := by
      rcases moved with ⟨still, -, -⟩ | ⟨mh, named, looksUp, moved⟩
      · rw [still]
        exact aligned.behind
      · have stop := aligned.partIndex_le sound named (unpassed looksUp)
        have window := sound.completed (by rw [named]; rfl)
        rw [moved]
        omega
    have update : ∀ update ∈ (s.sender.answer asked.req).filterMap Packet.update?,
        result = .ok (s.sender.answer asked.req) →
        update.Joins s.sender.hashmap s.receiver.hashmapHeight := by
      intro update member answered
      rw [updates_of_answer, Option.mem_toList, Option.map_eq_some_iff] at member
      obtain ⟨mh, named, rfl⟩ := member
      have looksUp : s.sender.LooksUp asked.req linkActive := by
        rcases moved with ⟨-, -, none | inactive⟩ | ⟨-, -, looksUp, -⟩
        · rw [named] at none
          cases none
        · rw [answered] at inactive
          cases inactive
        · exact looksUp
      exact joins_hashmapSegment
        (Nat.le_trans (aligned.partIndex_le sound named (unpassed looksUp)) sound.height)
    rw [handled]
    rcases outcome with rfl | rfl
    · refine ⟨hashmap ▸ aligned.spaced, aligned.sameResource.trans same.symm,
        hashmap ▸ aligned.placed, behind, hashmap ▸ aligned.requests, ?_⟩
      intro u member
      show u.Joins sender'.hashmap s.receiver.hashmapHeight
      rw [hashmap]
      rcases List.mem_append.mp member with old | new
      · exact aligned.updates u old
      · exact update u new rfl
    · exact ⟨hashmap ▸ aligned.spaced, aligned.sameResource.trans same.symm,
        hashmap ▸ aligned.placed, behind, hashmap ▸ aligned.requests, hashmap ▸ aligned.updates⟩

/-- The receiver has learned one more segment, or knew it already. -/
theorem Aligned.learned {s : System} (aligned : s.Aligned) {update : HashmapUpdate}
    (joins : update.Joins s.sender.hashmap s.receiver.hashmapHeight) {middle : IncomingResource}
    (inbound : middle.toInbound = s.receiver.toInbound) (parts : middle.parts = s.receiver.parts)
    (window : middle.windowState = s.receiver.windowState)
    (completed : middle.consecutiveCompletedHeight = s.receiver.consecutiveCompletedHeight)
    (knows : Knows s.sender.hashmap middle.hashmapHeight middle.hashmap)
    (height : middle.hashmapHeight =
      max s.receiver.hashmapHeight (update.segment * hashmapMaxLen + update.entries.length)) :
    { s with receiver := middle }.Aligned := by
  have placed := aligned.placed
  have same : middle.resourceHash = s.receiver.resourceHash :=
    congrArg Inbound.resourceHash inbound
  have higher : s.receiver.hashmapHeight ≤ middle.hashmapHeight := by omega
  have reach := joins.reach_eq placed.knows.le
  have whole : hashmapMaxLen ∣ (update.segment + 1) * hashmapMaxLen := Nat.dvd_mul_left _ _
  refine ⟨aligned.spaced, same.trans aligned.sameResource, ?_, ?_, ?_, ?_⟩
  · refine ⟨(congrArg Inbound.numParts inbound).trans placed.count,
      (congrArg List.length parts).trans placed.stored, knows, ?_, ?_, ?_, ?_⟩
    · show middle.hashmapHeight = s.sender.hashmap.length ∨ hashmapMaxLen ∣ middle.hashmapHeight
      rw [reach] at height
      rcases Nat.le_total ((update.segment + 1) * hashmapMaxLen) s.sender.hashmap.length with
        short | long
      · rw [Nat.min_eq_left short] at height
        rcases Nat.le_total ((update.segment + 1) * hashmapMaxLen) s.receiver.hashmapHeight with
          known | new
        · rw [height, Nat.max_eq_left known]
          exact placed.segment
        · rw [height, Nat.max_eq_right new]
          exact .inr whole
      · rw [Nat.min_eq_right long, Nat.max_eq_right placed.knows.le] at height
        exact .inl height
    · exact fun positive => Nat.lt_of_lt_of_le (placed.positive positive) higher
    · show middle.consecutiveCompletedHeight ≤ s.sender.hashmap.length
      rw [completed]
      exact placed.completed
    · show middle.windowState.Bounded
      rw [window]
      exact placed.bounded
  · show s.sender.receiverMinConsecutiveHeight ≤ middle.consecutiveCompletedHeight
    rw [completed]
    exact aligned.behind
  · intro asked member
    exact (aligned.requests asked member).mono same higher (Nat.le_of_eq completed.symm)
  · intro u member
    have before := aligned.updates u member
    exact ⟨Nat.le_trans before.below higher, before.entries⟩

theorem received_receiver (s : System) (middle : IncomingResource) (sent : Option PartRequest)
    (r' : IncomingResource) : { s with receiver := middle }.received sent r' = s.received sent r' := by
  cases sent <;> rfl

theorem Aligned.updated {s : System} (aligned : s.Aligned) {update : HashmapUpdate}
    (joins : update.Joins s.sender.hashmap s.receiver.hashmapHeight) (nowMs : Nat) :
    (s.received (s.receiver.handleHashmapUpdate nowMs update).1.toOption
      (s.receiver.handleHashmapUpdate nowMs update).2).Aligned := by
  rcases IncomingResource.handleHashmapUpdate_spec aligned.placed.knows joins.below joins.segment
    nowMs with ⟨error, refused⟩ | ⟨req, r', middle, handled, evolves, inbound, parts, window, completed,
      knows, height⟩
  · rw [refused]
    exact aligned
  · rw [handled]
    have learned := aligned.learned joins inbound parts window completed knows height
    have after := Aligned.received learned evolves
    rw [received_receiver] at after
    exact after

theorem Aligned.step {P : Primitives} {s s' : System} {e : Event} (aligned : s.Aligned)
    (unpassed : s.Unpassed e) (stepped : step P s e = some s') : s'.Aligned := by
  cases e with
  | request k again linkActive nowMs =>
    obtain ⟨asked, found, rfl⟩ := Option.map_eq_some_iff.mp stepped
    have fewer : { s with requests := leaving again s.requests k }.Aligned :=
      aligned.fewer (fun _ member => mem_of_mem_leaving member) (fun _ member => member)
    exact fewer.answered (aligned.requests asked (List.mem_of_getElem? found)) nowMs
      (unpassed asked found)
  | part k again nowMs =>
    obtain ⟨i, found, rfl⟩ := Option.map_eq_some_iff.mp stepped
    have fewer : { s with parts := leaving again s.parts k }.Aligned :=
      aligned.fewer (fun _ member => member) (fun _ member => member)
    exact fewer.received (IncomingResource.evolves_receivePart P s.receiver _ nowMs)
  | update k again nowMs =>
    obtain ⟨update, found, rfl⟩ := Option.map_eq_some_iff.mp stepped
    have fewer : { s with updates := leaving again s.updates k }.Aligned :=
      aligned.fewer (fun _ member => member) (fun _ member => mem_of_mem_leaving member)
    exact fewer.updated (aligned.updates update (List.mem_of_getElem? found)) nowMs
  | advertisement nowMs =>
    obtain rfl := Option.some.inj stepped
    exact aligned.received (IncomingResource.evolves_requestAgain s.receiver _ nowMs)
  | pollReceiver nowMs rttMs turnaroundMs acquisitionMs =>
    obtain rfl := Option.some.inj stepped
    exact aligned.received (IncomingResource.evolves_poll s.receiver nowMs rttMs turnaroundMs
      acquisitionMs)
  | pollSender nowMs rttMs =>
    obtain rfl := Option.some.inj stepped
    obtain ⟨frame, still⟩ := s.sender.poll_frame nowMs rttMs
    have hashmap := congrArg Outbound.hashmap frame
    have same := congrArg Outbound.resourceHash frame
    exact ⟨hashmap ▸ aligned.spaced, aligned.sameResource.trans same.symm, hashmap ▸ aligned.placed,
      still ▸ aligned.behind, hashmap ▸ aligned.requests, hashmap ▸ aligned.updates⟩

theorem aligned_start {P : Primitives} {options : SendOptions} {mtu : Nat} {key : TokenKey}
    {draws : Draws} {sender : OutgoingResource} (built : BuiltFrom P options mtu key draws sender)
    {sdu : Nat} {policy : WindowPolicy} {receiver : IncomingResource} {req : PartRequest}
    (fresh : IncomingResource.Fresh sender.hashmap sender.advertisement sdu policy receiver req) :
    (start sender receiver req).Aligned := by
  have count : receiver.numParts = sender.hashmap.length := congrArg Inbound.numParts fresh.inbound
  have same : receiver.resourceHash = sender.resourceHash :=
    (congrArg Inbound.resourceHash fresh.inbound).trans built.advertised_resourceHash
  have placed : Placed sender.hashmap receiver := by
    refine ⟨count, by rw [fresh.parts, List.length_replicate], fresh.knows, ?_, ?_, ?_,
      fresh.bounded⟩
    · rw [fresh.height]
      rcases Nat.le_total hashmapMaxLen sender.hashmap.length with long | short
      · rw [Nat.min_eq_left long]
        exact .inr (Nat.dvd_refl _)
      · exact .inl (Nat.min_eq_right short)
    · intro positive
      have segment : 0 < hashmapMaxLen := by decide
      rw [fresh.height]
      omega
    · rw [fresh.completed]
      exact Nat.zero_le _
  refine ⟨built.spaced, same, placed, ?_, ?_, ?_⟩
  · show sender.receiverMinConsecutiveHeight ≤ _
    rw [built.height]
    exact Nat.zero_le _
  · intro asked member
    rw [List.mem_singleton.mp member, fresh.built]
    exact placed.requestOf_sound 0
  · intro update member
    cases member

end System

end Leviculum.Resource
