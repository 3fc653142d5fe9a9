import Leviculum.Resource.Numbered
import Leviculum.Resource.Assembly
import Leviculum.Resource.Storing

/-! Every part is stored in its own place, the last one is always noticed, and what is assembled
is what was sent. -/

namespace Leviculum.Resource

open Spacing Execution

namespace System

/-- A copy of part `i` is not delivered once the receiver is more than 146 past it. -/
def Recent (s : System) : Event → Prop
  | .part k _ _ => ∀ i, s.parts[k]? = some i → s.receiver.consecutiveCompletedHeight ≤ i + 146
  | _ => True

instance (s : System) (e : Event) : Decidable (s.Unpassed e) := by
  unfold Unpassed
  cases e <;> infer_instance

instance (s : System) (e : Event) : Decidable (s.Recent e) := by
  unfold Recent
  cases e <;> infer_instance

/-- What a receiver has is what the sender cut, in its place. -/
structure Faithful (P : Primitives) (content : Outbound) (inbound : Inbound) (s : System) : Prop where
  aligned : s.Aligned
  hashes : s.sender.hashmap =
    s.sender.parts.map (fun part => P.mapHash part s.receiver.randomHash)
  sameContent : s.sender.toOutbound = content
  sameInbound : s.receiver.toInbound = inbound
  flight : ∀ i ∈ s.parts, i < s.receiver.consecutiveCompletedHeight + collisionGuardSize ∧
    i < s.sender.parts.length
  stored : ∀ (j : Nat) (data : Bytes),
    s.receiver.parts[j]? = some (some data) → s.sender.parts[j]? = some data
  counted : s.receiver.Counted

variable {P : Primitives} {content : Outbound} {inbound : Inbound} {s s' : System}

theorem Faithful.matchPart_eq (faithful : s.Faithful P content inbound) {i j : Nat}
    (flight : i ∈ s.parts) (recent : s.receiver.consecutiveCompletedHeight ≤ i + 146)
    (found : s.receiver.matchPart
      (P.mapHash (s.sender.parts.getD i []) s.receiver.randomHash) = some j) : j = i := by
  have placed := faithful.aligned.placed
  obtain ⟨near, short⟩ := faithful.flight i flight
  obtain ⟨low, high, -, known⟩ := IncomingResource.matchPart_eq_some found
  obtain ⟨-, key⟩ := placed.knows.lt_of_known known
  have own : s.sender.hashmap[i]? =
      some (P.mapHash (s.sender.parts.getD i []) s.receiver.randomHash) := by
    rw [faithful.hashes, List.getElem?_map, List.getD_eq_getElem?_getD,
      List.getElem?_eq_getElem short]
    rfl
  have window := placed.bounded.1
  simp only [collisionGuardSize, hashmapMaxLen, windowMaxFast, windowFlexibility] at *
  exact faithful.aligned.spaced.index_unique key own (by
    simp only [collisionGuardSize, hashmapMaxLen]
    omega) (by
    simp only [collisionGuardSize, hashmapMaxLen]
    omega)

theorem received_frame (s : System) (sent : Option PartRequest) (r' : IncomingResource) :
    (s.received sent r').receiver = r' ∧ (s.received sent r').sender = s.sender ∧
      (s.received sent r').parts = s.parts := by
  cases sent <;> exact ⟨rfl, rfl, rfl⟩

theorem Faithful.received (faithful : s.Faithful P content inbound) {sent : Option PartRequest}
    {r' : IncomingResource} (aligned : (s.received sent r').Aligned)
    (same : r'.toInbound = s.receiver.toInbound)
    (forward : s.receiver.consecutiveCompletedHeight ≤ r'.consecutiveCompletedHeight)
    (stored : ∀ (j : Nat) (data : Bytes),
      r'.parts[j]? = some (some data) → s.sender.parts[j]? = some data)
    (counted : r'.Counted) : (s.received sent r').Faithful P content inbound := by
  obtain ⟨receiver, sender, parts⟩ := received_frame s sent r'
  have salt : r'.randomHash = s.receiver.randomHash := congrArg Inbound.randomHash same
  refine ⟨aligned, ?_, ?_, ?_, ?_, ?_, ?_⟩
  · rw [receiver, sender, salt]
    exact faithful.hashes
  · rw [sender]
    exact faithful.sameContent
  · rw [receiver, same]
    exact faithful.sameInbound
  · rw [receiver, sender, parts]
    intro i member
    obtain ⟨near, short⟩ := faithful.flight i member
    exact ⟨by omega, short⟩
  · rw [receiver, sender]
    exact stored
  · rw [receiver]
    exact counted

theorem Faithful.fewer (faithful : s.Faithful P content inbound) {requests : List Asked}
    {parts : List Nat} {updates : List HashmapUpdate}
    (rest : ∀ asked ∈ requests, asked ∈ s.requests) (rest' : ∀ i ∈ parts, i ∈ s.parts)
    (rest'' : ∀ update ∈ updates, update ∈ s.updates) :
    { s with requests := requests, parts := parts, updates := updates }.Faithful P content inbound :=
  ⟨faithful.aligned.fewer rest rest'', faithful.hashes, faithful.sameContent, faithful.sameInbound,
    fun i member => faithful.flight i (rest' i member), faithful.stored, faithful.counted⟩

theorem Faithful.sent (faithful : s.Faithful P content inbound) (aligned : s'.Aligned)
    (receiver : s'.receiver = s.receiver) (frame : s'.sender.toOutbound = s.sender.toOutbound)
    (parts : ∀ i ∈ s'.parts, i ∈ s.parts ∨ i < s.receiver.consecutiveCompletedHeight +
      collisionGuardSize ∧ i < s.sender.parts.length) : s'.Faithful P content inbound := by
  have sameParts : s'.sender.parts = s.sender.parts := congrArg Outbound.parts frame
  have sameMap : s'.sender.hashmap = s.sender.hashmap := congrArg Outbound.hashmap frame
  refine ⟨aligned, ?_, frame.trans faithful.sameContent, receiver ▸ faithful.sameInbound, ?_, ?_,
    receiver ▸ faithful.counted⟩
  · rw [sameMap, sameParts, receiver]
    exact faithful.hashes
  · rw [sameParts, receiver]
    intro i member
    rcases parts i member with old | new
    · exact faithful.flight i old
    · exact new
  · rw [sameParts, receiver]
    exact faithful.stored

theorem Faithful.answered (faithful : s.Faithful P content inbound) {asked : Asked}
    {linkActive : Bool} {nowMs : Nat}
    (aligned : (s.answered asked linkActive
      (s.sender.handleRequest asked.req linkActive nowMs)).Aligned) :
    (s.answered asked linkActive
      (s.sender.handleRequest asked.req linkActive nowMs)).Faithful P content inbound := by
  have near : ∀ i ∈ s.sender.matching asked.req, i < s.receiver.consecutiveCompletedHeight +
      collisionGuardSize ∧ i < s.sender.parts.length := by
    intro i member
    obtain ⟨-, high, mh, -, entry⟩ := OutgoingResource.mem_matching.mp member
    have behind := faithful.aligned.behind
    have short := (List.getElem?_eq_some_iff.mp entry).1
    rw [faithful.hashes, List.length_map] at short
    exact ⟨by omega, short⟩
  rcases s.sender.handleRequest_cases asked.req linkActive nowMs with
    ⟨error, refused, -⟩ | ⟨result, sender', handled, frame, outcome, -⟩
  · rw [refused] at aligned ⊢
    exact faithful.sent aligned rfl rfl (fun i member => .inl member)
  · rw [handled] at aligned ⊢
    rcases outcome with rfl | rfl
    · refine faithful.sent aligned rfl frame ?_
      intro i member
      rcases List.mem_append.mp member with old | new
      · exact .inl old
      · exact .inr (near i new)
    · exact faithful.sent aligned rfl frame (fun i member => .inl member)

theorem Faithful.receivePart (faithful : s.Faithful P content inbound) {i : Nat}
    (flight : i ∈ s.parts) (recent : s.receiver.consecutiveCompletedHeight ≤ i + 146) (nowMs : Nat) :
    s.receiver.receivePart P (s.sender.parts.getD i []) nowMs = (.invalidPart, s.receiver) ∨
      s.receiver.parts[i]? = some none ∧
      (s.receiver.receivePart P (s.sender.parts.getD i []) nowMs).2.parts =
        s.receiver.parts.set i s.sender.parts[i]? ∧
      ((s.receiver.receivePart P (s.sender.parts.getD i []) nowMs).1 = .assembling ↔
        (s.receiver.receivePart P (s.sender.parts.getD i []) nowMs).2.missingParts = 0) ∧
      ((s.receiver.receivePart P (s.sender.parts.getD i []) nowMs).1 = .assembling →
        (s.receiver.receivePart P (s.sender.parts.getD i []) nowMs).2.status = .assembling) := by
  obtain ⟨-, refused | ⟨j, found, parts, reported, status⟩⟩ :=
    IncomingResource.receivePart_spec (P := P) (s.sender.parts.getD i []) nowMs faithful.counted
  · exact .inl refused
  · obtain ⟨-, -, missing, -⟩ := IncomingResource.matchPart_eq_some found
    obtain rfl := faithful.matchPart_eq flight recent found
    have own : some (s.sender.parts.getD j []) = s.sender.parts[j]? := by
      rw [List.getD_eq_getElem?_getD, List.getElem?_eq_getElem (faithful.flight j flight).2]
      rfl
    rw [own] at parts
    exact .inr ⟨missing, parts, reported, status⟩

theorem Faithful.step {e : Event} (faithful : s.Faithful P content inbound) (unpassed : s.Unpassed e)
    (recent : s.Recent e) (stepped : System.step P s e = some s') : s'.Faithful P content inbound := by
  have aligned := faithful.aligned.step unpassed stepped
  cases e with
  | request k again linkActive nowMs =>
    obtain ⟨asked, found, rfl⟩ := Option.map_eq_some_iff.mp stepped
    exact (faithful.fewer (fun _ member => mem_of_mem_leaving member) (fun _ member => member)
      (fun _ member => member)).answered aligned
  | part k again nowMs =>
    obtain ⟨i, found, rfl⟩ := Option.map_eq_some_iff.mp stepped
    have evolves := (IncomingResource.evolves_receivePart P s.receiver (s.sender.parts.getD i [])
      nowMs).keeps
    have counted := (IncomingResource.receivePart_spec (P := P) (s.sender.parts.getD i []) nowMs
      faithful.counted).1
    refine (faithful.fewer (fun _ member => member) (fun _ member => mem_of_mem_leaving member)
      (fun _ member => member)).received aligned evolves.inbound evolves.completed ?_ counted
    intro j data stored
    rcases faithful.receivePart (List.mem_of_getElem? found) (recent i found) nowMs with
      refused | ⟨-, parts, -, -⟩
    · rw [refused] at stored
      exact faithful.stored j data stored
    · rw [parts] at stored
      by_cases here : i = j
      · obtain rfl := here
        rw [List.getElem?_set_self', Option.map_eq_map, Option.map_eq_some_iff] at stored
        obtain ⟨before, present, same⟩ := stored
        exact same
      · rw [List.getElem?_set_ne here] at stored
        exact faithful.stored j data stored
  | update k again nowMs =>
    obtain ⟨update, found, rfl⟩ := Option.map_eq_some_iff.mp stepped
    obtain ⟨parts, counted, inbound, completed⟩ :=
      IncomingResource.handleHashmapUpdate_parts nowMs update faithful.counted
    refine (faithful.fewer (fun _ member => member) (fun _ member => member)
      (fun _ member => mem_of_mem_leaving member)).received aligned inbound completed ?_ counted
    rw [parts]
    exact faithful.stored
  | advertisement nowMs =>
    obtain rfl := Option.some.inj stepped
    have keeps := (IncomingResource.evolves_requestAgain s.receiver
      s.sender.advertisement.resourceHash nowMs).keeps
    obtain ⟨parts, counted⟩ := IncomingResource.requestAgain_parts
      s.sender.advertisement.resourceHash nowMs faithful.counted
    refine faithful.received aligned keeps.inbound keeps.completed ?_ counted
    rw [parts]
    exact faithful.stored
  | pollReceiver nowMs rttMs turnaroundMs acquisitionMs =>
    obtain rfl := Option.some.inj stepped
    have keeps := (IncomingResource.evolves_poll s.receiver nowMs rttMs turnaroundMs
      acquisitionMs).keeps
    obtain ⟨parts, counted⟩ := IncomingResource.poll_parts nowMs rttMs turnaroundMs acquisitionMs
      faithful.counted
    refine faithful.received aligned keeps.inbound keeps.completed ?_ counted
    rw [parts]
    exact faithful.stored
  | pollSender nowMs rttMs =>
    obtain rfl := Option.some.inj stepped
    exact faithful.sent aligned rfl (s.sender.poll_frame nowMs rttMs).1 (fun i member => .inl member)

theorem faithful_start {options : SendOptions} {mtu : Nat} {key : TokenKey} {draws : Draws}
    {sender : OutgoingResource} (built : BuiltFrom P options mtu key draws sender) {sdu : Nat}
    {policy : WindowPolicy} {receiver : IncomingResource} {req : PartRequest}
    (fresh : IncomingResource.Fresh sender.hashmap sender.advertisement sdu policy receiver req)
    (counted : receiver.Counted) :
    (start sender receiver req).Faithful P sender.toOutbound receiver.toInbound := by
  have salt : receiver.randomHash = sender.advertisement.randomHash :=
    congrArg Inbound.randomHash fresh.inbound
  refine ⟨aligned_start built fresh, ?_, rfl, rfl, ?_, ?_, counted⟩
  · show sender.hashmap = sender.parts.map (fun part => P.mapHash part receiver.randomHash)
    rw [salt]
    exact built.hashes
  · rintro i ⟨⟩
  · intro j data stored
    have empty : (List.replicate sender.hashmap.length (none : Option Bytes))[j]? =
        some (some data) := fresh.parts ▸ stored
    rw [List.getElem?_replicate] at empty
    split at empty <;> cases empty

theorem toOutbound_step {e : Event} (stepped : System.step P s e = some s') :
    s'.sender.toOutbound = s.sender.toOutbound := by
  cases e with
  | request k again linkActive nowMs =>
    obtain ⟨asked, -, rfl⟩ := Option.map_eq_some_iff.mp stepped
    rcases s.sender.handleRequest_cases asked.req linkActive nowMs with
      ⟨error, refused, -⟩ | ⟨result, sender', handled, frame, outcome, -⟩
    · rw [refused]
      rfl
    · rw [handled]
      rcases outcome with rfl | rfl <;> exact frame
  | part k again nowMs =>
    obtain ⟨i, -, rfl⟩ := Option.map_eq_some_iff.mp stepped
    rw [(received_frame _ _ _).2.1]
  | update k again nowMs =>
    obtain ⟨update, -, rfl⟩ := Option.map_eq_some_iff.mp stepped
    rw [(received_frame _ _ _).2.1]
  | advertisement nowMs =>
    obtain rfl := Option.some.inj stepped
    rw [(received_frame _ _ _).2.1]
  | pollReceiver nowMs rttMs turnaroundMs acquisitionMs =>
    obtain rfl := Option.some.inj stepped
    rw [(received_frame _ _ _).2.1]
  | pollSender nowMs rttMs =>
    obtain rfl := Option.some.inj stepped
    exact (s.sender.poll_frame nowMs rttMs).1

theorem Faithful.parts_eq (faithful : s.Faithful P content inbound) {r : IncomingResource}
    {i : Nat} (parts : r.parts = s.receiver.parts.set i s.sender.parts[i]?)
    (whole : r.missingParts = 0) : r.parts = s.sender.parts.map some := by
  have count : s.receiver.parts.length = s.sender.parts.length := by
    rw [faithful.aligned.placed.stored, faithful.hashes, List.length_map]
  apply List.ext_getElem?
  intro j
  rw [List.getElem?_map]
  by_cases inside : j < s.sender.parts.length
  · obtain ⟨part, found⟩ : ∃ part, r.parts[j]? = some part := by
      rw [parts, List.getElem?_eq_getElem (by rw [List.length_set]; omega)]
      exact ⟨_, rfl⟩
    cases part with
    | none => exact absurd (List.mem_of_getElem? found) (List.count_eq_zero.mp whole)
    | some data =>
      rw [found]
      rw [parts] at found
      by_cases here : i = j
      · obtain rfl := here
        rw [List.getElem?_set_self (by omega), Option.some.injEq] at found
        rw [found]
        rfl
      · rw [List.getElem?_set_ne here] at found
        rw [faithful.stored j data found]
        rfl
  · rw [List.getElem?_eq_none (by rw [parts, List.length_set]; omega),
      List.getElem?_eq_none (by omega)]
    rfl

/-- What a copy of part `i` does when it comes in. -/
structure Takes (P : Primitives) (options : SendOptions) (key : TokenKey) (s : System) (i : Nat)
    (outcome : PartResult × IncomingResource) : Prop where
  /-- It is stored in its own place or not at all. -/
  place : outcome.2.parts = s.receiver.parts ∨
    s.receiver.parts[i]? = some none ∧ outcome.2.parts = s.receiver.parts.set i s.sender.parts[i]?
  reports : outcome.1 = .assembling ↔
    s.receiver.missingParts ≠ 0 ∧ outcome.2.missingParts = 0
  assembles : outcome.1 = .assembling → ∃ r',
    outcome.2.assemble P (some key) = (.ok (options.data, options.metadata), r') ∧
      r'.buildProof = .ok (s.sender.resourceHash.val ++ s.sender.expectedProof.val)

theorem Faithful.takes {options : SendOptions} {mtu : Nat} {key : TokenKey} {draws : Draws}
    {sender : OutgoingResource} (built : BuiltFrom P options mtu key draws sender)
    (faithful : s.Faithful P sender.toOutbound inbound) (trips : P.RoundTrip)
    (segmented : options.Segmented)
    (short : ∀ metadata, options.metadata = some metadata → metadata.length < 2 ^ 24)
    (fits : options.combined.length ≤ min sender.advertisement.dataSize maxEfficientSize)
    (advertised : ∀ stream, AssemblyInput.mk stream (some key) inbound.flags.compressed
      inbound.dataSize inbound.randomHash inbound.resourceHash
      (inbound.flags.hasMetadata && inbound.segmentIndex == 1) =
        sender.advertisement.assemblyInput stream key)
    {i : Nat} (flight : i ∈ s.parts) (recent : s.receiver.consecutiveCompletedHeight ≤ i + 146)
    (nowMs : Nat) :
    s.Takes P options key i (s.receiver.receivePart P (s.sender.parts.getD i []) nowMs) := by
  have keeps := (IncomingResource.evolves_receivePart P s.receiver (s.sender.parts.getD i [])
    nowMs).keeps
  rcases faithful.receivePart flight recent nowMs with refused | ⟨missing, parts, reported, status⟩
  · rw [refused]
    refine ⟨.inl rfl, ⟨fun same => (by cases same), fun both => absurd both.2 both.1⟩,
      fun same => (by cases same)⟩
  · generalize s.receiver.receivePart P (s.sender.parts.getD i []) nowMs = outcome at *
    have lacks : s.receiver.missingParts ≠ 0 :=
      Nat.pos_iff_ne_zero.mp (List.count_pos_iff.mpr (List.mem_of_getElem? missing))
    refine ⟨.inr ⟨missing, parts⟩, ?_, ?_⟩
    · rw [reported]
      exact ⟨fun whole => ⟨lacks, whole⟩, fun both => both.2⟩
    · intro assembling
      have whole := faithful.parts_eq parts (reported.mp assembling)
      have sent : s.sender.parts = sender.parts := congrArg Outbound.parts faithful.sameContent
      have same : outcome.2.toInbound = inbound := keeps.inbound.trans faithful.sameInbound
      have none : ¬ outcome.2.parts.any Option.isNone = true := by
        rw [whole]
        simp
      have stream : (outcome.2.parts.map (fun part => part.getD [])).flatten =
          sender.parts.flatten := by
        rw [whole, sent, List.map_map]
        exact congrArg List.flatten (List.map_id _)
      have result := built.runAssembly_eq trips segmented short fits
      rw [← advertised, ← same, ← stream] at result
      have hash : outcome.2.resourceHash = s.sender.resourceHash := by
        rw [← faithful.aligned.sameResource]
        exact congrArg Inbound.resourceHash keeps.inbound
      have proof : sender.expectedProof = s.sender.expectedProof :=
        (congrArg Outbound.expectedProof faithful.sameContent).symm
      unfold IncomingResource.assemble IncomingResource.takeAssemblyInput
      rw [if_neg (not_not.mpr (status assembling)), if_neg none]
      dsimp only
      rw [result]
      refine ⟨_, rfl, ?_⟩
      rw [← hash, ← proof]
      rfl

end System

theorem fits_of_accepted {P : Primitives} {options : SendOptions} {mtu : Nat} {key : TokenKey}
    {draws : Draws} {sender : OutgoingResource} (built : BuiltFrom P options mtu key draws sender)
    (segmented : options.Segmented) {sdu nowMs maxSize : Nat} {policy : WindowPolicy}
    {receiver : IncomingResource} {req : PartRequest}
    (accepted : IncomingResource.fromAdvertisement sender.advertisement sdu nowMs maxSize policy =
      .ok (receiver, req)) :
    options.combined.length ≤ min sender.advertisement.dataSize maxEfficientSize := by
  have size : sender.advertisement.dataSize =
      options.segment.totalDataSize.getD options.combined.length := by
    rw [built.advertisement]
    rfl
  have segments : sender.advertisement.totalSegments = options.segment.totalSegments := by
    rw [built.advertisement]
    rfl
  cases total : options.segment.totalDataSize with
  | some total' =>
    have bounds := segmented.size total' total
    rw [size, total, Option.getD_some]
    omega
  | none =>
    rw [total, Option.getD_none] at size
    unfold IncomingResource.fromAdvertisement at accepted
    dsimp only at accepted
    split_ifs at accepted with large huge
    rw [segments, segmented.whole total, size] at huge
    simp only [saturatingMul, u64Max, maxEfficientSize] at *
    omega

/-- Whatever is lost, repeated or overtaken: parts go to their own places, the last missing one is
reported, and then the sender's data comes out with a proof that the sender takes unless it has
given up. Left out are runs in which the sender looks up an exhausted REQ that it has moved past. -/
theorem transfer_delivers_sent {P : Primitives} {options : SendOptions} {crypt : ResourceCryptParams}
    {draws : Draws} {sender : OutgoingResource} {receiver : IncomingResource} {req : PartRequest}
    {policy : WindowPolicy} {builtMs acceptedMs maxSize : Nat} {events : List Event} {s : System}
    (trips : P.RoundTrip) (segmented : options.Segmented)
    (short : ∀ metadata, options.metadata = some metadata → metadata.length < 2 ^ 24)
    (built : newWithFlags P options crypt draws builtMs = .ok (some sender))
    (accepted : IncomingResource.fromAdvertisement sender.advertisement
      (resourceSdu crypt.negotiatedMtu) acceptedMs maxSize policy = .ok (receiver, req))
    (along : Along (System.step P) (fun s e => s.Unpassed e ∧ s.Recent e)
      (System.start sender receiver req) events)
    (run : exec (System.step P) (System.start sender receiver req) events = some s) :
    ∃ key, crypt.tokenKey = some key ∧
      (∀ (j : Nat) (data : Bytes),
        s.receiver.parts[j]? = some (some data) → s.sender.parts[j]? = some data) ∧
      (∀ k again nowMs i, s.parts[k]? = some i → s.Recent (.part k again nowMs) →
        s.Takes P options key i (s.receiver.receivePart P (s.sender.parts.getD i []) nowMs)) ∧
      ∀ later s', exec (System.step P) s later = some s' → s'.sender.status ≠ .failed →
        (s'.sender.handleProof (s.sender.resourceHash.val ++ s.sender.expectedProof.val)).1 =
          .ok .complete := by
  obtain ⟨key, keyed, made⟩ := newWithFlags_spec built
  have positive := IncomingResource.sdu_pos_of_accepted accepted
  have fresh := IncomingResource.fromAdvertisement_spec (made.numParts_eq trips.tokenLength positive)
    made.hashmapData_eq accepted
  have counted : receiver.Counted := by
    unfold IncomingResource.Counted
    rw [fresh.outstanding]
    exact IncomingResource.asking_length_le receiver
  have faithful : s.Faithful P sender.toOutbound receiver.toInbound :=
    exec_invariant_along
      (fun s e s' before ok stepped => System.Faithful.step before ok.1 ok.2 stepped)
      (System.faithful_start made fresh counted) along run
  refine ⟨key, keyed, faithful.stored, ?_, ?_⟩
  · intro k again nowMs i found recent
    refine faithful.takes made trips segmented short (fits_of_accepted made segmented accepted) ?_
      (List.mem_of_getElem? found) (recent i found) nowMs
    intro stream
    rw [fresh.inbound]
    rfl
  · intro later s' ran alive
    have frame : s'.sender.toOutbound = s.sender.toOutbound :=
      exec_invariant (fun s₁ e s₂ before stepped => (System.toOutbound_step stepped).trans before) rfl ran
    have hash : s'.sender.resourceHash = s.sender.resourceHash := congrArg Outbound.resourceHash frame
    have proof : s'.sender.expectedProof = s.sender.expectedProof :=
      congrArg Outbound.expectedProof frame
    rw [← hash, ← proof]
    exact OutgoingResource.handleProof_expected alive

theorem plain_roundTrip : Primitives.plain.RoundTrip where
  decrypt := by
    intro key iv pieces
    have first := iv.property
    have size := padded_length pieces.flatten
    have token : (Primitives.plain.encryptToken key iv pieces).flatten =
        iv.val ++ (padded pieces.flatten ++ List.replicate 32 0) := by
      simp only [Primitives.plain, List.flatten_cons, List.flatten_nil, List.append_nil]
    have whole : (iv.val ++ (padded pieces.flatten ++ List.replicate 32 0)).length - 48 =
        (padded pieces.flatten).length := by
      rw [List.length_append, List.length_append, List.length_replicate]
      omega
    have count : (UInt8.ofNat (16 - pieces.flatten.length % 16)).toNat =
        16 - pieces.flatten.length % 16 := by
      rw [UInt8.toNat_ofNat']
      omega
    have last : (padded pieces.flatten).getLast? =
        some (UInt8.ofNat (16 - pieces.flatten.length % 16)) := by
      unfold padded
      rw [List.getLast?_append, List.getLast?_replicate, if_neg (by omega)]
      rfl
    have body : ((iv.val ++ (padded pieces.flatten ++ List.replicate 32 0)).drop 16).take
        ((iv.val ++ (padded pieces.flatten ++ List.replicate 32 0)).length - 48) =
        padded pieces.flatten := by
      rw [whole, List.drop_left' first, List.take_left' rfl]
    have decrypted : Primitives.plain.decryptToken key (iv.val ++ (padded pieces.flatten ++
        List.replicate 32 0)) = (padded pieces.flatten).getLast?.map (fun count =>
          (padded pieces.flatten).take ((padded pieces.flatten).length - count.toNat)) :=
      congrArg (fun body : Bytes =>
        body.getLast?.map (fun count : UInt8 => body.take (body.length - count.toNat))) body
    rw [token, decrypted, last, Option.map_some, count, padded, List.length_append, List.length_replicate,
      Nat.add_sub_cancel, List.take_left' rfl]
  tokenLength := plain_tokenLength
  decompress := by rintro data squeezed room ⟨⟩

theorem toOption_eq_some {ε α : Type} {result : Except ε α} {value : α}
    (found : result.toOption = some value) : result = .ok value := by
  cases result with
  | error => cases found
  | ok other => exact congrArg Except.ok (Option.some.inj found)

/-- All three parts are requested and two of them come in. -/
def twoOfThree : List Event :=
  [.request 0 false true 0, .part 0 false 0, .part 0 false 0]

/-- The sender's timer runs out four times before the third does. -/
def lateTimer : List Event :=
  [1000000, 2000000, 3000000, 4000000].map (fun nowMs => .pollSender nowMs 1)

theorem numberedData_segmented (blocks : Nat) : (numberedData blocks).Segmented :=
  segmented_of_single rfl

/-- The third part of three is reported and the data comes out. -/
theorem transfer_delivers_sent_small :
    ∃ sender receiver req s key,
      newWithFlags .plain (numberedData 1) smallestLink fixedDraws 0 = .ok (some sender) ∧
      IncomingResource.fromAdvertisement sender.advertisement
        (resourceSdu smallestLink.negotiatedMtu) 0 1000000 .current = .ok (receiver, req) ∧
      exec (System.step .plain) (System.start sender receiver req) twoOfThree = some s ∧
      s.parts = [2] ∧
      (s.receiver.receivePart .plain (s.sender.parts.getD 2 []) 0).1 = .assembling ∧
      s.Takes .plain (numberedData 1) key 2
        (s.receiver.receivePart .plain (s.sender.parts.getD 2 []) 0) := by
  have checked : (IncomingResource.fromAdvertisement (numberedSender 1).advertisement
      (resourceSdu smallestLink.negotiatedMtu) 0 1000000 .current).toOption.any (fun accepted =>
        Along (System.step .plain) (fun s e => s.Unpassed e ∧ s.Recent e)
          (System.start (numberedSender 1) accepted.1 accepted.2) twoOfThree) = true := by
    decide
  have ran : (afterRun 1 .current twoOfThree).any (fun s => s.parts = [2] ∧
      (s.receiver.receivePart .plain (s.sender.parts.getD 2 []) 0).1 = .assembling ∧
      s.Recent (.part 0 false 0)) = true := by decide
  obtain ⟨s, ran, facts⟩ := (Option.any_eq_true _ _).mp ran
  obtain ⟨flight, assembling, recent⟩ := of_decide_eq_true facts
  obtain ⟨receiver, req, accepted, run⟩ := afterRun_eq_some ran
  rw [accepted] at checked
  obtain ⟨key, -, -, takes, -⟩ := transfer_delivers_sent plain_roundTrip (numberedData_segmented 1)
    (by rintro metadata ⟨⟩) (numberedSender_built (by decide)) accepted (of_decide_eq_true checked) run
  exact ⟨numberedSender 1, receiver, req, s, key, numberedSender_built (by decide), accepted, run, flight,
    assembling, takes 0 false 0 2 (by rw [flight]; rfl) recent⟩

/-- A sender whose timer has run out refuses the proof of a complete transfer. -/
theorem failed_sender_refuses_proof :
    ∃ sender receiver req s r' proof,
      newWithFlags .plain (numberedData 1) smallestLink fixedDraws 0 = .ok (some sender) ∧
      IncomingResource.fromAdvertisement sender.advertisement
        (resourceSdu smallestLink.negotiatedMtu) 0 1000000 .current = .ok (receiver, req) ∧
      Along (System.step .plain) System.Recent (System.start sender receiver req)
        (twoOfThree ++ lateTimer) ∧
      exec (System.step .plain) (System.start sender receiver req) (twoOfThree ++ lateTimer) = some s ∧
      s.parts = [2] ∧
      (s.receiver.receivePart .plain (s.sender.parts.getD 2 []) 0).1 = .assembling ∧
      (s.receiver.receivePart .plain (s.sender.parts.getD 2 []) 0).2.assemble .plain
        smallestLink.tokenKey = (.ok ((numberedData 1).data, none), r') ∧
      r'.buildProof = .ok proof ∧ (s.sender.handleProof proof).1 = .error .cancelled := by
  have checked : (IncomingResource.fromAdvertisement (numberedSender 1).advertisement
      (resourceSdu smallestLink.negotiatedMtu) 0 1000000 .current).toOption.any (fun accepted =>
        Along (System.step .plain) System.Recent
          (System.start (numberedSender 1) accepted.1 accepted.2) (twoOfThree ++ lateTimer)) = true := by
    decide
  have ran : (afterRun 1 .current (twoOfThree ++ lateTimer)).any (fun s =>
      let outcome := s.receiver.receivePart .plain (s.sender.parts.getD 2 []) 0
      let assembled := outcome.2.assemble .plain smallestLink.tokenKey
      s.parts = [2] ∧ outcome.1 = .assembling ∧
        assembled.1.toOption = some ((numberedData 1).data, none) ∧
        assembled.2.buildProof.toOption.any (fun proof =>
          (s.sender.handleProof proof).1.toOption = none ∧ s.sender.status = .failed)) = true := by
    decide +kernel
  obtain ⟨s, ran, facts⟩ := (Option.any_eq_true _ _).mp ran
  obtain ⟨flight, assembling, data, proof⟩ := of_decide_eq_true facts
  obtain ⟨receiver, req, accepted, run⟩ := afterRun_eq_some ran
  rw [accepted] at checked
  obtain ⟨proof, proved, refused⟩ := (Option.any_eq_true _ _).mp proof
  obtain ⟨-, failed⟩ := of_decide_eq_true refused
  refine ⟨numberedSender 1, receiver, req, s, _, proof, numberedSender_built (by decide), accepted,
    of_decide_eq_true checked, run, flight, assembling, Prod.ext (toOption_eq_some data) rfl,
    toOption_eq_some proved, ?_⟩
  rw [OutgoingResource.handleProof, if_pos failed]

end Leviculum.Resource
