import Leviculum.Resource.Transfer

/-! The sender's search window follows its receiver, as long as no exhausted REQ reaches it two
hashmap segments late. -/

namespace Leviculum.Resource

open Spacing Execution

namespace System

/-- No exhausted REQ is looked up that was built more than one hashmap segment below the
furthest one looked up before. -/
def Timely (s : System) : Event → Prop
  | .request k _ linkActive _ =>
    ∀ asked, s.requests[k]? = some asked → s.sender.LooksUp asked.req linkActive →
      s.reached ≤ asked.height + hashmapMaxLen
  | _ => True

/-- The search window belongs to segment `last`, at most one behind the furthest one looked up;
the receiver is at most one past that. -/
structure Levels (s : System) (last furthest : Nat) : Prop where
  window : s.sender.receiverMinConsecutiveHeight = last * hashmapMaxLen - (1 + windowMaxFast)
  reached : s.reached = furthest * hashmapMaxLen
  le : last ≤ furthest
  near : furthest ≤ last + 1
  passed : furthest * hashmapMaxLen ≤ s.receiver.hashmapHeight
  height : s.receiver.hashmapHeight ≤ (furthest + 1) * hashmapMaxLen
  updates : ∀ update ∈ s.updates, update.segment ≤ furthest

end System

/-- The REQ asks for what the receiver is at now. -/
structure Asked.Current (keys : List MapHash) (r : IncomingResource) (asked : Asked) : Prop where
  height : asked.height = r.hashmapHeight
  indices : ∀ i ∈ asked.indices, r.consecutiveCompletedHeight ≤ i ∧ i < r.hashmapHeight ∧
    ∃ mh ∈ asked.req.requestedHashes, keys[i]? = some mh

theorem Placed.requestOf_current {keys : List MapHash} {r : IncomingResource}
    (placed : Placed keys r) (serial : Nat) :
    Asked.Current keys r ⟨serial, r.hashmapHeight, r.asking.1.map Prod.fst, r.requestOf⟩ := by
  refine ⟨rfl, ?_⟩
  intro i member
  obtain ⟨⟨index, mh⟩, asked, rfl⟩ := List.mem_map.mp member
  obtain ⟨low, -, -, known⟩ := IncomingResource.mem_asking asked
  obtain ⟨high, key⟩ := placed.knows.lt_of_known known
  exact ⟨low, high, mh, IncomingResource.mem_requestedHashes asked, key⟩

namespace System

/-- The REQ built last, if it is in flight, is the receiver's present one. -/
structure Latest (s : System) : Prop where
  serials : ∀ asked ∈ s.requests, asked.serial < s.built
  last : ∀ asked ∈ s.requests, asked.serial + 1 = s.built →
    asked.Current s.sender.hashmap s.receiver

theorem Latest.received_none {s : System} (latest : s.Latest) {r' : IncomingResource}
    (height : r'.hashmapHeight = s.receiver.hashmapHeight)
    (completed : r'.consecutiveCompletedHeight = s.receiver.consecutiveCompletedHeight) :
    (s.received none r').Latest := by
  refine ⟨latest.serials, ?_⟩
  intro asked member isLast
  have before := latest.last asked member isLast
  refine ⟨before.height.trans height.symm, ?_⟩
  intro i inside
  show r'.consecutiveCompletedHeight ≤ i ∧ i < r'.hashmapHeight ∧ _
  rw [height, completed]
  exact before.indices i inside

theorem Latest.received_some {s : System} (latest : s.Latest) {r' : IncomingResource}
    (placed : Placed s.sender.hashmap r') : (s.received (some r'.requestOf) r').Latest := by
  constructor
  · intro asked member
    rcases List.mem_append.mp member with old | new
    · exact Nat.lt_succ_of_lt (latest.serials asked old)
    · rw [List.mem_singleton.mp new]
      exact Nat.lt_succ_self _
  · intro asked member isLast
    rcases List.mem_append.mp member with old | new
    · have before := latest.serials asked old
      have same : asked.serial + 1 = s.built + 1 := isLast
      omega
    · rw [List.mem_singleton.mp new]
      exact placed.requestOf_current s.built

theorem Latest.received {s : System} (latest : s.Latest) (aligned : s.Aligned)
    {sent : Option PartRequest} {r' : IncomingResource} (evolves : s.receiver.Evolves sent r') :
    (s.received sent r').Latest := by
  cases sent with
  | none => exact latest.received_none evolves.keeps.height (evolves.quiet rfl)
  | some req =>
    rw [evolves.built req rfl]
    exact latest.received_some (aligned.placed.keeps evolves.keeps)

theorem Levels.received {s : System} {last furthest : Nat} (levels : s.Levels last furthest)
    {sent : Option PartRequest} {r' : IncomingResource} (evolves : s.receiver.Evolves sent r') :
    (s.received sent r').Levels last furthest := by
  have height : r'.hashmapHeight ≤ (furthest + 1) * hashmapMaxLen := by
    rw [evolves.keeps.height]
    exact levels.height
  have passed : furthest * hashmapMaxLen ≤ r'.hashmapHeight := by
    rw [evolves.keeps.height]
    exact levels.passed
  cases sent with
  | none =>
    exact ⟨levels.window, levels.reached, levels.le, levels.near, passed, height, levels.updates⟩
  | some req =>
    exact ⟨levels.window, levels.reached, levels.le, levels.near, passed, height, levels.updates⟩

theorem Levels.lookup {s : System} {last furthest : Nat} (levels : s.Levels last furthest)
    (aligned : s.Aligned) {asked : Asked} {mh : MapHash}
    (sound : asked.Sound s.sender.hashmap s.receiver) (named : asked.req.lastMapHash = some mh)
    (timely : s.reached ≤ asked.height + hashmapMaxLen) :
    s.sender.receiverMinConsecutiveHeight < asked.height ∧ s.sender.partIndex mh = asked.height ∧
      ∃ level, asked.height = level * hashmapMaxLen ∧ furthest ≤ level + 1 ∧ level ≤ furthest + 1 := by
  have exhausted : asked.req.lastMapHash.isSome := by
    rw [named]
    rfl
  obtain ⟨positive, entry⟩ := sound.lastKnown mh named
  obtain ⟨level, whole⟩ := sound.segment exhausted
  obtain ⟨window, reached, le, near, -, height, -⟩ := levels
  have bound := sound.height
  rw [Nat.mul_comm] at whole
  simp only [hashmapMaxLen, windowMaxFast] at *
  have lower : furthest ≤ level + 1 := by omega
  have upper : level ≤ furthest + 1 := by omega
  have unpassed : s.sender.receiverMinConsecutiveHeight < asked.height := by omega
  have inside : asked.height - 1 < s.sender.receiverMinConsecutiveHeight + collisionGuardSize := by
    simp only [collisionGuardSize, hashmapMaxLen]
    omega
  have stop := aligned.spaced.scanPast_eq entry (by omega) inside
  refine ⟨unpassed, ?_, level, whole, lower, upper⟩
  unfold OutgoingResource.partIndex
  omega

theorem Levels.unpassed {s : System} {last furthest : Nat} (levels : s.Levels last furthest)
    (aligned : s.Aligned) {e : Event} (timely : s.Timely e) : s.Unpassed e := by
  cases e with
  | request k again linkActive nowMs =>
    intro asked found looksUp
    obtain ⟨mh, named⟩ := Option.isSome_iff_exists.mp looksUp.2.1
    exact (levels.lookup aligned (aligned.requests asked (List.mem_of_getElem? found)) named
      (timely asked found looksUp)).1
  | part | update | advertisement | pollReceiver | pollSender => trivial

theorem hashmapSegment_of_height {sender : OutgoingResource} {index level : Nat}
    (whole : index = level * hashmapMaxLen) :
    sender.hashmapSegment (index / hashmapMaxLen) = sender.hashmapSegment level := by
  rw [whole, Nat.mul_div_cancel _ (by decide)]

theorem Levels.answered {s : System} {last furthest : Nat} (levels : s.Levels last furthest)
    (aligned : s.Aligned) {asked : Asked} (sound : asked.Sound s.sender.hashmap s.receiver)
    {linkActive : Bool} (nowMs : Nat)
    (timely : s.sender.LooksUp asked.req linkActive → s.reached ≤ asked.height + hashmapMaxLen) :
    ∃ last furthest, (s.answered asked linkActive
      (s.sender.handleRequest asked.req linkActive nowMs)).Levels last furthest := by
  obtain ⟨window, reached, le, near, passed, height, updates⟩ := levels
  rcases s.sender.handleRequest_cases asked.req linkActive nowMs with
    ⟨error, refused, reason⟩ | ⟨result, sender', handled, frame, outcome, moved⟩
  · have idle : ¬ s.sender.LooksUp asked.req linkActive := by
      rintro ⟨alive, -, -⟩
      rcases reason with failed | other
      · exact alive failed
      · exact other (sound.resourceHash.trans aligned.sameResource)
    rw [refused]
    refine ⟨last, furthest, window, ?_, le, near, passed, height, updates⟩
    show (if s.sender.LooksUp asked.req linkActive then _ else s.reached) = _
    rw [if_neg idle, reached]
  rw [handled]
  rcases moved with ⟨still, idle, silent⟩ | ⟨mh, named, looksUp, moved⟩
  · have same : (if s.sender.LooksUp asked.req linkActive then max s.reached asked.height
        else s.reached) = furthest * hashmapMaxLen := by
      rw [if_neg idle, reached]
    rcases outcome with rfl | rfl
    · refine ⟨last, furthest, still.trans window, same, le, near, passed, height, ?_⟩
      rcases silent with calm | inactive
      · intro update member
        rw [System.answered] at member
        dsimp only at member
        rw [updates_of_answer, calm, Option.map_none, Option.toList_none, List.append_nil] at member
        exact updates update member
      · cases inactive
    · exact ⟨last, furthest, still.trans window, same, le, near, passed, height, updates⟩
  · obtain ⟨-, index, level, whole, lower, upper⟩ := Levels.lookup
      ⟨window, reached, le, near, passed, height, updates⟩ aligned sound named (timely looksUp)
    have furthest' : (if s.sender.LooksUp asked.req linkActive then max s.reached asked.height
        else s.reached) = max furthest level * hashmapMaxLen := by
      rw [if_pos looksUp, reached, whole, Nat.mul_max_mul_right]
    have window' : sender'.receiverMinConsecutiveHeight =
        level * hashmapMaxLen - (1 + windowMaxFast) := by
      rw [moved, index, whole]
    have passed' : max furthest level * hashmapMaxLen ≤ s.receiver.hashmapHeight := by
      have bound := sound.height
      rw [← Nat.mul_max_mul_right, ← whole]
      exact Nat.max_le.mpr ⟨passed, bound⟩
    have height' : s.receiver.hashmapHeight ≤ (max furthest level + 1) * hashmapMaxLen :=
      Nat.le_trans height (Nat.mul_le_mul_right _ (by omega))
    have old : ∀ update ∈ s.updates, update.segment ≤ max furthest level := fun update member =>
      Nat.le_trans (updates update member) (Nat.le_max_left _ _)
    rcases outcome with rfl | rfl
    · refine ⟨level, max furthest level, window', furthest', Nat.le_max_right _ _, by omega,
        passed', height', ?_⟩
      intro update member
      rw [System.answered] at member
      dsimp only at member
      rw [updates_of_answer, named, Option.map_some, Option.toList_some, index,
        hashmapSegment_of_height whole] at member
      rcases List.mem_append.mp member with earlier | new
      · exact old update earlier
      · rw [List.mem_singleton.mp new]
        exact Nat.le_max_right _ _
    · exact ⟨level, max furthest level, window', furthest', Nat.le_max_right _ _, by omega, passed',
        height', old⟩

theorem answered_receiver (s : System) (asked : Asked) (linkActive : Bool)
    (outcome : Except ResourceError (List Packet) × OutgoingResource) :
    (s.answered asked linkActive outcome).receiver = s.receiver ∧
      (s.answered asked linkActive outcome).requests = s.requests ∧
      (s.answered asked linkActive outcome).built = s.built ∧
      (s.answered asked linkActive outcome).sender = outcome.2 := by
  obtain ⟨result, sender⟩ := outcome
  cases result with
  | error error => exact ⟨rfl, rfl, rfl, rfl⟩
  | ok packets => exact ⟨rfl, rfl, rfl, rfl⟩

theorem handleRequest_hashmap (s : OutgoingResource) (req : PartRequest) (linkActive : Bool)
    (nowMs : Nat) : (s.handleRequest req linkActive nowMs).2.hashmap = s.hashmap := by
  rcases s.handleRequest_cases req linkActive nowMs with
    ⟨error, refused, -⟩ | ⟨result, s', handled, frame, -⟩
  · rw [refused]
  · rw [handled]
    exact congrArg Outbound.hashmap frame

/-- The sender's view of its receiver, over whole runs. -/
structure Tracks (s : System) : Prop where
  aligned : s.Aligned
  latest : s.Latest
  levels : ∃ last furthest, s.Levels last furthest

theorem Latest.fewer {s : System} (latest : s.Latest) {requests : List Asked} {parts : List Nat}
    {updates : List HashmapUpdate} (rest : ∀ asked ∈ requests, asked ∈ s.requests) :
    { s with requests := requests, parts := parts, updates := updates }.Latest :=
  ⟨fun asked member => latest.serials asked (rest asked member),
    fun asked member => latest.last asked (rest asked member)⟩

theorem Levels.fewer {s : System} {last furthest : Nat} (levels : s.Levels last furthest)
    {requests : List Asked} {parts : List Nat} {updates : List HashmapUpdate}
    (rest : ∀ update ∈ updates, update ∈ s.updates) :
    { s with requests := requests, parts := parts, updates := updates }.Levels last furthest :=
  ⟨levels.window, levels.reached, levels.le, levels.near, levels.passed, levels.height,
    fun update member => levels.updates update (rest update member)⟩

theorem Tracks.received {s : System} (tracks : s.Tracks) {sent : Option PartRequest}
    {r' : IncomingResource} (evolves : s.receiver.Evolves sent r') : (s.received sent r').Tracks := by
  obtain ⟨last, furthest, levels⟩ := tracks.levels
  exact ⟨tracks.aligned.received evolves, tracks.latest.received tracks.aligned evolves, last, furthest,
    levels.received evolves⟩

theorem Tracks.updated {s : System} (tracks : s.Tracks) {update : HashmapUpdate}
    (joins : update.Joins s.sender.hashmap s.receiver.hashmapHeight)
    (offered : ∀ last furthest, s.Levels last furthest → update.segment ≤ furthest) (nowMs : Nat) :
    (s.received (s.receiver.handleHashmapUpdate nowMs update).1.toOption
      (s.receiver.handleHashmapUpdate nowMs update).2).Tracks := by
  have aligned := tracks.aligned.updated joins nowMs
  obtain ⟨last, furthest, levels⟩ := tracks.levels
  rcases IncomingResource.handleHashmapUpdate_spec tracks.aligned.placed.knows joins.below
    joins.segment nowMs with ⟨error, refused⟩ | ⟨req, r', middle, handled, evolves, -, -, -, -, -,
      height⟩
  · rw [refused]
    exact tracks
  · rw [handled] at aligned ⊢
    have named := evolves.built req rfl
    subst named
    have low := offered last furthest levels
    have segment : (update.segment + 1) * hashmapMaxLen ≤ (furthest + 1) * hashmapMaxLen :=
      Nat.mul_le_mul_right hashmapMaxLen (Nat.succ_le_succ low)
    have reach := joins.reach_eq tracks.aligned.placed.knows.le
    have bound : r'.hashmapHeight ≤ (furthest + 1) * hashmapMaxLen := by
      have before := levels.height
      rw [evolves.keeps.height, height, reach]
      omega
    have passed : furthest * hashmapMaxLen ≤ r'.hashmapHeight := by
      have before := levels.passed
      rw [evolves.keeps.height, height]
      omega
    exact ⟨aligned, tracks.latest.received_some aligned.placed, last, furthest, levels.window,
      levels.reached, levels.le, levels.near, passed, bound, levels.updates⟩

theorem Tracks.step {P : Primitives} {s s' : System} {e : Event} (tracks : s.Tracks)
    (timely : s.Timely e) (stepped : step P s e = some s') : s'.Tracks := by
  obtain ⟨aligned, latest, last, furthest, levels⟩ := tracks
  have aligned' := aligned.step (levels.unpassed aligned timely) stepped
  cases e with
  | request k again linkActive nowMs =>
    obtain ⟨asked, found, rfl⟩ := Option.map_eq_some_iff.mp stepped
    have rest : ∀ other ∈ leaving again s.requests k, other ∈ s.requests :=
      fun _ member => mem_of_mem_leaving member
    have fewer : { s with requests := leaving again s.requests k }.Aligned :=
      aligned.fewer rest (fun _ member => member)
    have fewer' : { s with requests := leaving again s.requests k }.Levels last furthest :=
      levels.fewer (fun _ member => member)
    have levels' := fewer'.answered fewer (aligned.requests asked (List.mem_of_getElem? found)) nowMs
      (timely asked found)
    refine ⟨aligned', ?_, levels'⟩
    obtain ⟨receiver, requests, built, sender⟩ := answered_receiver
      { s with requests := leaving again s.requests k } asked linkActive
      (s.sender.handleRequest asked.req linkActive nowMs)
    have hashmap := handleRequest_hashmap s.sender asked.req linkActive nowMs
    constructor
    · rw [requests, built]
      exact fun other member => latest.serials other (rest other member)
    · rw [requests, built, receiver, sender, hashmap]
      exact fun other member => latest.last other (rest other member)
  | part k again nowMs =>
    obtain ⟨i, found, rfl⟩ := Option.map_eq_some_iff.mp stepped
    have fewer : { s with parts := leaving again s.parts k }.Tracks :=
      ⟨aligned.fewer (fun _ member => member) (fun _ member => member),
        latest.fewer (fun _ member => member), last, furthest, levels.fewer (fun _ member => member)⟩
    exact fewer.received (IncomingResource.evolves_receivePart P s.receiver _ nowMs)
  | update k again nowMs =>
    obtain ⟨update, found, rfl⟩ := Option.map_eq_some_iff.mp stepped
    have member := List.mem_of_getElem? found
    have fewer : { s with updates := leaving again s.updates k }.Tracks :=
      ⟨aligned.fewer (fun _ member => member) (fun _ member => mem_of_mem_leaving member),
        latest.fewer (fun _ member => member), last, furthest,
        levels.fewer (fun _ member => mem_of_mem_leaving member)⟩
    refine fewer.updated (aligned.updates update member) ?_ nowMs
    intro last' furthest' levels'
    have same : furthest' * hashmapMaxLen = furthest * hashmapMaxLen :=
      levels'.reached.symm.trans levels.reached
    have equal := Nat.eq_of_mul_eq_mul_right (by decide) same
    rw [equal]
    exact levels.updates update member
  | advertisement nowMs =>
    obtain rfl := Option.some.inj stepped
    exact Tracks.received ⟨aligned, latest, last, furthest, levels⟩
      (IncomingResource.evolves_requestAgain s.receiver _ nowMs)
  | pollReceiver nowMs rttMs turnaroundMs acquisitionMs =>
    obtain rfl := Option.some.inj stepped
    exact Tracks.received ⟨aligned, latest, last, furthest, levels⟩
      (IncomingResource.evolves_poll s.receiver nowMs rttMs turnaroundMs acquisitionMs)
  | pollSender nowMs rttMs =>
    obtain rfl := Option.some.inj stepped
    obtain ⟨frame, still⟩ := s.sender.poll_frame nowMs rttMs
    have hashmap := congrArg Outbound.hashmap frame
    exact ⟨aligned', ⟨latest.serials, hashmap ▸ latest.last⟩, last, furthest, still.trans levels.window,
      levels.reached, levels.le, levels.near, levels.passed, levels.height, levels.updates⟩

theorem tracks_start {P : Primitives} {options : SendOptions} {mtu : Nat} {key : TokenKey}
    {draws : Draws} {sender : OutgoingResource} (built : BuiltFrom P options mtu key draws sender)
    {sdu : Nat} {policy : WindowPolicy} {receiver : IncomingResource} {req : PartRequest}
    (fresh : IncomingResource.Fresh sender.hashmap sender.advertisement sdu policy receiver req) :
    (start sender receiver req).Tracks := by
  have aligned := aligned_start built fresh
  refine ⟨aligned, ⟨?_, ?_⟩, 0, 0, ?_⟩
  · intro asked member
    rw [List.mem_singleton.mp member]
    exact Nat.zero_lt_one
  · intro asked member _
    rw [List.mem_singleton.mp member, fresh.built]
    exact aligned.placed.requestOf_current 0
  · refine ⟨?_, rfl, Nat.le_refl _, Nat.zero_le _, Nat.zero_le _, ?_, ?_⟩
    · show sender.receiverMinConsecutiveHeight = _
      rw [built.height]
      decide
    · show receiver.hashmapHeight ≤ _
      rw [fresh.height]
      omega
    · intro update member
      cases member

/-- The REQ the receiver built last, when a sender that has not given up handles it, is answered
with every part it asks for, and if it is exhausted with the segment that holds the next hash. -/
def Follows (s : System) : Prop :=
  ∀ asked ∈ s.requests, asked.serial + 1 = s.built → s.sender.status ≠ .failed → ∀ nowMs,
    ∃ packets, (s.sender.handleRequest asked.req true nowMs).1 = .ok packets ∧
      (∀ i ∈ asked.indices, Packet.resource (s.sender.parts.getD i []) ∈ packets) ∧
      (asked.req.lastMapHash.isSome → ∃ update, Packet.resourceHmu update ∈ packets ∧
        update.segment * hashmapMaxLen ≤ s.receiver.hashmapHeight ∧
        s.receiver.hashmapHeight < update.segment * hashmapMaxLen + update.entries.length)

theorem Tracks.follows {s : System} (tracks : s.Tracks) : s.Follows := by
  intro asked member isLast alive nowMs
  obtain ⟨aligned, latest, last, furthest, levels⟩ := tracks
  have sound := aligned.requests asked member
  have current := latest.last asked member isLast
  refine ⟨s.sender.answer asked.req,
    OutgoingResource.handleRequest_active nowMs alive
      (sound.resourceHash.trans aligned.sameResource), ?_, ?_⟩
  · intro i inside
    obtain ⟨low, high, mh, requested, key⟩ := current.indices i inside
    have above := aligned.behind
    have window := levels.window
    have near := levels.near
    have height := levels.height
    have below : i < s.sender.receiverMinConsecutiveHeight + collisionGuardSize := by
      simp only [hashmapMaxLen, windowMaxFast, collisionGuardSize] at *
      omega
    refine List.mem_append_left _ (List.mem_map.mpr ⟨i, ?_, rfl⟩)
    exact OutgoingResource.mem_matching.mpr ⟨by omega, below, mh, requested, key⟩
  · intro exhausted
    obtain ⟨mh, named⟩ := Option.isSome_iff_exists.mp exhausted
    have timely : s.reached ≤ asked.height + hashmapMaxLen := by
      have passed := levels.passed
      rw [levels.reached, current.height]
      omega
    obtain ⟨-, index, level, whole, -, -⟩ := levels.lookup aligned sound named timely
    refine ⟨s.sender.hashmapSegment level, ?_, ?_, ?_⟩
    · refine List.mem_append_right _ ?_
      rw [named, Option.map_some, Option.toList_some, index, hashmapSegment_of_height whole]
      exact List.mem_singleton_self _
    · rw [← current.height, whole]
      exact Nat.le_refl _
    · have room := sound.unfinished exhausted
      have segment : 0 < hashmapMaxLen := by decide
      rw [← current.height, whole] at *
      show level * hashmapMaxLen < level * hashmapMaxLen +
        ((s.sender.hashmap.drop (level * hashmapMaxLen)).take hashmapMaxLen).length
      rw [List.length_take, List.length_drop]
      omega

end System

end Leviculum.Resource
