import Leviculum.Resource.Numbered

/-! A sender follows its receiver over every run without an exhausted REQ that comes two hashmap
segments late, and loses it over one with such a REQ. -/

namespace Leviculum.Resource

open Blocks Spacing Execution

/-- Through any loss, delay, reordering and duplication, as long as every exhausted REQ is looked
up at most one segment behind the furthest one before it. -/
theorem sender_follows_receiver {P : Primitives} {options : SendOptions} {crypt : ResourceCryptParams}
    {draws : Draws} {sender : OutgoingResource} {receiver : IncomingResource} {req : PartRequest}
    {policy : WindowPolicy} {builtMs acceptedMs maxSize : Nat} {events : List Event} {s : System}
    (lengths : P.TokenLength)
    (built : newWithFlags P options crypt draws builtMs = .ok (some sender))
    (accepted : IncomingResource.fromAdvertisement sender.advertisement
      (resourceSdu crypt.negotiatedMtu) acceptedMs maxSize policy = .ok (receiver, req))
    (timely : Along (System.step P) System.Timely (System.start sender receiver req) events)
    (run : exec (System.step P) (System.start sender receiver req) events = some s) : s.Follows := by
  obtain ⟨key, -, made⟩ := newWithFlags_spec built
  have positive := IncomingResource.sdu_pos_of_accepted accepted
  have fresh := IncomingResource.fromAdvertisement_spec (made.numParts_eq lengths positive)
    made.hashmapData_eq accepted
  have tracks : s.Tracks := exec_invariant_along
    (fun s e s' before ok stepped => System.Tracks.step before ok stepped)
    (System.tracks_start made fresh) timely run
  exact tracks.follows

/-- A REQ and the parts it is answered with, in order. -/
def burst (k nowMs count : Nat) : List Event :=
  .request k false true nowMs :: List.replicate count (.part 0 false nowMs)

/-- The exhausted REQ of the first hashmap segment is held up; the receiver asks again after its
timeout and gets as far as the fourth segment before the old REQ comes in. -/
def lateRun : List Event :=
  [4, 5, 6, 7, 8, 9, 10, 11, 12].flatMap (burst 0 0) ++
    .pollReceiver 100000 1 0 0 :: burst 1 100000 2 ++ .update 0 false 100000 ::
    [13, 14, 15, 16, 16].flatMap (burst 1 100000) ++ .update 0 false 100000 ::
    [18, 19, 20, 0].flatMap (burst 1 100000) ++
    [.update 0 false 100000, .request 0 false true 100000]

/-- Some part that the present REQ asks for is not among the packets of its answer. -/
def System.missesPart (s : System) : Bool :=
  s.requests.any (fun asked => asked.serial + 1 = s.built ∧ s.sender.status ≠ .failed ∧
    asked.req.resourceHash = s.sender.resourceHash ∧
    asked.indices.any (fun i => !(s.sender.answer asked.req).contains
      (.resource (s.sender.parts.getD i []))))

theorem not_follows_of_missesPart {s : System} (misses : s.missesPart = true) : ¬ s.Follows := by
  intro follows
  obtain ⟨asked, member, found⟩ := List.any_eq_true.mp misses
  obtain ⟨isLast, alive, same, lost⟩ := of_decide_eq_true found
  obtain ⟨i, inside, absent⟩ := List.any_eq_true.mp lost
  obtain ⟨packets, answered, parts, -⟩ := follows asked member isLast alive 0
  rw [OutgoingResource.handleRequest_active 0 alive same, Except.ok.injEq] at answered
  have present := parts i inside
  rw [← answered] at present
  rw [List.contains_iff_mem.mpr present] at absent
  cases absent

theorem afterRun_append {blocks : Nat} {policy : WindowPolicy} {before after : List Event} {s : System}
    (ran : afterRun blocks policy before = some s) :
    afterRun blocks policy (before ++ after) = exec (System.step .plain) s after := by
  obtain ⟨receiver, req, accepted, run⟩ := afterRun_eq_some ran
  unfold afterRun
  rw [accepted]
  calc exec (System.step .plain) (System.start (numberedSender blocks) receiver req) (before ++ after)
    _ = (exec (System.step .plain) (System.start (numberedSender blocks) receiver req) before).bind
          (exec (System.step .plain) · after) := exec_append _ _ _ _
    _ = exec (System.step .plain) s after := by rw [run, Option.bind_some]

section Stops

deriving instance DecidableEq for Asked, System

/-- The REQ for `count` parts from `first` on. -/
def askedFor (serial height first count : Nat) (lastMapHash : Option MapHash) : Asked where
  serial := serial
  height := height
  indices := List.range' first count
  req := ⟨lastMapHash, (numberedSender 298).resourceHash,
    (List.range' first count).map (fun i => BitVec.ofNat 32 (i - 1))⟩

/-- The exhausted REQ of the first segment. -/
def heldUp : Asked := askedFor 9 74 72 2 (some 72)

/-- Between two bursts of `lateRun`: what was sent is in, and the next REQ is on its way. -/
def betweenBursts (received known height nowMs : Nat) (windowState : WindowState)
    (partGapsRecorded : Nat) (held : List Asked) (asked : Asked) (reached : Nat) : System where
  sender :=
    { numberedSender 298 with
      status := .transferring
      sentMask := List.replicate received true ++ List.replicate (300 - received) false
      receiverMinConsecutiveHeight := height
      lastActivityMs := nowMs }
  receiver :=
    { flags := (numberedSender 298).advertisement.flags
      resourceHash := (numberedSender 298).resourceHash
      randomHash := FixedBytes.of [0, 0, 0, 0]
      transferSize := 14400
      dataSize := 14332
      numParts := 300
      segmentIndex := 1
      windowPolicy := .pythonLike
      status := .transferring
      parts := ((numberedParts 298).take received).map some ++ List.replicate (300 - received) none
      hashmap := ((numberedHashes 298).take known).map some ++ List.replicate (300 - known) none
      hashmapHeight := known
      consecutiveCompletedHeight := received
      windowState := windowState
      outstandingParts := asked.indices.length
      lastActivityMs := nowMs
      reqSentMs := some nowMs
      lastPartMs := nowMs
      partGaps := [0, 0, 0, 0]
      partGapsRecorded := partGapsRecorded
      eifr := 0
      dataReceived := true
      retries := 0
      waitingForHmu := asked.req.lastMapHash.isSome
      sdu := 48
      smallerSdu := none
      proofHash := none }
  requests := held ++ [asked]
  parts := []
  updates := []
  built := asked.serial + 1
  reached := reached

-- One evaluation of the whole run takes gigabytes: it goes by way of these states.
def stopAt30 : System :=
  betweenBursts 30 74 0 0 ⟨9, 75, 0, 0, 0, 5, 6, 4, 0⟩ 5 [] (askedFor 5 74 30 9 none) 0

def stopAt72 : System :=
  betweenBursts 72 74 0 0 ⟨13, 75, 0, 0, 0, 9, 10, 4, 0⟩ 7 [] heldUp 0

def stopAt101 : System :=
  betweenBursts 101 148 0 100000 ⟨15, 73, 0, 0, 0, 12, 12, 4, 0⟩ 4 [heldUp]
    (askedFor 13 148 101 15 none) 74

def stopAt132 : System :=
  betweenBursts 132 148 0 100000 ⟨17, 73, 0, 0, 0, 14, 14, 4, 0⟩ 7 [heldUp]
    (askedFor 15 148 132 16 (some 146)) 74

def stopAt166 : System :=
  betweenBursts 166 222 72 100000 ⟨19, 73, 0, 0, 0, 16, 16, 4, 0⟩ 5 [heldUp]
    (askedFor 17 222 166 19 none) 148

def stopAt205 : System :=
  betweenBursts 205 222 72 100000 ⟨21, 73, 0, 0, 0, 18, 18, 4, 0⟩ 4 [heldUp]
    (askedFor 19 222 205 17 (some 220)) 148

set_option maxRecDepth 100000 in
theorem stops_reached :
    afterRun 298 .pythonLike ([4, 5, 6, 7, 8].flatMap (burst 0 0)) = some stopAt30 ∧
    exec (System.step .plain) stopAt30 ([9, 10, 11, 12].flatMap (burst 0 0)) = some stopAt72 ∧
    exec (System.step .plain) stopAt72 (.pollReceiver 100000 1 0 0 :: burst 1 100000 2 ++
      .update 0 false 100000 :: [13, 14].flatMap (burst 1 100000)) = some stopAt101 ∧
    exec (System.step .plain) stopAt101 ([15, 16].flatMap (burst 1 100000)) = some stopAt132 ∧
    exec (System.step .plain) stopAt132 (burst 1 100000 16 ++
      .update 0 false 100000 :: burst 1 100000 18) = some stopAt166 ∧
    exec (System.step .plain) stopAt166 ([19, 20].flatMap (burst 1 100000)) = some stopAt205 ∧
    (exec (System.step .plain) stopAt205 (burst 1 100000 0 ++
      [.update 0 false 100000, .request 0 false true 100000])).any System.missesPart = true := by
  refine ⟨?_, ?_, ?_, ?_, ?_, ?_, ?_⟩
  · decide +kernel
  · decide +kernel
  · decide +kernel
  · decide +kernel
  · decide +kernel
  · decide +kernel
  · decide +kernel

end Stops

theorem lateRun_misses : (afterRun 298 .pythonLike lateRun).any System.missesPart = true := by
  have legs : lateRun = [4, 5, 6, 7, 8].flatMap (burst 0 0) ++ ([9, 10, 11, 12].flatMap (burst 0 0) ++
      ((.pollReceiver 100000 1 0 0 :: burst 1 100000 2 ++ .update 0 false 100000 ::
        [13, 14].flatMap (burst 1 100000)) ++ ([15, 16].flatMap (burst 1 100000) ++
      ((burst 1 100000 16 ++ .update 0 false 100000 :: burst 1 100000 18) ++
        ([19, 20].flatMap (burst 1 100000) ++ (burst 1 100000 0 ++
          [.update 0 false 100000, .request 0 false true 100000])))))) := by
    simp only [lateRun, List.flatMap_cons, List.flatMap_nil, List.append_assoc, List.cons_append,
      List.append_nil]
  obtain ⟨at30, at72, at101, at132, at166, at205, misses⟩ := stops_reached
  rw [legs, afterRun_append at30, exec_append, at72, Option.bind_some, exec_append, at101,
    Option.bind_some, exec_append, at132, Option.bind_some, exec_append, at166, Option.bind_some,
    exec_append, at205, Option.bind_some]
  exact misses

/-- Three parts, the first request delivered twice. -/
theorem sender_follows_receiver_small :
    ∃ sender receiver req s,
      newWithFlags .plain (numberedData 1) smallestLink fixedDraws 0 = .ok (some sender) ∧
      IncomingResource.fromAdvertisement sender.advertisement
        (resourceSdu smallestLink.negotiatedMtu) 0 1000000 .current = .ok (receiver, req) ∧
      exec (System.step .plain) (System.start sender receiver req)
        [.request 0 true true 0, .part 0 false 0] = some s ∧ s.Follows := by
  have ran : (afterRun 1 .current [.request 0 true true 0, .part 0 false 0]).isSome = true := by
    decide
  have calm : (IncomingResource.fromAdvertisement (numberedSender 1).advertisement
      (resourceSdu smallestLink.negotiatedMtu) 0 1000000 .current).toOption.all
      (fun accepted => accepted.2.lastMapHash.isNone) = true := by decide
  obtain ⟨s, ran⟩ := Option.isSome_iff_exists.mp ran
  obtain ⟨receiver, req, accepted, run⟩ := afterRun_eq_some ran
  rw [accepted] at calm
  have silent : req.lastMapHash.isNone = true := calm
  refine ⟨numberedSender 1, receiver, req, s, numberedSender_built (by decide), accepted, run, ?_⟩
  refine sender_follows_receiver plain_tokenLength (numberedSender_built (by decide)) accepted ?_ run
  refine ⟨?_, fun _ _ => ⟨trivial, fun _ _ => trivial⟩⟩
  intro asked found looksUp
  obtain rfl := Option.some.inj found
  exact absurd looksUp.2.1 (by simpa using silent)

/-- An exhausted REQ two segments late moves the search window past the receiver, which then asks
in vain. -/
theorem late_request_loses_receiver :
    ∃ sender receiver req s,
      newWithFlags .plain (numberedData 298) smallestLink fixedDraws 0 = .ok (some sender) ∧
      IncomingResource.fromAdvertisement sender.advertisement
        (resourceSdu smallestLink.negotiatedMtu) 0 1000000 .pythonLike = .ok (receiver, req) ∧
      exec (System.step .plain) (System.start sender receiver req) lateRun = some s ∧
      ¬ s.Follows := by
  obtain ⟨s, ran, misses⟩ := (Option.any_eq_true _ _).mp lateRun_misses
  obtain ⟨receiver, req, accepted, run⟩ := afterRun_eq_some ran
  exact ⟨numberedSender 298, receiver, req, s, numberedSender_built (by decide), accepted, run,
    not_follows_of_missesPart misses⟩

end Leviculum.Resource
