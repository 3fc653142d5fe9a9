import Leviculum.Resource.Incoming
import Leviculum.Lib.Spacing

/-! What the receiver's operations keep and what a REQ says about the state it was built in. -/

namespace Leviculum.Resource

open Blocks

namespace IncomingResource

theorem le_advanceHeight (parts : List (Option Bytes)) (height : Nat) :
    height ≤ advanceHeight parts height := by
  induction parts generalizing height with
  | nil => exact Nat.le_refl _
  | cons part parts ih =>
    cases part with
    | none => exact Nat.le_refl _
    | some data => exact Nat.le_trans (Nat.le_succ height) (ih (height + 1))

theorem advanceHeight_le (parts : List (Option Bytes)) (height : Nat) :
    advanceHeight parts height ≤ height + parts.length := by
  induction parts generalizing height with
  | nil => exact Nat.le_refl _
  | cons part parts ih =>
    rw [List.length_cons]
    cases part with
    | none => exact Nat.le_add_right _ _
    | some data =>
      have later := ih (height + 1)
      rw [advanceHeight]
      omega

theorem mem_slots {r : IncomingResource} {first last i : Nat} {part : Option Bytes}
    {entry : Option MapHash} (member : ((part, entry), i) ∈ r.slots first last) :
    first ≤ i ∧ i < last ∧ r.parts[i]? = some part ∧ r.hashmap[i]? = some entry := by
  obtain ⟨j, found⟩ := List.mem_iff_getElem?.mp member
  unfold slots at found
  rw [List.getElem?_take] at found
  split at found
  next short =>
    rw [List.getElem?_drop, List.getElem?_zipIdx, Option.map_eq_some_iff] at found
    obtain ⟨pair, zipped, same⟩ := found
    rw [Prod.mk.injEq, Nat.zero_add] at same
    obtain ⟨rfl, rfl⟩ := same
    obtain ⟨stored, known⟩ := List.getElem?_zip_eq_some.mp zipped
    exact ⟨by omega, by omega, stored, known⟩
  next => cases found

theorem mem_scanWindow {range : List ((Option Bytes × Option MapHash) × Nat)} {i : Nat}
    {mh : MapHash} (member : (i, mh) ∈ (scanWindow range).1) : ((none, some mh), i) ∈ range := by
  induction range with
  | nil => cases member
  | cons slot rest ih =>
    obtain ⟨⟨part, entry⟩, pn⟩ := slot
    cases part with
    | some data => exact List.mem_cons_of_mem _ (ih member)
    | none =>
      cases entry with
      | none => cases member
      | some hash =>
        rcases List.mem_cons.mp member with same | later
        · rw [Prod.mk.injEq] at same
          obtain ⟨rfl, rfl⟩ := same
          exact List.mem_cons_self
        · exact List.mem_cons_of_mem _ (ih later)

theorem scanWindow_exhausted {range : List ((Option Bytes × Option MapHash) × Nat)}
    (exhausted : (scanWindow range).2 = true) : ∃ i, ((none, none), i) ∈ range := by
  induction range with
  | nil => cases exhausted
  | cons slot rest ih =>
    obtain ⟨⟨part, entry⟩, pn⟩ := slot
    cases part with
    | some data =>
      obtain ⟨i, member⟩ := ih exhausted
      exact ⟨i, List.mem_cons_of_mem _ member⟩
    | none =>
      cases entry with
      | none => exact ⟨pn, List.mem_cons_self⟩
      | some hash =>
        obtain ⟨i, member⟩ := ih exhausted
        exact ⟨i, List.mem_cons_of_mem _ member⟩

theorem mem_asking {r : IncomingResource} {i : Nat} {mh : MapHash} (member : (i, mh) ∈ r.asking.1) :
    r.consecutiveCompletedHeight ≤ i ∧ i < r.numParts ∧ r.parts[i]? = some none ∧
      r.hashmap[i]? = some (some mh) := by
  obtain ⟨low, high, missing, known⟩ := mem_slots (mem_scanWindow member)
  exact ⟨low, by omega, missing, known⟩

theorem asking_exhausted {r : IncomingResource} (exhausted : r.asking.2 = true) :
    ∃ i, i < r.consecutiveCompletedHeight + r.windowState.window ∧ i < r.numParts ∧
      r.hashmap[i]? = some none := by
  obtain ⟨i, member⟩ := scanWindow_exhausted exhausted
  obtain ⟨-, high, -, unknown⟩ := mem_slots member
  exact ⟨i, by omega, by omega, unknown⟩

theorem mem_requestedHashes {r : IncomingResource} {i : Nat} {mh : MapHash}
    (asked : (i, mh) ∈ r.asking.1) : mh ∈ r.requestOf.requestedHashes :=
  List.mem_map.mpr ⟨(i, mh), asked, rfl⟩

/-- What every operation but a hashmap update leaves alone or only moves forward. -/
structure Keeps (r r' : IncomingResource) : Prop where
  inbound : r'.toInbound = r.toInbound
  partsLength : r'.parts.length = r.parts.length
  hashmap : r'.hashmap = r.hashmap
  height : r'.hashmapHeight = r.hashmapHeight
  completed : r.consecutiveCompletedHeight ≤ r'.consecutiveCompletedHeight
  completedLe : r.consecutiveCompletedHeight ≤ r.parts.length →
    r'.consecutiveCompletedHeight ≤ r.parts.length
  bounded : r.windowState.Bounded → r'.windowState.Bounded

theorem Keeps.refl (r : IncomingResource) : Keeps r r :=
  ⟨rfl, rfl, rfl, rfl, Nat.le_refl _, id, id⟩

theorem Keeps.of_eq {r r' : IncomingResource} (inbound : r'.toInbound = r.toInbound)
    (partsLength : r'.parts.length = r.parts.length) (hashmap : r'.hashmap = r.hashmap)
    (height : r'.hashmapHeight = r.hashmapHeight)
    (completed : r'.consecutiveCompletedHeight = r.consecutiveCompletedHeight)
    (window : r'.windowState.Bounded = r.windowState.Bounded) : Keeps r r' :=
  ⟨inbound, partsLength, hashmap, height, Nat.le_of_eq completed.symm,
    fun before => completed ▸ before, fun before => window ▸ before⟩

theorem Keeps.numParts {r r' : IncomingResource} (keeps : Keeps r r') : r'.numParts = r.numParts :=
  congrArg Inbound.numParts keeps.inbound

theorem Keeps.trans {r r' r'' : IncomingResource} (first : Keeps r r') (second : Keeps r' r'') :
    Keeps r r'' where
  inbound := second.inbound.trans first.inbound
  partsLength := second.partsLength.trans first.partsLength
  hashmap := second.hashmap.trans first.hashmap
  height := second.height.trans first.height
  completed := Nat.le_trans first.completed second.completed
  completedLe := by
    intro before
    rw [← first.partsLength]
    exact second.completedLe (by rw [first.partsLength]; exact first.completedLe before)
  bounded := fun before => second.bounded (first.bounded before)

theorem keeps_buildRequest (r : IncomingResource) : Keeps r r.buildRequest.2 where
  inbound := rfl
  partsLength := rfl
  hashmap := rfl
  height := rfl
  completed := le_advanceHeight _ _
  completedLe := by
    intro before
    have moved := advanceHeight_le (r.parts.drop r.consecutiveCompletedHeight)
      r.consecutiveCompletedHeight
    rw [List.length_drop] at moved
    show advanceHeight _ _ ≤ r.parts.length
    omega
  bounded := WindowState.bounded_startRound

theorem buildRequest_fst (r : IncomingResource) : r.buildRequest.1 = r.buildRequest.2.requestOf := rfl

theorem keeps_settlePartSize (r : IncomingResource) (index bytes : Nat) :
    Keeps r (r.settlePartSize index bytes) := by
  unfold settlePartSize
  split
  · exact Keeps.refl r
  · split_ifs
    · exact Keeps.of_eq rfl rfl rfl rfl rfl rfl
    · exact Keeps.of_eq rfl rfl rfl rfl rfl rfl
    · exact Keeps.refl r

theorem keeps_storePart (r : IncomingResource) (index : Nat) (partData : Bytes) (nowMs : Nat) :
    Keeps r (r.storePart index partData nowMs) := by
  have settled := keeps_settlePartSize r index partData.length
  refine settled.trans ?_
  unfold storePart
  generalize r.settlePartSize index partData.length = settled
  dsimp only
  split_ifs
  · exact Keeps.of_eq rfl List.length_set rfl rfl rfl rfl
  · exact Keeps.of_eq rfl List.length_set rfl rfl rfl rfl

theorem keeps_updateEifr (r : IncomingResource) (nowMs : Nat) : Keeps r (r.updateEifr nowMs) := by
  unfold updateEifr
  split
  · exact Keeps.refl r
  · dsimp only
    split_ifs
    · exact Keeps.of_eq rfl rfl rfl rfl rfl rfl
    · exact Keeps.of_eq rfl rfl rfl rfl rfl rfl
    · exact Keeps.refl r

theorem keeps_completeRound (r : IncomingResource) (nowMs : Nat) : Keeps r (r.completeRound nowMs) where
  inbound := rfl
  partsLength := rfl
  hashmap := rfl
  height := rfl
  completed := Nat.le_refl _
  completedLe := id
  bounded := fun before => WindowState.bounded_onRoundComplete before _ _

/-- An operation with a REQ to send, or with none and the window where it was. -/
structure Evolves (r : IncomingResource) (sent : Option PartRequest) (r' : IncomingResource) : Prop where
  keeps : Keeps r r'
  built : ∀ req, sent = some req → req = r'.requestOf
  quiet : sent = none → r'.consecutiveCompletedHeight = r.consecutiveCompletedHeight

theorem Evolves.of_quiet {r r' : IncomingResource} (keeps : Keeps r r')
    (still : r'.consecutiveCompletedHeight = r.consecutiveCompletedHeight) : Evolves r none r' where
  keeps := keeps
  built := by rintro req ⟨⟩
  quiet := fun _ => still

theorem Evolves.refl (r : IncomingResource) : Evolves r none r := .of_quiet (Keeps.refl r) rfl

theorem Evolves.of_build {r middle r' : IncomingResource} (keeps : Keeps r middle)
    (after : Keeps middle.buildRequest.2 r') (same : r'.requestOf = middle.buildRequest.2.requestOf) :
    Evolves r (some middle.buildRequest.1) r' where
  keeps := (keeps.trans (keeps_buildRequest middle)).trans after
  built := by
    intro req sent
    rw [Option.some.injEq] at sent
    rw [← sent, buildRequest_fst, same]
  quiet := by rintro ⟨⟩

end IncomingResource

def PartResult.sent : PartResult → Option PartRequest
  | .sendRequest req => some req
  | _ => none

def IncomingPoll.sent : IncomingPoll → Option PartRequest
  | .retransmit req => some req
  | _ => none

namespace IncomingResource

theorem completedHeight_settlePartSize (r : IncomingResource) (index bytes : Nat) :
    (r.settlePartSize index bytes).consecutiveCompletedHeight = r.consecutiveCompletedHeight := by
  unfold settlePartSize
  split
  · rfl
  · split_ifs <;> rfl

theorem completedHeight_storePart (r : IncomingResource) (index : Nat) (partData : Bytes)
    (nowMs : Nat) :
    (r.storePart index partData nowMs).consecutiveCompletedHeight = r.consecutiveCompletedHeight := by
  rw [← completedHeight_settlePartSize r index partData.length]
  unfold storePart
  dsimp only
  split_ifs <;> rfl

theorem completedHeight_updateEifr (r : IncomingResource) (nowMs : Nat) :
    (r.updateEifr nowMs).consecutiveCompletedHeight = r.consecutiveCompletedHeight := by
  unfold updateEifr
  split
  · rfl
  · dsimp only
    split_ifs <;> rfl

theorem evolves_afterPart (r : IncomingResource) (nowMs : Nat) :
    Evolves r (r.afterPart nowMs).1.sent (r.afterPart nowMs).2 := by
  have measured := keeps_updateEifr r nowMs
  have still := completedHeight_updateEifr r nowMs
  unfold afterPart
  generalize r.updateEifr nowMs = timed at measured still
  dsimp only
  have round := measured.trans (keeps_completeRound timed nowMs)
  split_ifs
  · exact .of_quiet (round.trans (Keeps.of_eq rfl rfl rfl rfl rfl rfl)) still
  · exact Evolves.of_build round (Keeps.of_eq rfl rfl rfl rfl rfl rfl) rfl
  · exact .of_quiet round still
  · exact .of_quiet measured still

theorem evolves_receivePart (P : Primitives) (r : IncomingResource) (partData : Bytes) (nowMs : Nat) :
    Evolves r (receivePart P r partData nowMs).1.sent (receivePart P r partData nowMs).2 := by
  unfold receivePart
  split_ifs
  · exact Evolves.refl r
  · exact Evolves.refl r
  · split
    · exact Evolves.refl r
    · rename_i index found
      split_ifs
      · exact Evolves.refl r
      · have stored := keeps_storePart r index partData nowMs
        have still := completedHeight_storePart r index partData nowMs
        have after := evolves_afterPart (r.storePart index partData nowMs) nowMs
        exact ⟨stored.trans after.keeps, after.built, fun none => (after.quiet none).trans still⟩

theorem evolves_poll (r : IncomingResource) (nowMs rttMs turnaroundMs acquisitionMs : Nat) :
    Evolves r (r.poll nowMs rttMs turnaroundMs acquisitionMs).1.sent
      (r.poll nowMs rttMs turnaroundMs acquisitionMs).2 := by
  unfold poll
  dsimp only
  split_ifs
  · exact .of_quiet (Keeps.of_eq rfl rfl rfl rfl rfl rfl) rfl
  · refine Evolves.of_build ?_ (Keeps.of_eq rfl rfl rfl rfl rfl rfl) rfl
    exact ⟨rfl, rfl, rfl, rfl, Nat.le_refl _, id, fun before => WindowState.bounded_onTimeout before _⟩
  · exact Evolves.refl r
  · exact Evolves.refl r

theorem evolves_requestAgain (r : IncomingResource) (resourceHash : Digest) (nowMs : Nat) :
    Evolves r (r.requestAgainForReadvertisement resourceHash nowMs).1
      (r.requestAgainForReadvertisement resourceHash nowMs).2 := by
  unfold requestAgainForReadvertisement
  split_ifs
  · exact Evolves.refl r
  · exact Evolves.of_build (Keeps.refl r) (Keeps.of_eq rfl rfl rfl rfl rfl rfl) rfl

end IncomingResource

end Leviculum.Resource
