import Leviculum.Resource.Storing
import Leviculum.Resource.Integrity
import Mathlib.Algebra.Order.BigOperators.Group.List
import Mathlib.Algebra.Order.Ring.Nat

/-! The bytes a receiver holds while a resource comes in. -/

namespace Leviculum.Resource

open Blocks

/-! ### Rooms -/

/-- The bytes of `total` that a cut into parts of `size` leaves for part `index`. -/
def room (total size index : Nat) : Nat := min (total - index * size) size

theorem sum_room (total size count : Nat) :
    ((List.range count).map (room total size)).sum = min total (count * size) := by
  induction count with
  | zero => simp
  | succ count ih =>
    rw [List.range_succ, List.map_append, List.sum_append, ih, Nat.succ_mul]
    simp only [List.map_cons, List.map_nil, List.sum_cons, List.sum_nil, room]
    omega

def slotBytes (slot : Option Bytes) : Nat := (slot.map List.length).getD 0

theorem sum_slots_le {total size : Nat} {slots : List (Option Bytes)}
    (within : ∀ index data, slots[index]? = some (some data) → data.length ≤ room total size index) :
    (slots.map slotBytes).sum ≤ total := by
  have each : (slots.map slotBytes).sum ≤ ((List.range slots.length).map (room total size)).sum := by
    have indexed : slots.map slotBytes =
        (List.range slots.length).map (fun index => slotBytes ((slots[index]?).getD none)) := by
      refine List.ext_getElem (by simp) (fun index short _ => ?_)
      have inside : index < slots.length := by simpa using short
      simp [inside]
    rw [indexed]
    refine List.sum_le_sum (fun index _ => ?_)
    cases here : slots[index]? with
    | none => exact Nat.zero_le _
    | some slot =>
      cases slot with
      | none => exact Nat.zero_le _
      | some data => exact within index data here
  rw [sum_room] at each
  exact each.trans (Nat.min_le_left _ _)

/-! ### One call -/

namespace IncomingResource

/-- What of a receiver the bytes it holds depend on. -/
structure Holding where
  parts : List (Option Bytes)
  numParts : Nat
  transferSize : Nat
  sdu : Nat
  smallerSdu : Option Nat

def holding (r : IncomingResource) : Holding := ⟨r.parts, r.numParts, r.transferSize, r.sdu, r.smallerSdu⟩

def retained (r : IncomingResource) : Nat := (r.parts.map slotBytes).sum

theorem holding_updateEifr (r : IncomingResource) (nowMs : Nat) : (r.updateEifr nowMs).holding = r.holding := by
  unfold updateEifr
  split
  · rfl
  · dsimp only
    split_ifs <;> rfl

theorem holding_afterPart (r : IncomingResource) (nowMs : Nat) : (r.afterPart nowMs).2.holding = r.holding := by
  have eifr := holding_updateEifr r nowMs
  unfold afterPart
  dsimp only
  split_ifs
  · exact eifr
  · exact eifr
  · exact eifr
  · exact eifr

theorem holding_storePart (r : IncomingResource) (index : Nat) (data : Bytes) (nowMs : Nat) :
    (r.storePart index data nowMs).holding =
      { (r.settlePartSize index data.length).holding with parts := r.parts.set index (some data) } := by
  have kept : (r.settlePartSize index data.length).parts = r.parts := by
    unfold settlePartSize
    split
    · rfl
    · split_ifs <;> rfl
  unfold storePart
  dsimp only
  split_ifs
  · rw [← kept]
    rfl
  · rw [← kept]
    rfl

theorem holding_receivePart (P : Primitives) (r : IncomingResource) (data : Bytes) (nowMs : Nat) :
    (receivePart P r data nowMs).2.holding = r.holding ∨
      ∃ index, claimsPart P r data = true ∧ r.parts[index]? = some none ∧ r.partFits index data.length = true ∧
        data.length ≤ r.sdu ∧
        (receivePart P r data nowMs).2.holding =
          { (r.settlePartSize index data.length).holding with parts := r.parts.set index (some data) } := by
  unfold receivePart claimsPart
  split_ifs with busy long
  · exact .inl rfl
  · exact .inl rfl
  · split
    next => exact .inl rfl
    next index found =>
      split_ifs with misfit
      · exact .inl rfl
      · have fits : r.partFits index data.length = true := by simpa using misfit
        obtain ⟨-, -, missing, -⟩ := matchPart_eq_some found
        refine .inr ⟨index, ?_, missing, fits, Nat.le_of_not_lt long, ?_⟩
        · rw [found]
          simp only [ne_eq, not_not] at busy
          simpa [busy, Nat.le_of_not_lt long] using fits
        · rw [holding_afterPart, holding_storePart]

theorem holding_poll (r : IncomingResource) (nowMs rttMs turnaroundMs acquisitionMs : Nat) :
    (r.poll nowMs rttMs turnaroundMs acquisitionMs).2.holding = r.holding := by
  unfold poll
  dsimp only
  split_ifs <;> rfl

theorem holding_requestAgain (r : IncomingResource) (resourceHash : Digest) (nowMs : Nat) :
    (r.requestAgainForReadvertisement resourceHash nowMs).2.holding = r.holding := by
  unfold requestAgainForReadvertisement
  split_ifs <;> rfl

theorem holding_handleHashmapUpdate (r : IncomingResource) (nowMs : Nat) (update : HashmapUpdate) :
    (r.handleHashmapUpdate nowMs update).2.holding = r.holding := by
  unfold handleHashmapUpdate
  split_ifs <;> rfl

/-! ### The invariant -/

/-- The part size the stored parts keep to: the smaller one while it is open. -/
def Holding.governing (h : Holding) : Nat := h.smallerSdu.getD h.sdu

/-- Every stored part is within its room, and while two sizes are open the larger one fills every slot but
the last. -/
structure Holding.Sound (h : Holding) : Prop where
  within : ∀ index data, h.parts[index]? = some (some data) → data.length ≤ room h.transferSize h.governing index
  slots : h.numParts = h.parts.length
  wide : h.transferSize ≤ u64Max
  ordered : ∀ size, h.smallerSdu = some size → size ≤ h.sdu
  full : ∀ size, h.smallerSdu = some size → ∀ index, index + 1 < h.numParts → (index + 1) * h.sdu < h.transferSize

theorem Holding.Sound.sum_le {h : Holding} (sound : h.Sound) : (h.parts.map slotBytes).sum ≤ h.transferSize :=
  sum_slots_le sound.within

theorem partFitsSize_iff {r : IncomingResource} (wide : r.transferSize ≤ u64Max) (index bytes size : Nat) :
    r.partFitsSize index bytes size = true ↔ bytes ≤ room r.transferSize size index := by
  have consumed : r.transferSize - saturatingMul index size = r.transferSize - index * size := by
    unfold saturatingMul
    omega
  simp only [partFitsSize, decide_eq_true_eq, consumed, room]

theorem partFits_iff {r : IncomingResource} (wide : r.transferSize ≤ u64Max) (index bytes : Nat) :
    r.partFits index bytes = true ↔
      bytes ≤ room r.transferSize r.sdu index ∨
        ∃ size, r.smallerSdu = some size ∧ bytes ≤ room r.transferSize size index := by
  simp only [partFits, Bool.or_eq_true, partFitsSize_iff wide, Option.any_eq_true]

theorem Holding.Sound.room_eq {h : Holding} (sound : h.Sound) {smaller size index : Nat}
    (undecided : h.smallerSdu = some smaller) (inside : index + 1 < h.numParts) (small : size ≤ h.sdu) :
    room h.transferSize size index = size := by
  have filled := sound.full smaller undecided index inside
  have scaled : (index + 1) * size ≤ (index + 1) * h.sdu := Nat.mul_le_mul_left _ small
  rw [Nat.add_mul, Nat.one_mul] at scaled
  unfold room
  omega

/-- What the last slot holds is within the larger size's room for it. -/
def LastFits (r : IncomingResource) : Prop :=
  ∀ data, r.parts[r.numParts - 1]? = some (some data) → data.length ≤ room r.transferSize r.sdu (r.numParts - 1)

/-- The part is taken and longer than the smaller size still open. -/
def settlesLarger (P : Primitives) (r : IncomingResource) (data : Bytes) : Bool :=
  claimsPart P r data && r.smallerSdu.any (fun size => size < data.length)

theorem Holding.Sound.store {h h' : Holding} (sound : h.Sound) {index : Nat} {data : Bytes}
    (parts : h'.parts = h.parts.set index (some data)) (numParts : h'.numParts = h.numParts)
    (transferSize : h'.transferSize = h.transferSize) (fits : data.length ≤ room h.transferSize h'.governing index)
    (others : ∀ at' kept, h.parts[at']? = some (some kept) → kept.length ≤ room h.transferSize h'.governing at')
    (sizes : h'.smallerSdu = none ∨ h'.sdu = h.sdu ∧ h'.smallerSdu = h.smallerSdu) : h'.Sound where
  within := by
    intro at' kept stored
    rw [parts, List.getElem?_set] at stored
    rw [transferSize]
    split_ifs at stored with same inside
    · subst same
      cases stored
      exact fits
    · exact others at' kept stored
  slots := by rw [numParts, parts, List.length_set, sound.slots]
  wide := transferSize ▸ sound.wide
  ordered := by
    intro size undecided
    obtain settled | ⟨sdu, smaller⟩ := sizes
    · rw [settled] at undecided
      cases undecided
    · exact sdu ▸ sound.ordered size (smaller ▸ undecided)
  full := by
    intro size undecided at' inside
    obtain settled | ⟨sdu, smaller⟩ := sizes
    · rw [settled] at undecided
      cases undecided
    · rw [sdu, transferSize]
      exact sound.full size (smaller ▸ undecided) at' (numParts ▸ inside)

theorem length_le_room {total size larger index bytes : Nat} (small : size ≤ larger) (short : bytes ≤ size)
    (fits : bytes ≤ room total larger index) : bytes ≤ room total size index := by
  have scaled : index * size ≤ index * larger := Nat.mul_le_mul_left _ small
  unfold room at fits ⊢
  omega

theorem Holding.Sound.within_larger {r : IncomingResource} (sound : r.holding.Sound) {smaller : Nat}
    (undecided : r.smallerSdu = some smaller) (last : r.LastFits) (index : Nat) (kept : Bytes)
    (stored : r.parts[index]? = some (some kept)) : kept.length ≤ room r.transferSize r.sdu index := by
  have inside : index < r.numParts := by
    have short := (List.getElem?_eq_some_iff.mp stored).1
    have slots : r.numParts = r.parts.length := sound.slots
    omega
  by_cases final : index + 1 < r.numParts
  · have whole : room r.transferSize r.sdu index = r.sdu := sound.room_eq undecided final (Nat.le_refl _)
    have held := sound.within index kept stored
    have governing : r.holding.governing = smaller := by
      show r.smallerSdu.getD r.sdu = smaller
      rw [undecided]
      rfl
    have short : kept.length ≤ smaller := (governing ▸ held).trans (Nat.min_le_right _ _)
    rw [whole]
    exact short.trans (sound.ordered smaller undecided)
  · have at' : index = r.numParts - 1 := by omega
    subst at'
    exact last kept stored

theorem sound_receivePart {P : Primitives} {r : IncomingResource} {data : Bytes} (sound : r.holding.Sound)
    (last : settlesLarger P r data = true → r.LastFits) (nowMs : Nat) :
    (receivePart P r data nowMs).2.holding.Sound := by
  obtain same | ⟨index, claimed, -, fits, -, stored⟩ := holding_receivePart P r data nowMs
  · rw [same]
    exact sound
  rw [stored]
  have room := (partFits_iff sound.wide index data.length).mp fits
  cases undecided : r.smallerSdu with
  | none =>
    have settled : r.settlePartSize index data.length = r := by
      unfold settlePartSize
      rw [undecided]
    have governing : r.holding.governing = r.sdu := by
      show r.smallerSdu.getD r.sdu = r.sdu
      rw [undecided]
      rfl
    rw [settled]
    refine sound.store rfl rfl rfl ?_ sound.within (.inr ⟨rfl, rfl⟩)
    obtain larger | ⟨size, other, -⟩ := room
    · exact governing ▸ larger
    · rw [undecided] at other
      cases other
  | some smaller =>
    have small : smaller ≤ r.sdu := sound.ordered smaller undecided
    have governing : r.holding.governing = smaller := by
      show r.smallerSdu.getD r.sdu = smaller
      rw [undecided]
      rfl
    by_cases long : smaller < data.length
    · have settled : r.settlePartSize index data.length = { r with smallerSdu := none } := by
        unfold settlePartSize
        rw [undecided]
        exact if_pos long
      have settles : settlesLarger P r data = true := by
        simp [settlesLarger, claimed, undecided, long]
      rw [settled]
      refine sound.store rfl rfl rfl ?_ (sound.within_larger undecided (last settles)) (.inl rfl)
      obtain larger | ⟨size, other, short⟩ := room
      · exact larger
      · rw [undecided] at other
        cases other
        exact absurd (short.trans (Nat.min_le_right _ _)) (Nat.not_le.mpr long)
    · have short : data.length ≤ smaller := Nat.le_of_not_lt long
      have fitsSmaller : data.length ≤ Resource.room r.transferSize smaller index := by
        obtain larger | ⟨size, other, within⟩ := room
        · exact length_le_room small short larger
        · rw [undecided] at other
          cases other
          exact within
      have others := sound.within
      rw [governing] at others
      by_cases whole : data.length = smaller ∧ index + 1 < r.numParts
      · have settled : r.settlePartSize index data.length = { r with sdu := smaller, smallerSdu := none } := by
          unfold settlePartSize
          rw [undecided]
          exact (if_neg long).trans (if_pos whole)
        rw [settled]
        exact sound.store rfl rfl rfl fitsSmaller others (.inl rfl)
      · have settled : r.settlePartSize index data.length = r := by
          unfold settlePartSize
          rw [undecided]
          exact (if_neg long).trans (if_neg whole)
        rw [settled]
        refine sound.store rfl rfl rfl ?_ sound.within (.inr ⟨rfl, rfl⟩)
        exact governing ▸ fitsSmaller

/-! ### A whole reception -/

/-- What happens to a reception once it is accepted. -/
inductive ReceptionCall where
  | part (data : Bytes) (nowMs : Nat)
  /-- `none` stands for bytes that are no HMU. -/
  | hashmapUpdate (nowMs : Nat) (update : Option HashmapUpdate)
  | poll (nowMs rttMs turnaroundMs acquisitionMs : Nat)
  | readvertise (resourceHash : Digest) (nowMs : Nat)

def ReceptionCall.run (P : Primitives) (r : IncomingResource) : ReceptionCall → IncomingResource
  | .part data nowMs => (receivePart P r data nowMs).2
  | .hashmapUpdate _ none => r
  | .hashmapUpdate nowMs (some update) => (r.handleHashmapUpdate nowMs update).2
  | .poll nowMs rttMs turnaroundMs acquisitionMs => (r.poll nowMs rttMs turnaroundMs acquisitionMs).2
  | .readvertise resourceHash nowMs => (r.requestAgainForReadvertisement resourceHash nowMs).2

def after (P : Primitives) (r : IncomingResource) (calls : List ReceptionCall) : IncomingResource :=
  calls.foldl (ReceptionCall.run P) r

/-- A part that settles the larger size finds the last slot empty, or holding no more than that size leaves
it. -/
def ReceptionCall.Settled (P : Primitives) (r : IncomingResource) : ReceptionCall → Prop
  | .part data _ => settlesLarger P r data = true → r.LastFits
  | _ => True

/-- An advertisement accepted, at one part size or at the two of a link that moved. -/
inductive Accepted (adv : ResourceAdvertisement) : IncomingResource → Prop
  | single {sdu nowMs maxSize windowPolicy r req}
      (accepted : fromAdvertisement adv sdu nowMs maxSize windowPolicy = .ok (r, req)) : Accepted adv r
  | sized {sdu other nowMs maxSize windowPolicy r req}
      (accepted : fromAdvertisementSized adv (resolvePartSize adv sdu other) nowMs maxSize windowPolicy =
        .ok (r, req)) : Accepted adv r

theorem fromAdvertisement_holding {adv : ResourceAdvertisement} {sdu nowMs maxSize : Nat}
    {windowPolicy : WindowPolicy} {r : IncomingResource} {req : PartRequest}
    (accepted : fromAdvertisement adv sdu nowMs maxSize windowPolicy = .ok (r, req)) :
    sdu ≠ 0 ∧ r.holding = ⟨List.replicate (divCeil adv.transferSize sdu) none, divCeil adv.transferSize sdu,
      adv.transferSize, sdu, none⟩ := by
  unfold fromAdvertisement at accepted
  split_ifs at accepted with large data zero many count
  cases accepted
  exact ⟨zero, rfl⟩

theorem mul_lt_of_lt_divCeil {total size index : Nat} (inside : index < divCeil total size) :
    index * size < total := by
  unfold divCeil at inside
  rcases Nat.eq_zero_or_pos size with rfl | positive
  · simp at inside
  · have whole := (Nat.le_div_iff_mul_le positive).mp inside
    rw [Nat.succ_mul] at whole
    omega

theorem Holding.sound_empty {total size : Nat} {smaller : Option Nat} (wide : total ≤ u64Max)
    (ordered : ∀ other, smaller = some other → other ≤ size) :
    (Holding.mk (List.replicate (divCeil total size) none) (divCeil total size) total size smaller).Sound where
  within := by
    intro index data stored
    rw [List.getElem?_replicate] at stored
    split_ifs at stored
    cases stored
  slots := List.length_replicate.symm
  wide := wide
  ordered := ordered
  full := fun _ _ _ inside => mul_lt_of_lt_divCeil inside

theorem resolvePartSize_ordered {adv : ResourceAdvertisement} {sdu : Nat} {other : Option Nat} {smaller : Nat}
    (undecided : (resolvePartSize adv sdu other).2 = some smaller) :
    smaller ≤ (resolvePartSize adv sdu other).1 := by
  unfold resolvePartSize at undecided ⊢
  dsimp only at undecided ⊢
  split at undecided
  · cases undecided
  · split_ifs at undecided ⊢
    cases undecided
    exact (Nat.min_le_left _ _).trans (Nat.le_max_left _ _)

theorem Accepted.sound {adv : ResourceAdvertisement} {r : IncomingResource} (accepted : Accepted adv r)
    (wide : adv.transferSize ≤ u64Max) : r.holding.Sound ∧ r.transferSize = adv.transferSize := by
  cases accepted with
  | single accepted =>
    obtain ⟨-, held⟩ := fromAdvertisement_holding accepted
    refine ⟨?_, congrArg Holding.transferSize held⟩
    rw [held]
    exact Holding.sound_empty wide (fun _ undecided => nomatch undecided)
  | @sized sdu other nowMs maxSize windowPolicy _ req accepted =>
    unfold fromAdvertisementSized at accepted
    cases first : fromAdvertisement adv (resolvePartSize adv sdu other).1 nowMs maxSize windowPolicy with
    | error refused =>
      rw [first] at accepted
      cases accepted
    | ok result =>
      obtain ⟨begun, begunReq⟩ := result
      rw [first] at accepted
      cases accepted
      obtain ⟨-, held⟩ := fromAdvertisement_holding first
      have opened : ({ begun with smallerSdu := (resolvePartSize adv sdu other).2 } : IncomingResource).holding =
          { begun.holding with smallerSdu := (resolvePartSize adv sdu other).2 } := rfl
      refine ⟨?_, congrArg Holding.transferSize held⟩
      rw [opened, held]
      exact Holding.sound_empty wide (fun smaller undecided => resolvePartSize_ordered undecided)

theorem ReceptionCall.sound {P : Primitives} {r : IncomingResource} {call : ReceptionCall}
    (settled : call.Settled P r) (sound : r.holding.Sound) : (call.run P r).holding.Sound := by
  cases call with
  | part data nowMs => exact sound_receivePart sound settled nowMs
  | hashmapUpdate nowMs update =>
    cases update with
    | none => exact sound
    | some update => exact (holding_handleHashmapUpdate r nowMs update).symm ▸ sound
  | poll nowMs rttMs turnaroundMs acquisitionMs =>
    exact (holding_poll r nowMs rttMs turnaroundMs acquisitionMs).symm ▸ sound
  | readvertise resourceHash nowMs => exact (holding_requestAgain r resourceHash nowMs).symm ▸ sound

theorem ReceptionCall.transferSize (P : Primitives) (r : IncomingResource) (call : ReceptionCall) :
    (call.run P r).transferSize = r.transferSize := by
  have same : (call.run P r).holding.transferSize = r.holding.transferSize := by
    cases call with
    | part data nowMs =>
      obtain same | ⟨index, -, -, -, -, stored⟩ := holding_receivePart P r data nowMs
      · exact congrArg Holding.transferSize same
      · refine (congrArg Holding.transferSize stored).trans ?_
        show (r.settlePartSize index data.length).transferSize = r.transferSize
        unfold settlePartSize
        split
        · rfl
        · split_ifs <;> rfl
    | hashmapUpdate nowMs update =>
      cases update with
      | none => rfl
      | some update => exact congrArg Holding.transferSize (holding_handleHashmapUpdate r nowMs update)
    | poll nowMs rttMs turnaroundMs acquisitionMs =>
      exact congrArg Holding.transferSize (holding_poll r nowMs rttMs turnaroundMs acquisitionMs)
    | readvertise resourceHash nowMs =>
      exact congrArg Holding.transferSize (holding_requestAgain r resourceHash nowMs)
  exact same

theorem after_sound {P : Primitives} (calls : List ReceptionCall) {r : IncomingResource} (sound : r.holding.Sound)
    (settled : ∀ done call rest, calls = done ++ call :: rest → call.Settled P (after P r done)) :
    (after P r calls).holding.Sound ∧ (after P r calls).transferSize = r.transferSize := by
  induction calls generalizing r with
  | nil => exact ⟨sound, rfl⟩
  | cons call calls ih =>
    have kept : (call.run P r).holding.Sound := ReceptionCall.sound (settled [] call calls rfl) sound
    have later := ih kept (fun done next rest split => settled (call :: done) next rest (by rw [split]; rfl))
    exact ⟨later.1, later.2.trans (call.transferSize P r)⟩

/-- As long as no part settles the larger of two open sizes over a last slot filled beyond what that size leaves
it, a reception holds no more than was advertised. -/
theorem retained_le_transferSize {P : Primitives} {adv : ResourceAdvertisement} {r : IncomingResource}
    {calls : List ReceptionCall} (accepted : Accepted adv r) (wide : adv.transferSize ≤ u64Max)
    (settled : ∀ done call rest, calls = done ++ call :: rest → call.Settled P (after P r done)) :
    (after P r calls).retained ≤ adv.transferSize := by
  obtain ⟨sound, size⟩ := accepted.sound wide
  obtain ⟨held, kept⟩ := after_sound calls sound settled
  have bounded : (after P r calls).retained ≤ (after P r calls).transferSize := held.sum_le
  rw [kept, size] at bounded
  exact bounded

/-- Two parts of up to 64 bytes, or two of 48, on a link that moved between MTUs of 100 and 84. -/
def twoParts : ResourceAdvertisement where
  transferSize := 96
  dataSize := 30
  numParts := 2
  resourceHash := FixedBytes.replicate 32 0
  randomHash := FixedBytes.replicate 4 0
  originalHash := FixedBytes.replicate 32 0
  segmentIndex := 1
  totalSegments := 1
  requestId := none
  flags := ⟨true, false, false, false, false, false⟩
  hashmapData := [0, 1]

def twoPartsAccepted : Except ResourceError (IncomingResource × PartRequest) :=
  fromAdvertisementSized twoParts (resolvePartSize twoParts (resourceSdu 100) (some (resourceSdu 84))) 0 1000 .current

def firstPart : ReceptionCall := .part (List.replicate 64 0) 20

def secondPart (length nowMs : Nat) : ReceptionCall := .part ([0, 0, 0, 1] ++ List.replicate (length - 4) 0) nowMs

theorem twoParts_accepted {test : IncomingResource × PartRequest → Bool}
    (tested : twoPartsAccepted.toOption.any test = true) :
    ∃ r req, Accepted twoParts r ∧ test (r, req) = true := by
  obtain ⟨⟨r, req⟩, made, holds⟩ := (Option.any_eq_true ..).mp tested
  refine ⟨r, req, .sized (toOption_eq_some made), holds⟩

/-- Two parts as a sender with the larger size cuts them. -/
theorem larger_parts_within : ∃ r, Accepted twoParts r ∧ (after .plain r [firstPart, secondPart 32 30]).retained = 96 ∧
    (after .plain r [firstPart, secondPart 32 30]).retained ≤ twoParts.transferSize := by
  have run : twoPartsAccepted.toOption.any (fun accepted =>
      accepted.1.parts[accepted.1.numParts - 1]? = some none ∧
      settlesLarger .plain (firstPart.run .plain accepted.1) ([0, 0, 0, 1] ++ List.replicate 28 0) = false ∧
      (after .plain accepted.1 [firstPart, secondPart 32 30]).retained = 96) = true := by
    decide
  obtain ⟨r, req, accepted, facts⟩ := twoParts_accepted run
  obtain ⟨empty, settled, total⟩ := of_decide_eq_true facts
  refine ⟨r, accepted, total, retained_le_transferSize accepted (by decide) ?_⟩
  intro done call rest split
  rcases done with _ | ⟨first, _ | ⟨second, done⟩⟩
  · cases split
    intro _ data stored
    cases empty.symm.trans stored
  · cases split
    intro settles
    cases settled.symm.trans settles
  · simp at split

/-- The second part at 48 bytes, all the smaller size leaves it, and then the first at 64, which settles the
larger one: 112 bytes held of 96. -/
theorem sizes_settled_late_exceed : ∃ r calls, Accepted twoParts r ∧ twoParts.transferSize ≤ u64Max ∧
    twoParts.transferSize < (after .plain r calls).retained := by
  have run : twoPartsAccepted.toOption.any (fun accepted =>
      (after .plain accepted.1 [secondPart 48 10, firstPart]).retained = 112) = true := by
    decide
  obtain ⟨r, req, accepted, facts⟩ := twoParts_accepted run
  have total : (after .plain r [secondPart 48 10, firstPart]).retained = 112 := of_decide_eq_true facts
  refine ⟨r, [secondPart 48 10, firstPart], accepted, by decide, ?_⟩
  rw [total]
  decide

end IncomingResource

end Leviculum.Resource
