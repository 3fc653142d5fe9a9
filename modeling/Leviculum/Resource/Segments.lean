import Leviculum.Resource.Incoming
import Leviculum.Resource.SenderSpec

/-! Splitting a transfer into segments that are advertised one after the other. -/

namespace Leviculum.Resource

open Blocks

/-- `RESOURCE_MAX_INCOMING_SIZE`: a segment, the random prefix, the token's overhead and a block of padding. -/
def maxIncomingSize : Nat := maxEfficientSize + randomHashSize + 48 + 16

/-- The cast to 32 bits drops what is above them, and so does the addition. -/
def segmentCount (totalSize : Nat) : Nat :=
  if totalSize = 0 then 1 else ((totalSize - 1) / maxEfficientSize % 2 ^ 32 + 1) % 2 ^ 32

structure InternalRequestTag where
  requestId : Bytes
  isResponse : Bool
  advertisementTimeoutMs : Option Nat

structure OutgoingSegmentPlan where
  data : Bytes
  metadata : Option Bytes
  metadataSize : Nat
  totalSegments : Nat
  nextIndex : Nat
  originalHash : Digest
  totalDataSize : Nat
  autoCompress : Bool

namespace OutgoingSegmentPlan

def new (data : Bytes) (metadata : Option Bytes) (metadataSize totalSegments : Nat) (autoCompress : Bool) :
    OutgoingSegmentPlan where
  data := data
  metadata := metadata
  metadataSize := metadataSize
  totalSegments := totalSegments
  nextIndex := 2
  originalHash := FixedBytes.replicate 32 0
  totalDataSize := metadataSize + data.length
  autoCompress := autoCompress

def blockSize (metadata : Option Bytes) : Nat := metadata.elim 0 (fun metadata => 3 + metadata.length)

/-- The plan `prepare_resource_send` and `send_internal_split` make. -/
def planFor (data : Bytes) (metadata : Option Bytes) (autoCompress : Bool) : OutgoingSegmentPlan :=
  new data metadata (blockSize metadata) (segmentCount (blockSize metadata + data.length)) autoCompress

def setOriginalHash (plan : OutgoingSegmentPlan) (hash : Digest) : OutgoingSegmentPlan :=
  { plan with originalHash := hash }

def hasNext (plan : OutgoingSegmentPlan) : Bool := plan.nextIndex ≤ plan.totalSegments

def advance (plan : OutgoingSegmentPlan) : OutgoingSegmentPlan := { plan with nextIndex := plan.nextIndex + 1 }

/-- Where segment `index`, counted from one, starts and stops in the data. -/
def dataRange (plan : OutgoingSegmentPlan) (index : Nat) : Nat × Nat :=
  let firstReadSize := maxEfficientSize - plan.metadataSize
  let start := if index ≤ 1 then 0 else firstReadSize + (index - 2) * maxEfficientSize
  let want := if index ≤ 1 then firstReadSize else maxEfficientSize
  let start := min start plan.data.length
  (start, min (start + want) plan.data.length)

/-- What `build_segment` hands to the build of one resource. -/
def segmentOptions (plan : OutgoingSegmentPlan) (index : Nat) (request : Option InternalRequestTag) : SendOptions :=
  let range := plan.dataRange index
  { data := (plan.data.take range.2).drop range.1
    metadata := if index ≤ 1 then plan.metadata else none
    requestId := request.map InternalRequestTag.requestId
    autoCompress := plan.autoCompress
    isResponse := request.any InternalRequestTag.isResponse
    advertisementTimeoutMs := request.bind InternalRequestTag.advertisementTimeoutMs
    segment :=
      { segmentIndex := index
        totalSegments := plan.totalSegments
        originalHash := if index ≤ 1 then none else some plan.originalHash
        totalDataSize := some plan.totalDataSize
        forceHasMetadata := plan.metadataSize > 0 } }

def buildSegment (P : Primitives) (plan : OutgoingSegmentPlan) (index : Nat) (crypt : ResourceCryptParams)
    (draws : Draws) (nowMs : Nat) (request : Option InternalRequestTag) :
    Except ResourceError (Option OutgoingResource) :=
  newWithFlags P (plan.segmentOptions index request) crypt draws nowMs

/-- The first segment is always built, the others as long as `has_next`. -/
def Sends (plan : OutgoingSegmentPlan) (index : Nat) : Prop :=
  index = 1 ∨ (2 ≤ index ∧ index ≤ plan.totalSegments)

/-- The segments cut the data into consecutive ranges, none too large with its metadata, and a receiver of
default limits takes the advertisement of each. -/
structure Partitions (plan : OutgoingSegmentPlan) : Prop where
  count : plan.totalSegments = segmentCount plan.totalDataSize
  first : (plan.dataRange 1).1 = 0
  within : ∀ i, plan.Sends i → (plan.dataRange i).1 ≤ (plan.dataRange i).2 ∧ (plan.dataRange i).2 ≤ plan.data.length
  consecutive : ∀ i, plan.Sends i → plan.Sends (i + 1) → (plan.dataRange i).2 = (plan.dataRange (i + 1)).1
  covers : ∀ k < plan.data.length, ∃! i, plan.Sends i ∧ (plan.dataRange i).1 ≤ k ∧ k < (plan.dataRange i).2
  fits : ∀ i, plan.Sends i → ∀ request, (plan.segmentOptions i request).combined.length ≤ maxEfficientSize
  accepted : ∀ i, plan.Sends i → ∀ (P : Primitives) crypt draws nowMs request sender, P.TokenLength →
    0 < resourceSdu crypt.negotiatedMtu → plan.buildSegment P i crypt draws nowMs request = .ok (some sender) →
    ∀ acceptedMs policy, ∃ receiver, IncomingResource.fromAdvertisement sender.advertisement
      (resourceSdu crypt.negotiatedMtu) acceptedMs maxIncomingSize policy = .ok receiver

section

variable {data : Bytes} {metadata : Option Bytes} {autoCompress : Bool}

theorem dataRange_planFor (room : blockSize metadata ≤ maxEfficientSize) {i : Nat} (positive : 1 ≤ i) :
    (planFor data metadata autoCompress).dataRange i =
      (if i = 1 then 0 else min ((i - 1) * maxEfficientSize - blockSize metadata) data.length,
        min (i * maxEfficientSize - blockSize metadata) data.length) := by
  simp only [dataRange, planFor, new, Prod.mk.injEq]
  simp only [maxEfficientSize] at *
  by_cases first : i = 1
  · subst first
    simp
  · have later : ¬ i ≤ 1 := by omega
    simp only [if_neg later, if_neg first]
    omega

theorem combined_length (plan : OutgoingSegmentPlan) (index : Nat) (request : Option InternalRequestTag)
    (stops : (plan.dataRange index).2 ≤ plan.data.length) :
    (plan.segmentOptions index request).combined.length =
      (if index ≤ 1 then blockSize plan.metadata else 0) + ((plan.dataRange index).2 - (plan.dataRange index).1) := by
  have slice : ((plan.data.take (plan.dataRange index).2).drop (plan.dataRange index).1).length =
      (plan.dataRange index).2 - (plan.dataRange index).1 := by
    rw [List.length_drop, List.length_take, Nat.min_eq_left stops]
  simp only [SendOptions.combined, segmentOptions]
  by_cases first : index ≤ 1
  · simp only [if_pos first]
    cases plan.metadata with
    | none => simpa [combine, blockSize] using slice
    | some metadata =>
      simp only [combine, blockSize, Option.elim_some, List.length_append, metadataLength, List.length_cons,
        List.length_nil, slice]
  · simp only [if_neg first, combine, slice, Nat.zero_add]

end

theorem payload_le_combined (P : Primitives) (options : SendOptions) :
    (options.payload P).length ≤ options.combined.length := by
  unfold SendOptions.payload squeeze
  split_ifs with compresses
  · cases squeezed : (P.bz2Compress options.combined).filter
        (fun squeezed => squeezed.length < options.combined.length) with
    | none => simp
    | some short =>
      have smaller := (Option.filter_eq_some_iff.mp squeezed).2
      simp only [decide_eq_true_eq] at smaller
      simp only [Option.getD_some]
      omega
  · simp

theorem tokenLen_le {length : Nat} (small : length ≤ maxEfficientSize) :
    tokenLen (randomHashSize + length) ≤ maxIncomingSize := by
  unfold tokenLen maxIncomingSize randomHashSize maxEfficientSize at *
  omega

theorem divCeil_le (length : Nat) {size : Nat} (positive : 0 < size) : divCeil length size ≤ length := by
  unfold divCeil
  cases length with
  | zero => rw [Nat.zero_add, Nat.div_eq_of_lt (by omega)]
  | succ length =>
    apply Nat.div_le_of_le_mul
    have grows := Nat.le_mul_of_pos_left length positive
    rw [Nat.mul_succ]
    omega

theorem accepted_of_fits {P : Primitives} {options : SendOptions} {crypt : ResourceCryptParams} {draws : Draws}
    {nowMs : Nat} {sender : OutgoingResource} (lengths : P.TokenLength) (positive : 0 < resourceSdu crypt.negotiatedMtu)
    (built : newWithFlags P options crypt draws nowMs = .ok (some sender))
    (small : options.combined.length ≤ maxEfficientSize)
    (counted : options.segment.totalDataSize.getD options.combined.length ≤
      saturatingMul (max options.segment.totalSegments 1) maxEfficientSize)
    (acceptedMs : Nat) (policy : WindowPolicy) :
    ∃ receiver, IncomingResource.fromAdvertisement sender.advertisement (resourceSdu crypt.negotiatedMtu) acceptedMs
      maxIncomingSize policy = .ok receiver := by
  obtain ⟨key, -, made⟩ := newWithFlags_spec built
  have parts := made.numParts_eq lengths positive
  have size : sender.advertisement.transferSize = tokenLen (randomHashSize + (options.payload P).length) := by
    rw [made.advertisement]
    rfl
  have bounded : sender.advertisement.transferSize ≤ maxIncomingSize := by
    rw [size]
    exact tokenLen_le ((payload_le_combined P options).trans small)
  have total : sender.advertisement.dataSize ≤
      saturatingMul (max sender.advertisement.totalSegments 1) maxEfficientSize := by
    rw [made.advertisement]
    exact counted
  have few : divCeil sender.advertisement.transferSize (resourceSdu crypt.negotiatedMtu) ≤ maxIncomingSize :=
    (divCeil_le _ positive).trans bounded
  have numbered : sender.advertisement.numParts ≤
      divCeil sender.advertisement.transferSize (resourceSdu crypt.negotiatedMtu) := by
    rw [parts, made.hashmap_length, made.advertisement]
    exact Nat.mod_le _ _
  have limit : maxIncomingSize < 2 ^ 32 := by decide
  unfold IncomingResource.fromAdvertisement
  rw [if_neg (Nat.not_lt.mpr bounded), if_neg (Nat.not_lt.mpr total), if_neg (by omega), if_neg (by omega),
    if_neg (Nat.not_lt.mpr numbered)]
  exact ⟨_, rfl⟩

theorem Partitions.block_le {data : Bytes} {metadata : Option Bytes} {autoCompress : Bool}
    (partition : (planFor data metadata autoCompress).Partitions) : blockSize metadata ≤ maxEfficientSize := by
  have fits := partition.fits 1 (.inl rfl) none
  rw [combined_length _ _ _ (partition.within 1 (.inl rfl)).2, if_pos (Nat.le_refl 1)] at fits
  have block : (planFor data metadata autoCompress).metadata = metadata := rfl
  rw [block] at fits
  omega

/-- Segments partition the data exactly when the metadata leaves room in the first one and their number fits
its 32 bits. -/
theorem segments_partition_iff (data : Bytes) (metadata : Option Bytes) (autoCompress : Bool) :
    (planFor data metadata autoCompress).Partitions ↔
      blockSize metadata ≤ maxEfficientSize ∧
        blockSize metadata + data.length ≤ (2 ^ 32 - 1) * maxEfficientSize := by
  have size : (planFor data metadata autoCompress).data.length = data.length := rfl
  have segments : (planFor data metadata autoCompress).totalSegments =
      segmentCount (blockSize metadata + data.length) := rfl
  constructor
  · intro partition
    have room := partition.block_le
    refine ⟨room, ?_⟩
    by_contra many
    obtain ⟨i, ⟨sends, -, below⟩, -⟩ := partition.covers (data.length - 1) (by
      rw [size]
      unfold maxEfficientSize at *
      omega)
    have positive : 1 ≤ i := by
      rcases sends with rfl | ⟨later, -⟩
      · exact Nat.le_refl 1
      · omega
    rw [dataRange_planFor room positive] at below
    unfold Sends at sends
    rw [segments] at sends
    unfold segmentCount maxEfficientSize at *
    dsimp only at below
    rw [if_neg (by omega)] at sends
    omega
  · rintro ⟨room, few⟩
    have enough : blockSize metadata + data.length ≤ segmentCount (blockSize metadata + data.length) * maxEfficientSize ∧
        1 ≤ segmentCount (blockSize metadata + data.length) := by
      unfold segmentCount maxEfficientSize at *
      split_ifs
      · omega
      · omega
    have positive : ∀ i, (planFor data metadata autoCompress).Sends i → 1 ≤ i := by
      rintro i (rfl | ⟨later, -⟩)
      · exact Nat.le_refl 1
      · omega
    have within : ∀ i, (planFor data metadata autoCompress).Sends i →
        ((planFor data metadata autoCompress).dataRange i).1 ≤ ((planFor data metadata autoCompress).dataRange i).2 ∧
          ((planFor data metadata autoCompress).dataRange i).2 ≤ data.length := by
      intro i sends
      rw [dataRange_planFor room (positive i sends)]
      have counted := positive i sends
      unfold maxEfficientSize at *
      dsimp only
      split_ifs
      · omega
      · omega
    have fits : ∀ i, (planFor data metadata autoCompress).Sends i → ∀ request,
        ((planFor data metadata autoCompress).segmentOptions i request).combined.length ≤ maxEfficientSize := by
      intro i sends request
      rw [combined_length _ _ _ (within i sends).2, dataRange_planFor room (positive i sends)]
      have block : blockSize (planFor data metadata autoCompress).metadata = blockSize metadata := rfl
      rw [block]
      have counted := positive i sends
      unfold maxEfficientSize at *
      dsimp only
      split_ifs
      · omega
      · omega
      · omega
      · omega
    refine ⟨rfl, ?_, within, ?_, ?_, fits, ?_⟩
    · rw [dataRange_planFor room (Nat.le_refl 1)]
      rfl
    · intro i sends next
      rw [dataRange_planFor room (positive i sends), dataRange_planFor room (positive _ next)]
      have counted := positive i sends
      dsimp only
      rw [if_neg (by omega), Nat.add_sub_cancel]
    · intro k inside
      rw [size] at inside
      refine ⟨(k + blockSize metadata) / maxEfficientSize + 1, ⟨?_, ?_⟩, ?_⟩
      · unfold Sends
        rw [segments]
        unfold maxEfficientSize at *
        omega
      · rw [dataRange_planFor room (Nat.le_add_left 1 _)]
        unfold maxEfficientSize at *
        dsimp only
        split_ifs
        · omega
        · omega
      · rintro i ⟨sends, from_, until_⟩
        have counted := positive i sends
        rw [dataRange_planFor room (positive i sends)] at from_ until_
        unfold maxEfficientSize at *
        dsimp only at from_ until_
        split_ifs at from_
        · omega
        · omega
    · intro i sends P crypt draws nowMs request sender lengths link built acceptedMs policy
      refine accepted_of_fits lengths link built (fits i sends request) ?_ acceptedMs policy
      show blockSize metadata + data.length ≤ saturatingMul (max (segmentCount _) 1) maxEfficientSize
      unfold saturatingMul u64Max maxEfficientSize at *
      omega

/-- A megabyte of metadata in front of nothing: the first segment is one byte too large. -/
theorem metadata_overfills_first_segment :
    ¬ (planFor [] (some (List.replicate 1048573 0)) true).Partitions := by
  intro partition
  have room := partition.block_le
  rw [blockSize, Option.elim_some, List.length_replicate, maxEfficientSize] at room
  omega

end OutgoingSegmentPlan

end Leviculum.Resource
