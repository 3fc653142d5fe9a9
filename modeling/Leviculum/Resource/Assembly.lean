import Leviculum.Resource.Incoming
import Leviculum.Resource.SenderSpec

/-! Assembling a received resource: decryption, decompression, the check of the resource hash,
the proof and the metadata. -/

namespace Leviculum.Resource

structure AssemblyInput where
  stream : Bytes
  tokenKey : Option TokenKey
  compressed : Bool
  dataSize : Nat
  randomHash : RandomHash
  resourceHash : Digest
  extractMetadata : Bool

structure Assembled where
  data : Bytes
  metadata : Option Bytes
  proofHash : Digest

structure AssemblyFailure where
  error : ResourceError
  corrupt : Bool
  proofHash : Option Digest

def fail (error : ResourceError) : AssemblyFailure := ⟨error, false, none⟩

/-- The attempts of `bz2_decompress`, each with twice the room of the one before. -/
def decompressAttempts (P : Primitives) (input : Bytes) : Nat → Nat → Except ResourceError Bytes
  | 0, _ => .error .decompressionFailed
  | attempts + 1, bufSize =>
    match P.bzBuffToBuffDecompress input bufSize with
    | .ok output => .ok output
    | .outbuffFull => decompressAttempts P input attempts (saturatingMul bufSize 2)
    | .error => .error .decompressionFailed

def bz2Decompress (P : Primitives) (input : Bytes) (expectedSize : Nat) : Except ResourceError Bytes :=
  let expectedSize := min expectedSize maxEfficientSize
  decompressAttempts P input 4 (max (saturatingAdd expectedSize (expectedSize / 10)) 1024)

/-- The plaintext after its random prefix, decompressed when the advertisement says so. -/
def unpackPayload (P : Primitives) (compressed : Bool) (payload : Bytes) (dataSize : Nat) :
    Except AssemblyFailure Bytes :=
  if compressed then
    if P.compression then (bz2Decompress P payload dataSize).mapError fail
    else .error (fail .compressionUnsupported)
  else .ok payload

def splitMetadata (assembled : Bytes) : Option (Bytes × Bytes) :=
  let metaLen := Bytes.ofBe (assembled.take 3)
  if assembled.length < 3 then none
  else if assembled.length < 3 + metaLen then none
  else some ((assembled.drop 3).take metaLen, assembled.drop (3 + metaLen))

def runAssembly (P : Primitives) (input : AssemblyInput) : Except AssemblyFailure Assembled :=
  match input.tokenKey with
  | none => .error (fail .cryptoError)
  | some key =>
    match P.decryptToken key input.stream with
    | none => .error (fail .cryptoError)
    | some decrypted =>
      if decrypted.length < randomHashSize then .error (fail .hashMismatch)
      else
        match unpackPayload P input.compressed (decrypted.drop randomHashSize) input.dataSize with
        | .error failure => .error failure
        | .ok assembled =>
          if fullHashParts P assembled input.randomHash.val ≠ input.resourceHash then
            .error ⟨.hashMismatch, true, none⟩
          else
            let proofHash := fullHashParts P assembled input.resourceHash.val
            if input.extractMetadata then
              match splitMetadata assembled with
              | none => .error ⟨.hashMismatch, false, some proofHash⟩
              | some (metadata, data) => .ok ⟨data, some metadata, proofHash⟩
            else .ok ⟨assembled, none, proofHash⟩

namespace IncomingResource

/-- The parts leave the resource for the stream. -/
def takeAssemblyInput (r : IncomingResource) (tokenKey : Option TokenKey) :
    Except ResourceError AssemblyInput × IncomingResource :=
  if r.status ≠ .assembling then (.error .invalidRequest, r)
  else if r.parts.any Option.isNone then (.error .hashMismatch, r)
  else
    (.ok
      { stream := (r.parts.map (fun part => part.getD [])).flatten
        tokenKey := tokenKey
        compressed := r.flags.compressed
        dataSize := r.dataSize
        randomHash := r.randomHash
        resourceHash := r.resourceHash
        extractMetadata := r.flags.hasMetadata && r.segmentIndex == 1 },
      { r with parts := r.parts.map (fun _ => none) })

def applyAssembly (r : IncomingResource) (outcome : Except AssemblyFailure Assembled) :
    Except ResourceError (Bytes × Option Bytes) × IncomingResource :=
  match outcome with
  | .ok assembled =>
    (.ok (assembled.data, assembled.metadata),
      { r with proofHash := some assembled.proofHash, status := .complete })
  | .error failure =>
    (.error failure.error,
      { r with
        proofHash := if failure.proofHash.isSome then failure.proofHash else r.proofHash
        status := if failure.corrupt then .corrupt else r.status })

def assemble (P : Primitives) (r : IncomingResource) (tokenKey : Option TokenKey) :
    Except ResourceError (Bytes × Option Bytes) × IncomingResource :=
  match r.takeAssemblyInput tokenKey with
  | (.error error, r) => (.error error, r)
  | (.ok input, r) => r.applyAssembly (runAssembly P input)

def buildProof (r : IncomingResource) : Except ResourceError Bytes :=
  match r.proofHash with
  | none => .error .invalidRequest
  | some proofHash => .ok (r.resourceHash.val ++ proofHash.val)

end IncomingResource

theorem ofBe_metadataLength {length : Nat} (short : length < 2 ^ 24) :
    Bytes.ofBe (metadataLength length) = length := by
  simp only [metadataLength, Bytes.ofBe, List.foldl_cons, List.foldl_nil, UInt8.toNat_ofNat']
  omega

theorem splitMetadata_combine {metadata data : Bytes} (short : metadata.length < 2 ^ 24) :
    splitMetadata (combine (some metadata) data) = some (metadata, data) := by
  have header : (metadataLength metadata.length).length = 3 := rfl
  have first : (combine (some metadata) data).take 3 = metadataLength metadata.length := by
    rw [combine, List.append_assoc, ← header, List.take_left']
    rfl
  have rest : (combine (some metadata) data).drop 3 = metadata ++ data := by
    rw [combine, List.append_assoc, ← header, List.drop_left']
    rfl
  have total : (combine (some metadata) data).length = 3 + metadata.length + data.length := by
    rw [combine, List.length_append, List.length_append, header]
  unfold splitMetadata
  dsimp only
  rw [first, ofBe_metadataLength short, if_neg (by omega), if_neg (by omega), ← List.drop_drop, rest,
    List.take_left', List.drop_left']
  · rfl
  · rfl

/-- How a segment relates to the data and metadata it is built over. -/
structure SendOptions.Segmented (options : SendOptions) : Prop where
  metadata : options.metadata.isSome → options.segment.segmentIndex = 1
  flag : options.segment.segmentIndex = 1 → options.segment.forceHasMetadata = true →
    options.metadata.isSome
  size : ∀ total, options.segment.totalDataSize = some total →
    options.combined.length ≤ total ∧ options.combined.length ≤ maxEfficientSize
  whole : options.segment.totalDataSize = none → options.segment.totalSegments = 1

theorem segmented_of_single {options : SendOptions} (single : options.segment = .single) :
    options.Segmented := by
  constructor
  · rw [single]
    exact fun _ => rfl
  · rw [single]
    rintro - ⟨⟩
  · rw [single]
    rintro total ⟨⟩
  · rw [single]
    exact fun _ => rfl

theorem bz2Decompress_compressed {P : Primitives} (trips : P.RoundTrip) {data squeezed : Bytes}
    {dataSize : Nat} (compressed : P.bz2Compress data = some squeezed)
    (fits : data.length ≤ min dataSize maxEfficientSize) :
    bz2Decompress P squeezed dataSize = .ok data := by
  unfold bz2Decompress
  dsimp only
  unfold decompressAttempts
  have room : data.length ≤ max (saturatingAdd (min dataSize maxEfficientSize)
      (min dataSize maxEfficientSize / 10)) 1024 := by
    have small : min dataSize maxEfficientSize ≤ maxEfficientSize := Nat.min_le_right _ _
    simp only [saturatingAdd, u64Max, maxEfficientSize] at *
    omega
  rw [trips.decompress data squeezed _ compressed room]

/-- What the receiver of an advertisement hands to assembly once it has `stream`. -/
def ResourceAdvertisement.assemblyInput (adv : ResourceAdvertisement) (stream : Bytes)
    (key : TokenKey) : AssemblyInput where
  stream := stream
  tokenKey := some key
  compressed := adv.flags.compressed
  dataSize := adv.dataSize
  randomHash := adv.randomHash
  resourceHash := adv.resourceHash
  extractMetadata := adv.flags.hasMetadata && adv.segmentIndex == 1

namespace BuiltFrom

variable {P : Primitives} {options : SendOptions} {mtu : Nat} {key : TokenKey} {draws : Draws}
  {s : OutgoingResource}

theorem unpackPayload_eq (built : BuiltFrom P options mtu key draws s) (trips : P.RoundTrip)
    (fits : options.combined.length ≤ min s.advertisement.dataSize maxEfficientSize) :
    unpackPayload P s.advertisement.flags.compressed (options.payload P) s.advertisement.dataSize =
      .ok options.combined := by
  have flag : s.advertisement.flags.compressed =
      (squeeze P options.autoCompress options.combined).isSome := by
    rw [built.advertisement]
    rfl
  unfold unpackPayload SendOptions.payload
  rw [flag]
  cases squeezed : squeeze P options.autoCompress options.combined with
  | none => rfl
  | some bytes =>
    unfold squeeze at squeezed
    split at squeezed
    next enabled =>
      have compressed := (Option.filter_eq_some_iff.mp squeezed).1
      rw [if_pos (by rfl), if_pos enabled.1, Option.getD_some,
        bz2Decompress_compressed trips compressed fits]
      rfl
    next => cases squeezed

theorem extract_eq (built : BuiltFrom P options mtu key draws s) (segmented : options.Segmented) :
    (s.advertisement.flags.hasMetadata && s.advertisement.segmentIndex == 1) =
      options.metadata.isSome := by
  have flag : s.advertisement.flags.hasMetadata =
      (options.metadata.isSome || options.segment.forceHasMetadata) := by
    rw [built.advertisement]
    rfl
  have index : s.advertisement.segmentIndex = options.segment.segmentIndex := by
    rw [built.advertisement]
    rfl
  rw [flag, index]
  cases present : options.metadata.isSome with
  | true => simp [segmented.metadata present]
  | false =>
    by_cases first : options.segment.segmentIndex = 1
    · have unforced : options.segment.forceHasMetadata = false := by
        by_contra forced
        have contrary := segmented.flag first (by simpa using forced)
        rw [present] at contrary
        cases contrary
      rw [unforced]
      rfl
    · simp [first]

theorem runAssembly_eq (built : BuiltFrom P options mtu key draws s) (trips : P.RoundTrip)
    (segmented : options.Segmented)
    (short : ∀ metadata, options.metadata = some metadata → metadata.length < 2 ^ 24)
    (fits : options.combined.length ≤ min s.advertisement.dataSize maxEfficientSize) :
    runAssembly P (s.advertisement.assemblyInput s.parts.flatten key) =
      .ok ⟨options.data, options.metadata, s.expectedProof⟩ := by
  have stream := trips.decrypt key draws.iv [draws.wireRandom.val, options.payload P]
  rw [← built.stream] at stream
  have plaintext : [draws.wireRandom.val, options.payload P].flatten =
      draws.wireRandom.val ++ options.payload P := by simp
  have prefixed : (draws.wireRandom.val ++ options.payload P).drop randomHashSize =
      options.payload P := List.drop_left' draws.wireRandom.property
  have long : ¬ (draws.wireRandom.val ++ options.payload P).length < randomHashSize := by
    rw [List.length_append, draws.wireRandom.property]
    exact Nat.not_lt.mpr (Nat.le_add_right _ _)
  have hash : s.advertisement.resourceHash = fullHashParts P options.combined
      s.advertisement.randomHash.val := built.advertised_resourceHash.trans built.resourceHash
  have proof : fullHashParts P options.combined s.advertisement.resourceHash.val = s.expectedProof := by
    rw [built.expectedProof, built.advertised_resourceHash]
  unfold runAssembly ResourceAdvertisement.assemblyInput
  dsimp only
  rw [stream, plaintext]
  dsimp only
  rw [if_neg long, prefixed, built.unpackPayload_eq trips fits]
  dsimp only
  rw [if_neg (not_not.mpr hash.symm), built.extract_eq segmented, proof]
  cases found : options.metadata with
  | none =>
    rw [if_neg (by simp)]
    rw [SendOptions.combined, found]
    rfl
  | some metadata =>
    rw [Option.isSome_some, if_pos rfl]
    have split : splitMetadata options.combined = some (metadata, options.data) := by
      rw [SendOptions.combined, found]
      exact splitMetadata_combine (short metadata found)
    rw [split]

end BuiltFrom

theorem OutgoingResource.handleProof_expected {s : OutgoingResource} (alive : s.status ≠ .failed) :
    (s.handleProof (s.resourceHash.val ++ s.expectedProof.val)).1 = .ok .complete := by
  have length : (s.resourceHash.val ++ s.expectedProof.val).length = 64 := by
    rw [List.length_append, s.resourceHash.property, s.expectedProof.property]
  have first : (s.resourceHash.val ++ s.expectedProof.val).take 32 = s.resourceHash.val :=
    List.take_left' s.resourceHash.property
  have second : (s.resourceHash.val ++ s.expectedProof.val).drop 32 = s.expectedProof.val :=
    List.drop_left' s.resourceHash.property
  unfold handleProof
  rw [if_neg alive, if_neg (not_not.mpr length), if_neg (not_not.mpr first),
    if_neg (not_not.mpr second)]

end Leviculum.Resource
