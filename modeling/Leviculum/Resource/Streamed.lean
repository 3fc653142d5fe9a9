import Leviculum.Resource.Numbered
import Leviculum.Resource.Source
import Leviculum.Resource.TokenStream

/-! A resource built from a source is the resource built from the same bytes in memory. -/

namespace Leviculum.Resource

open Blocks

/-- SHA-256 as its crate runs it. -/
structure StreamHasher where
  State : Type
  new : State
  update : State → Bytes → State
  finalize : State → Digest

/-- The digest of everything fed so far followed by `tail`. -/
def StreamHasher.finishWith (H : StreamHasher) (state : H.State) (tail : Bytes) : Digest :=
  H.finalize (H.update state tail)

/-- A digest over pieces is the digest of the pieces joined. -/
def StreamHasher.Streams (H : StreamHasher) (P : Primitives) : Prop :=
  ∀ pieces : List Bytes, H.finalize (pieces.foldl H.update H.new) = P.fullHash pieces.flatten

section Build

variable (P : Primitives) (C : TokenCiphers) (H : StreamHasher)

/-- The scratch buffer of both passes. -/
def scratchLen (sdu totalLen : Nat) : Nat := min (max sdu 1) (max totalLen 16)

def encryptInto (state : TokenEncryptor C × PartCutter) (chunk : Bytes) : TokenEncryptor C × PartCutter :=
  let (blocks, encryptor) := state.1.update chunk
  (encryptor, blocks.foldl PartCutter.put state.2)

/-- Rewind and read to the end. -/
def ResourceSource.pass {Fed : Type} (source : ResourceSource) (room : Nat) (sink : Fed → Bytes → Fed) (fed : Fed)
    (state : source.State) : Except ResourceError (Fed × source.State) :=
  match source.rewind state with
  | .error error => .error (.sourceFailed error)
  | .ok state =>
    match source.readAll room sink fed state with
    | .error error => .error (.sourceFailed error)
    | .ok read => .ok read

def advertiseStreamed (requestId : Option Bytes) (totalLen : Nat) (resourceHash : Digest) (parts : List Bytes)
    (salt : RandomHash) (entries : List MapHash) : ResourceAdvertisement where
  transferSize := tokenLen (randomHashSize + totalLen)
  dataSize := totalLen
  numParts := parts.length % 2 ^ 32
  resourceHash := resourceHash
  randomHash := salt
  originalHash := resourceHash
  segmentIndex := 1
  totalSegments := 1
  requestId := requestId
  flags :=
    { encrypted := true
      compressed := false
      split := false
      isRequest := false
      isResponse := requestId.isSome
      hasMetadata := false }
  hashmapData := entries.take hashmapMaxLen

/-- `from_source`; `none` stands for a build still drawing salts. -/
def fromSource (source : ResourceSource) (start : source.State) (requestId : Option Bytes)
    (crypt : ResourceCryptParams) (draws : Draws) (nowMs : Nat) : Except ResourceError (Option OutgoingResource) :=
  if !crypt.active then .error .linkNotActive
  else
    match crypt.tokenKey with
    | none => .error .linkNotActive
    | some tokenKey =>
      let sdu := resourceSdu crypt.negotiatedMtu
      let room := scratchLen sdu source.totalLen
      match source.pass room H.update H.new start with
      | .error error => .error error
      | .ok (hasher, between) =>
        let (encryptor, head) := TokenEncryptor.new C tokenKey draws.iv
        let opened := encryptInto C (encryptor, (PartCutter.new sdu).put head) draws.wireRandom.val
        match source.pass room (encryptInto C) opened between with
        | .error error => .error error
        | .ok ((encryptor, cutter), _) =>
          let parts := (encryptor.finish.foldl PartCutter.put cutter).parts
          .ok ((mapWithSalts P parts draws.salts).map fun mapped =>
            let resourceHash := H.finishWith hasher mapped.1.val
            { resourceHash := resourceHash
              expectedProof := H.finishWith hasher resourceHash.val
              parts := parts
              hashmap := mapped.2
              advertisement := advertiseStreamed requestId source.totalLen resourceHash parts mapped.1 mapped.2
              advertisementTimeoutMs := none
              status := .advertised
              sentMask := List.replicate parts.length false
              receiverMinConsecutiveHeight := 0
              retries := 0
              advRetries := 0
              lastActivityMs := nowMs })

end Build

variable {P : Primitives} {C : TokenCiphers} {H : StreamHasher}

theorem foldl_encryptInto (encryptor : TokenEncryptor C) (cutter : PartCutter) (chunks : List Bytes) :
    chunks.foldl (encryptInto C) (encryptor, cutter) =
      ((encryptor.updateAll chunks).2, (encryptor.updateAll chunks).1.foldl PartCutter.put cutter) := by
  induction chunks generalizing encryptor cutter with
  | nil => rfl
  | cons chunk chunks ih =>
    rw [List.foldl_cons]
    simp only [encryptInto, ih, TokenEncryptor.updateAll, List.foldl_append]

theorem streamed_parts (key : TokenKey) (iv : FixedBytes 16) (sdu : Nat) (head : Bytes) (chunks : List Bytes) :
    (chunks.foldl (encryptInto C) (encryptInto C ((TokenEncryptor.new C key iv).1,
        (PartCutter.new sdu).put (TokenEncryptor.new C key iv).2) head)).1.finish.foldl PartCutter.put
      (chunks.foldl (encryptInto C) (encryptInto C ((TokenEncryptor.new C key iv).1,
        (PartCutter.new sdu).put (TokenEncryptor.new C key iv).2) head)).2 =
      (encryptStream C key iv (head :: chunks)).foldl PartCutter.put (PartCutter.new sdu) := by
  have joined := foldl_encryptInto (TokenEncryptor.new C key iv).1
    ((PartCutter.new sdu).put (TokenEncryptor.new C key iv).2) (head :: chunks)
  rw [List.foldl_cons] at joined
  simp only [joined, encryptStream, List.foldl_append, List.cons_append, List.foldl_cons]

/-- What a build with flags must be asked for to match a streamed one. -/
structure SendOptions.Plain (P : Primitives) (options : SendOptions) : Prop where
  metadata : options.metadata = none
  unmarked : options.segment.forceHasMetadata = false
  uncompressed : squeeze P options.autoCompress options.data = none
  response : options.isResponse = options.requestId.isSome
  index : options.segment.segmentIndex = 1
  single : options.segment.totalSegments = 1
  original : options.segment.originalHash = none
  size : options.segment.totalDataSize = none

namespace ResourceSource

variable {source : ResourceSource} {room : Nat} {Fed : Type} {sink : Fed → Bytes → Fed}

theorem Pass.pass_eq {state first after : source.State} {chunks : List Bytes} (rewound : source.rewind state = .ok first)
    (pass : source.Pass room first chunks after) (fed : Fed) :
    source.pass room sink fed state =
      if chunks.flatten.length = source.totalLen then .ok (chunks.foldl sink fed, after)
      else .error (.sourceFailed .lengthChanged) := by
  unfold ResourceSource.pass
  simp only [rewound, pass.readAll_eq]
  by_cases whole : chunks.flatten.length = source.totalLen
  · simp only [if_pos whole]
  · simp only [if_neg whole]

theorem pass_of_ok {state after : source.State} {fed fed' : Fed}
    (taken : source.pass room sink fed state = .ok (fed', after)) :
    ∃ first chunks, source.rewind state = .ok first ∧ source.Pass room first chunks after ∧
      chunks.flatten.length = source.totalLen := by
  unfold ResourceSource.pass at taken
  split at taken
  · cases taken
  next first rewound =>
    split at taken
    · cases taken
    next read all =>
      cases taken
      obtain ⟨chunks, pass, size, -⟩ := pass_of_readAll all
      exact ⟨first, chunks, rewound, pass, size⟩

end ResourceSource

theorem SendOptions.Plain.advertise_eq {options : SendOptions} (plain : options.Plain P) (parts : List Bytes)
    (salt : RandomHash) (entries : List MapHash) :
    advertise P options options.data options.data false parts salt entries =
      advertiseStreamed options.requestId options.data.length (fullHashParts P options.data salt.val) parts salt
        entries := by
  obtain ⟨metadata, unmarked, -, response, index, single, original, size⟩ := plain
  unfold advertise advertiseStreamed
  simp only [metadata, unmarked, response, index, single, original, size, Option.getD_none, Option.isSome_none,
    Bool.or_self, Bool.and_not_self]
  rfl

section Refinement

variable {source : ResourceSource} {start : source.State} {crypt : ResourceCryptParams} {draws : Draws} {nowMs : Nat}

theorem passes_of_built {requestId : Option Bytes} {built : Option OutgoingResource}
    (taken : fromSource P C H source start requestId crypt draws nowMs = .ok built) :
    ∃ hashed encrypted, source.Passes (scratchLen (resourceSdu crypt.negotiatedMtu) source.totalLen) start
      hashed encrypted ∧ hashed.flatten.length = source.totalLen ∧ encrypted.flatten.length = source.totalLen := by
  unfold fromSource at taken
  split at taken
  · cases taken
  split at taken
  · cases taken
  dsimp only at taken
  split at taken
  · cases taken
  next hasher between hashing =>
    split at taken
    · cases taken
    next encryptor cutter after encrypting =>
      obtain ⟨first, hashed, rewound, pass, size⟩ := ResourceSource.pass_of_ok hashing
      obtain ⟨second, encrypted, rewound', pass', size'⟩ := ResourceSource.pass_of_ok encrypting
      exact ⟨hashed, encrypted, ⟨first, between, second, after, rewound, pass, rewound', pass'⟩, size, size'⟩

theorem refused_of_passes {requestId : Option Bytes} {hashed encrypted : List Bytes} (active : crypt.active = true)
    (keyed : crypt.tokenKey.isSome)
    (passes : source.Passes (scratchLen (resourceSdu crypt.negotiatedMtu) source.totalLen) start hashed encrypted)
    (wrong : hashed.flatten.length ≠ source.totalLen ∨ encrypted.flatten.length ≠ source.totalLen) :
    fromSource P C H source start requestId crypt draws nowMs = .error (.sourceFailed .lengthChanged) := by
  obtain ⟨first, between, second, after, rewound, pass, rewound', pass'⟩ := passes
  obtain ⟨key, keyed⟩ := Option.isSome_iff_exists.mp keyed
  unfold fromSource
  simp only [active, keyed, pass.pass_eq rewound]
  by_cases whole : hashed.flatten.length = source.totalLen
  · have short := wrong.resolve_left (not_not_intro whole)
    simp only [if_pos whole, pass'.pass_eq rewound', if_neg short]
    rfl
  · simp only [if_neg whole]
    rfl

theorem fromSource_eq (streams : H.Streams P) {options : SendOptions} (plain : options.Plain P)
    {hashed encrypted : List Bytes}
    (passes : source.Passes (scratchLen (resourceSdu crypt.negotiatedMtu) source.totalLen) start hashed encrypted)
    (same : hashed.flatten = options.data) (same' : encrypted.flatten = options.data)
    (sized : options.data.length = source.totalLen) :
    fromSource (P.withTokens C) C H source start options.requestId crypt draws nowMs =
      (newWithFlags (P.withTokens C) options crypt draws nowMs).map
        (Option.map fun built => { built with advertisementTimeoutMs := none }) := by
  obtain ⟨first, between, second, after, rewound, pass, rewound', pass'⟩ := passes
  have combined : combine options.metadata options.data = options.data := by rw [plain.metadata]; rfl
  have squeezed : squeeze (P.withTokens C) options.autoCompress options.data = none := plain.uncompressed
  have plain' : options.Plain (P.withTokens C) :=
    ⟨plain.metadata, plain.unmarked, squeezed, plain.response, plain.index, plain.single, plain.original, plain.size⟩
  have digest : ∀ tail : Bytes, H.finishWith (hashed.foldl H.update H.new) tail =
      fullHashParts (P.withTokens C) options.data tail := by
    intro tail
    have whole := streams (hashed ++ [tail])
    rw [List.foldl_append, List.flatten_append, List.flatten_singleton, same] at whole
    exact whole
  unfold fromSource newWithFlags
  cases active : crypt.active with
  | false => rfl
  | true =>
    cases keyed : crypt.tokenKey with
    | none => rfl
    | some key =>
      have whole : hashed.flatten.length = source.totalLen := by rw [same, sized]
      have whole' : encrypted.flatten.length = source.totalLen := by rw [same', sized]
      have token : encryptStream C key draws.iv (draws.wireRandom.val :: encrypted) =
          (P.withTokens C).encryptToken key draws.iv [draws.wireRandom.val, options.data] := by
        rw [Primitives.withTokens_encryptToken]
        apply encryptStream_congr
        rw [List.flatten_cons, same', List.flatten_cons, List.flatten_singleton]
      simp only [pass.pass_eq rewound, if_pos whole, pass'.pass_eq rewound', if_pos whole', combined, squeezed, digest,
        streamed_parts, token, plain'.advertise_eq, sized, Option.getD_none, Option.isSome_none, Bool.not_true,
        if_neg Bool.false_ne_true, Except.map, Option.map_map]
      rfl

/-- A streamed build is the buffered one, whatever the reads and the salts drawn, for what it can carry: a payload
without metadata and uncompressed, in one segment, and a response exactly when a request is named. A pass that is
not as long as promised ends it. -/
theorem streamed_build_is_buffered (streams : H.Streams P) :
    (∀ options : SendOptions, options.Plain P → options.data.length = source.totalLen → ∀ hashed encrypted,
      source.Passes (scratchLen (resourceSdu crypt.negotiatedMtu) source.totalLen) start hashed encrypted →
        hashed.flatten = options.data → encrypted.flatten = options.data →
          fromSource (P.withTokens C) C H source start options.requestId crypt draws nowMs =
            (newWithFlags (P.withTokens C) options crypt draws nowMs).map
              (Option.map fun built => { built with advertisementTimeoutMs := none })) ∧
    (∀ requestId built, fromSource (P.withTokens C) C H source start requestId crypt draws nowMs = .ok built →
      ∃ hashed encrypted,
        source.Passes (scratchLen (resourceSdu crypt.negotiatedMtu) source.totalLen) start hashed encrypted ∧
          hashed.flatten.length = source.totalLen ∧ encrypted.flatten.length = source.totalLen) ∧
    (∀ requestId hashed encrypted, crypt.active = true → crypt.tokenKey.isSome →
      source.Passes (scratchLen (resourceSdu crypt.negotiatedMtu) source.totalLen) start hashed encrypted →
        (hashed.flatten.length ≠ source.totalLen ∨ encrypted.flatten.length ≠ source.totalLen) →
          fromSource (P.withTokens C) C H source start requestId crypt draws nowMs =
            .error (.sourceFailed .lengthChanged)) := by
  refine ⟨?_, ?_, ?_⟩
  · intro options plain sized hashed encrypted passes same same'
    exact fromSource_eq streams plain passes same same' sized
  · intro requestId built taken
    exact passes_of_built taken
  · intro requestId hashed encrypted active keyed passes wrong
    exact refused_of_passes active keyed passes wrong

end Refinement

/-- A cipher that leaves its blocks as they are, under an empty MAC. -/
def plainCiphers : TokenCiphers where
  Cipher := Unit
  Mac := Unit
  newCipher _ _ := ()
  encryptBlock _ block := (block, ())
  newMac _ := ()
  updateMac _ _ := ()
  finalizeMac _ := FixedBytes.replicate 32 0

def keepingHasher (P : Primitives) : StreamHasher where
  State := Bytes
  new := []
  update := List.append
  finalize := P.fullHash

theorem keepingHasher_streams (P : Primitives) : (keepingHasher P).Streams P := by
  have kept : ∀ (pieces : List Bytes) (fed : Bytes), pieces.foldl List.append fed = fed ++ pieces.flatten := by
    intro pieces
    induction pieces with
    | nil => simp
    | cons piece pieces ih =>
      intro fed
      rw [List.foldl_cons, ih, List.flatten_cons]
      exact List.append_assoc fed piece pieces.flatten
  intro pieces
  exact congrArg P.fullHash (kept pieces [])

def plainOptions (data : Bytes) (metadata : Option Bytes) : SendOptions where
  data := data
  metadata := metadata
  requestId := none
  autoCompress := false
  isResponse := false
  advertisementTimeoutMs := none
  segment := .single

def threeBytes : Bytes := [0, 0, 0]

theorem threeBytes_passes : (sliceSource threeBytes).Passes
    (scratchLen (resourceSdu smallestLink.negotiatedMtu) threeBytes.length) (sliceAt threeBytes 0) [threeBytes]
    [threeBytes] := by
  have pass : (sliceSource threeBytes).Pass (scratchLen (resourceSdu smallestLink.negotiatedMtu) threeBytes.length)
      (sliceAt threeBytes 0) [threeBytes] (sliceAt threeBytes 3) := by
    have read : (sliceSource threeBytes).read (sliceAt threeBytes 0)
        (scratchLen (resourceSdu smallestLink.negotiatedMtu) threeBytes.length) =
        .ok (⟨threeBytes, by decide⟩, sliceAt threeBytes 3) := rfl
    have ended : (sliceSource threeBytes).read (sliceAt threeBytes 3)
        (scratchLen (resourceSdu smallestLink.negotiatedMtu) threeBytes.length) =
        .ok (⟨[], by decide⟩, sliceAt threeBytes 3) := rfl
    exact .more read (by decide) (.done ended rfl)
  exact ⟨sliceAt threeBytes 0, _, _, _, rfl, pass, rfl, pass⟩

theorem streamed_build_is_buffered_three :
    (keepingHasher .plain).Streams .plain ∧
      fromSource (Primitives.plain.withTokens plainCiphers) plainCiphers (keepingHasher .plain) (sliceSource threeBytes)
        (sliceAt threeBytes 0) none smallestLink fixedDraws 0 =
        (newWithFlags (Primitives.plain.withTokens plainCiphers) (plainOptions threeBytes none) smallestLink fixedDraws
          0).map (Option.map fun built => { built with advertisementTimeoutMs := none }) := by
  have plain : (plainOptions threeBytes none).Plain .plain := ⟨rfl, rfl, rfl, rfl, rfl, rfl, rfl, rfl⟩
  refine ⟨keepingHasher_streams _, ?_⟩
  exact (streamed_build_is_buffered (keepingHasher_streams .plain)).1 (plainOptions threeBytes none) plain rfl _ _
    threeBytes_passes rfl rfl

/-- Metadata is not streamed: over the same bytes in memory, an empty metadata block, the buffered build advertises
metadata and the streamed one does not; nor does it over the data alone, which is shorter. -/
theorem metadata_is_not_streamed :
    (keepingHasher .plain).Streams .plain ∧ (plainOptions [] (some [])).combined = threeBytes ∧
      ∃ streamed bare built,
        fromSource (Primitives.plain.withTokens plainCiphers) plainCiphers (keepingHasher .plain)
          (sliceSource threeBytes) (sliceAt threeBytes 0) none smallestLink fixedDraws 0 = .ok (some streamed) ∧
        fromSource (Primitives.plain.withTokens plainCiphers) plainCiphers (keepingHasher .plain) (sliceSource [])
          (sliceAt [] 0) none smallestLink fixedDraws 0 = .ok (some bare) ∧
        newWithFlags (Primitives.plain.withTokens plainCiphers) (plainOptions [] (some [])) smallestLink fixedDraws 0 =
          .ok (some built) ∧
        streamed.advertisement ≠ built.advertisement ∧ bare.advertisement ≠ built.advertisement := by
  refine ⟨keepingHasher_streams _, rfl, _, _, _, rfl, rfl, rfl, ?_, ?_⟩
  · intro same
    have flags := congrArg (fun advertisement => advertisement.flags.hasMetadata) same
    cases flags
  · intro same
    have sizes := congrArg ResourceAdvertisement.dataSize same
    cases sizes

end Leviculum.Resource
