import Leviculum.Resource.Tracking

/-! Resources whose parts carry their own numbers, under primitives that can be run: what
`new_with_flags` builds from them, for any number of parts. -/

namespace Leviculum.Resource

open Blocks Spacing Execution

/-- PKCS7 padding to whole blocks of 16. -/
def padded (message : Bytes) : Bytes :=
  message ++ List.replicate (16 - message.length % 16) (UInt8.ofNat (16 - message.length % 16))

/-- The token's layout without its cipher, and hashes that read their input off. -/
def Primitives.plain : Primitives where
  encryptToken _ iv pieces := [iv.val, padded pieces.flatten, List.replicate 32 0]
  decryptToken _ token :=
    let body := (token.drop 16).take (token.length - 48)
    body.getLast?.map (fun count => body.take (body.length - count.toNat))
  compression := false
  bz2Compress _ := none
  bzBuffToBuffDecompress _ _ := .error
  fullHash bytes := FixedBytes.pad 32 bytes
  mapHash part _ := BitVec.ofNat 32 (Bytes.ofBe (part.take 4))

theorem padded_length (message : Bytes) : (padded message).length = (message.length / 16 + 1) * 16 := by
  unfold padded
  rw [List.length_append, List.length_replicate]
  omega

theorem plain_tokenLength : Primitives.plain.TokenLength := by
  intro key iv pieces
  have first := iv.property
  simp only [Primitives.plain, List.flatten_cons, List.flatten_nil, List.append_nil,
    List.length_append, padded_length, List.length_replicate, tokenLen]
  omega

def numbered (i : Nat) : Bytes := [0, 0, UInt8.ofNat (i / 256), UInt8.ofNat i] ++ List.replicate 44 0

/-- Data that fills the first part and `blocks` more, at the smallest link MTU. -/
def numberedData (blocks : Nat) : SendOptions where
  data := List.replicate 28 0 ++ ((List.range blocks).map numbered).flatten
  metadata := none
  requestId := none
  autoCompress := false
  isResponse := false
  advertisementTimeoutMs := none
  segment := .single

def smallestLink : ResourceCryptParams where
  active := true
  negotiatedMtu := 84
  tokenKey := some (FixedBytes.replicate 64 0)

def fixedDraws : Draws where
  wireRandom := FixedBytes.of [0, 0, 0, 0]
  iv := FixedBytes.replicate 16 255
  salts := [FixedBytes.of [0, 0, 0, 0]]

def numberedParts (blocks : Nat) : List Bytes :=
  (List.replicate 16 255 ++ List.replicate 32 0) ::
    ((List.range blocks).map numbered ++ [List.replicate 16 16 ++ List.replicate 32 0])

def numberedHashes (blocks : Nat) : List MapHash :=
  0xffffffff#32 :: ((List.range blocks).map (BitVec.ofNat 32) ++ [0x10101010#32])

theorem numbered_length (i : Nat) : (numbered i).length = 48 := rfl

theorem numberedParts_isCut (blocks : Nat) : IsCut 48 (numberedParts blocks) := by
  have split : numberedParts blocks =
      ((List.replicate 16 255 ++ List.replicate 32 0) :: (List.range blocks).map numbered) ++
        [List.replicate 16 16 ++ List.replicate 32 0] := rfl
  rw [split]
  refine isCut_concat ?_ (by decide) (by decide)
  intro part member
  rcases List.mem_cons.mp member with rfl | later
  · decide
  · obtain ⟨i, -, rfl⟩ := List.mem_map.mp later
    exact numbered_length i

theorem numbered_flatten_length (blocks : Nat) :
    ((List.range blocks).map numbered).flatten.length = 48 * blocks := by
  have full : ∀ part ∈ (List.range blocks).map numbered, part.length = 48 := by
    intro part member
    obtain ⟨i, -, rfl⟩ := List.mem_map.mp member
    exact numbered_length i
  rw [flatten_length_of_full full, List.length_map, List.length_range]

theorem mapHash_numbered {i : Nat} (small : i < 65536) (salt : RandomHash) :
    Primitives.plain.mapHash (numbered i) salt = BitVec.ofNat 32 i := by
  have value : Bytes.ofBe ((numbered i).take 4) = i := by
    simp only [numbered, List.take, Bytes.ofBe, List.cons_append, List.foldl_cons, List.foldl_nil,
      UInt8.toNat_ofNat']
    simp
    omega
  show BitVec.ofNat 32 (Bytes.ofBe ((numbered i).take 4)) = _
  rw [value]

theorem map_numberedParts {blocks : Nat} (small : blocks ≤ 65536) (salt : RandomHash) :
    (numberedParts blocks).map (fun part => Primitives.plain.mapHash part salt) =
      numberedHashes blocks := by
  unfold numberedParts numberedHashes
  rw [List.map_cons, List.map_append, List.map_map]
  congr 2
  apply List.map_congr_left
  intro i inside
  have less := List.mem_range.mp inside
  exact mapHash_numbered (by omega) salt

theorem numberedHashes_nodup {blocks : Nat} (small : blocks ≤ 65536) : (numberedHashes blocks).Nodup := by
  have apart : ∀ i < blocks, ∀ far, 65536 ≤ far → far < 2 ^ 32 →
      BitVec.ofNat 32 i ≠ BitVec.ofNat 32 far := by
    intro i inside far large bound same
    have values := congrArg BitVec.toNat same
    rw [BitVec.toNat_ofNat, BitVec.toNat_ofNat, Nat.mod_eq_of_lt (by omega),
      Nat.mod_eq_of_lt bound] at values
    omega
  unfold numberedHashes
  rw [List.nodup_cons, List.mem_append, List.mem_singleton, not_or]
  refine ⟨⟨?_, by decide⟩, ?_⟩
  · intro member
    obtain ⟨i, inside, same⟩ := List.mem_map.mp member
    exact apart i (List.mem_range.mp inside) 0xffffffff (by decide) (by decide) same
  · rw [List.nodup_append]
    refine ⟨?_, List.nodup_singleton _, ?_⟩
    · refine List.Nodup.map_on ?_ List.nodup_range
      intro i inside j inside' same
      have less := List.mem_range.mp inside
      have less' := List.mem_range.mp inside'
      have values := congrArg BitVec.toNat same
      rw [BitVec.toNat_ofNat, BitVec.toNat_ofNat, Nat.mod_eq_of_lt (by omega),
        Nat.mod_eq_of_lt (by omega)] at values
      exact values
    · intro mh member other single
      rw [List.mem_singleton.mp single]
      obtain ⟨i, inside, rfl⟩ := List.mem_map.mp member
      exact apart i (List.mem_range.mp inside) 0x10101010 (by decide) (by decide)

theorem numberedData_length (blocks : Nat) : (numberedData blocks).data.length = 28 + 48 * blocks := by
  rw [numberedData, List.length_append, List.length_replicate, numbered_flatten_length]

/-- The sender of `numberedData`, its sizes worked out. -/
def numberedSender (blocks : Nat) : OutgoingResource :=
  let combined := (numberedData blocks).data
  let salt : RandomHash := FixedBytes.of [0, 0, 0, 0]
  let resourceHash := fullHashParts .plain combined salt.val
  { resourceHash := resourceHash
    expectedProof := fullHashParts .plain combined resourceHash.val
    parts := numberedParts blocks
    hashmap := numberedHashes blocks
    advertisement :=
      { advertise .plain (numberedData blocks) combined combined false (numberedParts blocks) salt
          (numberedHashes blocks) with
        transferSize := 48 * (blocks + 2)
        dataSize := 28 + 48 * blocks }
    advertisementTimeoutMs := none
    status := .advertised
    sentMask := List.replicate (numberedParts blocks).length false
    receiverMinConsecutiveHeight := 0
    retries := 0
    advRetries := 0
    lastActivityMs := 0 }

theorem numberedParts_flatten (blocks : Nat) :
    (numberedParts blocks).flatten = (Primitives.plain.encryptToken (FixedBytes.replicate 64 0)
      fixedDraws.iv [fixedDraws.wireRandom.val, (numberedData blocks).data]).flatten := by
  have total : ([0, 0, 0, 0] ++ (List.replicate 28 0 ++
      ((List.range blocks).map numbered).flatten) : Bytes).length = 32 + 48 * blocks := by
    simp only [List.length_append, numbered_flatten_length, List.length_replicate, List.length_cons,
      List.length_nil]
    omega
  have whole : (32 + 48 * blocks) % 16 = 0 := by omega
  simp only [numberedParts, Primitives.plain, padded, fixedDraws, numberedData, FixedBytes.of,
    FixedBytes.replicate, List.flatten_cons, List.flatten_nil, List.append_nil, List.flatten_append, total, whole]
  simp only [List.append_assoc]
  rfl

theorem numberedSender_built {blocks : Nat} (small : blocks ≤ 65536) :
    newWithFlags .plain (numberedData blocks) smallestLink fixedDraws 0 =
      .ok (some (numberedSender blocks)) := by
  obtain ⟨valid, size, stream⟩ := PartCutter.foldl_put_spec (PartCutter.valid_new 48)
    (Primitives.plain.encryptToken (FixedBytes.replicate 64 0) fixedDraws.iv
      [fixedDraws.wireRandom.val, (numberedData blocks).data])
  have cut := valid.cut
  rw [size] at cut
  have parts := cut.unique (numberedParts_isCut blocks) (by decide)
    (stream.trans (numberedParts_flatten blocks).symm)
  have mapped : mapParts .plain (numberedParts blocks) (FixedBytes.of [0, 0, 0, 0]) =
      some (numberedHashes blocks) := by
    rw [← map_numberedParts small (FixedBytes.of [0, 0, 0, 0])]
    apply mapPartsLoop_of_nodup
    rw [List.nil_append, map_numberedParts small]
    exact numberedHashes_nodup small
  have salted : mapWithSalts .plain (numberedParts blocks) fixedDraws.salts =
      some (FixedBytes.of [0, 0, 0, 0], numberedHashes blocks) := by
    rw [fixedDraws, mapWithSalts, mapped]
  have plain : squeeze .plain (numberedData blocks).autoCompress
      (combine (numberedData blocks).metadata (numberedData blocks).data) = none := by
    rw [squeeze, if_neg]
    rintro ⟨compression, -⟩
    cases compression
  have cutParts : (List.foldl PartCutter.put (PartCutter.new (resourceSdu smallestLink.negotiatedMtu))
      (Primitives.plain.encryptToken (FixedBytes.replicate 64 0) fixedDraws.iv
        [fixedDraws.wireRandom.val, (none : Option Bytes).getD
          (combine (numberedData blocks).metadata (numberedData blocks).data)])).parts =
      numberedParts blocks := parts
  have active : smallestLink.active = true := rfl
  have keyed : smallestLink.tokenKey = some (FixedBytes.replicate 64 0) := rfl
  unfold newWithFlags
  rw [active, keyed]
  have transferSize : tokenLen (randomHashSize + (numberedData blocks).data.length) =
      48 * (blocks + 2) := by
    rw [numberedData_length, tokenLen, randomHashSize]
    omega
  have advertised : ∀ salt entries, advertise .plain (numberedData blocks) (numberedData blocks).data
      (numberedData blocks).data false (numberedParts blocks) salt entries =
        { advertise .plain (numberedData blocks) (numberedData blocks).data (numberedData blocks).data
            false (numberedParts blocks) salt entries with
          transferSize := 48 * (blocks + 2)
          dataSize := 28 + 48 * blocks } := by
    intro salt entries
    rw [← transferSize, ← numberedData_length]
    rfl
  have whole : combine (numberedData blocks).metadata (numberedData blocks).data =
      (numberedData blocks).data := rfl
  simp only [plain, cutParts, salted, Option.map_some]
  rw [whole, Option.getD_none, Option.isSome_none, advertised]
  rfl

/-- The two ends of `numberedData` after a run. -/
def afterRun (blocks : Nat) (policy : WindowPolicy) (events : List Event) : Option System :=
  (IncomingResource.fromAdvertisement (numberedSender blocks).advertisement
    (resourceSdu smallestLink.negotiatedMtu) 0 1000000 policy).toOption.bind (fun accepted =>
      exec (System.step .plain) (System.start (numberedSender blocks) accepted.1 accepted.2) events)

theorem afterRun_eq_some {blocks : Nat} {policy : WindowPolicy} {events : List Event} {s : System}
    (ran : afterRun blocks policy events = some s) :
    ∃ receiver req, IncomingResource.fromAdvertisement (numberedSender blocks).advertisement
        (resourceSdu smallestLink.negotiatedMtu) 0 1000000 policy = .ok (receiver, req) ∧
      exec (System.step .plain) (System.start (numberedSender blocks) receiver req) events = some s := by
  obtain ⟨⟨receiver, req⟩, accepted, ran⟩ := Option.bind_eq_some_iff.mp ran
  refine ⟨receiver, req, ?_, ran⟩
  cases outcome : IncomingResource.fromAdvertisement (numberedSender blocks).advertisement
    (resourceSdu smallestLink.negotiatedMtu) 0 1000000 policy with
  | error error =>
    rw [outcome] at accepted
    cases accepted
  | ok pair =>
    rw [outcome] at accepted
    exact congrArg Except.ok (Option.some.inj accepted)

end Leviculum.Resource
