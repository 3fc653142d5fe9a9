import Leviculum.Lib.LeadingZeros
import Leviculum.Msgpack.Shortest

/-! Proof-of-work stamps: the workblock a stamp is hashed over, expanded in slices, and the two readings of
the digest: whether it clears a cost, and what it is worth. -/

namespace Leviculum.Stamp

structure Sha256 where
  State : Type
  new : State
  update : State → Bytes → State
  finalize : State → FixedBytes 32

/-- Feeding two pieces is feeding the whole. -/
structure Sha256.Incremental (S : Sha256) : Prop where
  nil : ∀ state, S.update state [] = state
  append : ∀ state left right, S.update (S.update state left) right = S.update state (left ++ right)

section Digest

/-- The leading zero bits, counted byte by byte up to the first byte that is not zero. -/
def digestValue (digest : FixedBytes 32) : Nat :=
  (digest.val.foldl (fun (count : Nat × Bool) byte =>
    if count.2 then (count.1 + leadingZeros byte, leadingZeros byte = 8) else (count.1, false)) (0, true)).1

theorem length_target (bit : Nat) (byte : UInt8) : ((List.replicate 32 (0 : UInt8)).set (31 - bit / 8) byte).length = 32 := by
  rw [List.length_set, List.length_replicate]

/-- The largest digest a cost accepts. -/
def target (cost : UInt8) : FixedBytes 32 :=
  let bit := 256 - cost.toNat
  ⟨(List.replicate 32 0).set (31 - bit / 8) (1 <<< UInt8.ofNat (bit % 8)), length_target bit _⟩

def digestValid (hash : FixedBytes 32) (cost : UInt8) : Bool :=
  if cost = 0 then true else Bytes.atMost hash.val (target cost).val

theorem digestValue_eq (digest : FixedBytes 32) : digestValue digest = Bytes.zeros digest.val := by
  have stopped : ∀ (bytes : Bytes) (count : Nat), (bytes.foldl (fun (count : Nat × Bool) byte =>
      if count.2 then (count.1 + leadingZeros byte, decide (leadingZeros byte = 8)) else (count.1, false)) (count, false)).1 = count := by
    intro bytes
    induction bytes with
    | nil => exact fun _ => rfl
    | cons byte rest ih => exact fun count => ih count
  have going : ∀ (bytes : Bytes) (count : Nat), (bytes.foldl (fun (count : Nat × Bool) byte =>
      if count.2 then (count.1 + leadingZeros byte, decide (leadingZeros byte = 8)) else (count.1, false)) (count, true)).1 =
        count + bytes.zeros := by
    intro bytes
    induction bytes with
    | nil => exact fun _ => rfl
    | cons byte rest ih =>
      intro count
      rw [List.foldl_cons, if_pos rfl, Bytes.zeros]
      by_cases zero : leadingZeros byte = 8
      · rw [decide_eq_true zero, ih, if_pos zero, zero, Nat.add_assoc]
      · rw [decide_eq_false zero, stopped, if_neg zero]
  exact (going digest.val 0).trans (Nat.zero_add _)

theorem ofBe_target {cost : UInt8} (some_ : cost ≠ 0) : Bytes.ofBe (target cost).val = 2 ^ (256 - cost.toNat) := by
  have positive : 0 < cost.toNat := by
    rcases Nat.eq_zero_or_pos cost.toNat with zero | pos
    · exact absurd (UInt8.toNat_inj.mp zero) some_
    · exact pos
  exact Bytes.ofBe_set_bit 32 (256 - cost.toNat) (by omega)

theorem le_digestValue_iff (digest : FixedBytes 32) {cost : Nat} (within : cost ≤ 256) :
    cost ≤ digestValue digest ↔ Bytes.ofBe digest.val < 2 ^ (256 - cost) := by
  have inside : cost ≤ 8 * digest.val.length := by rw [digest.2]; exact within
  have bits := Bytes.le_zeros_iff digest.val inside
  rw [digest.2] at bits
  rw [digestValue_eq]
  exact bits

theorem digestValid_iff (digest : FixedBytes 32) {cost : UInt8} (some_ : cost ≠ 0) :
    digestValid digest cost = true ↔ Bytes.ofBe digest.val ≤ 2 ^ (256 - cost.toNat) := by
  rw [digestValid, if_neg some_, Bytes.atMost_iff (digest.2.trans (target cost).2.symm), ofBe_target some_]

theorem digestValue_of_boundary {digest : FixedBytes 32} {cost : UInt8} (some_ : cost ≠ 0)
    (boundary : Bytes.ofBe digest.val = 2 ^ (256 - cost.toNat)) : digestValue digest + 1 = cost.toNat := by
  have positive : cost.toNat ≠ 0 := fun zero => some_ (UInt8.toNat_inj.mp zero)
  have bound := cost.toNat_lt
  have under : ¬ cost.toNat ≤ digestValue digest := by
    rw [le_digestValue_iff digest (by omega), boundary]
    exact Nat.lt_irrefl _
  have above : cost.toNat - 1 ≤ digestValue digest := by
    rw [le_digestValue_iff digest (by omega), boundary]
    exact Nat.pow_lt_pow_right (by decide) (by omega)
  omega

theorem digestValid_scale (digest : FixedBytes 32) (cost : UInt8) :
    digestValid digest cost = true ↔
      cost.toNat ≤ digestValue digest ∨ cost ≠ 0 ∧ Bytes.ofBe digest.val = 2 ^ (256 - cost.toNat) := by
  by_cases zero : cost = 0
  · subst zero
    simp [digestValid]
  · have bound := cost.toNat_lt
    rw [digestValid_iff digest zero, le_digestValue_iff digest (by omega)]
    simp only [ne_eq, zero, not_false_eq_true, true_and]
    exact le_iff_lt_or_eq

end Digest

section Stream

/-- What a workblock is made with: the msgpack library, the hash and the key derivation. -/
structure Primitives where
  rmp : Msgpack.Lxmf.Rmp
  fullHash : Bytes → FixedBytes 32
  /-- The key material and the salt, to one block of 256 bytes. -/
  deriveKey : Bytes → FixedBytes 32 → FixedBytes 256

variable (P : Primitives) (S : Sha256)

/-- One round: a block derived from the material under a salt that carries the round's number. -/
def Primitives.round (material : Bytes) (n : Nat) : Bytes :=
  (P.deriveKey material (P.fullHash (material ++ Msgpack.Lxmf.uint P.rmp (UInt64.ofNat n)))).val

def workblock (material : Bytes) (rounds : Nat) : Bytes :=
  (List.range rounds).foldl (fun block n => block ++ P.round material n) []

structure WorkblockStream where
  hasher : S.State
  done : Nat
  rounds : Nat

variable {S}

namespace WorkblockStream

variable (S) in
def new (rounds : Nat) : WorkblockStream S := ⟨S.new, 0, rounds⟩

def isComplete (stream : WorkblockStream S) : Bool := decide (stream.rounds ≤ stream.done)

/-- Expand up to `slice` further rounds. The sum of the source saturates, and so stays above every number of
rounds it would exceed. -/
def advance (stream : WorkblockStream S) (material : Bytes) (slice : Nat) : Nat × WorkblockStream S :=
  let last := min stream.rounds (stream.done + slice)
  (last - stream.done,
    { stream with
      hasher := (List.range' stream.done (last - stream.done)).foldl
        (fun hasher n => S.update hasher (P.round material n)) stream.hasher
      done := last })

end WorkblockStream

def digestFromBase (base : S.State) (stamp : FixedBytes 32) : FixedBytes 32 := S.finalize (S.update base stamp.val)

variable (S) in
def digest (workblock : Bytes) (stamp : FixedBytes 32) : FixedBytes 32 :=
  S.finalize (S.update (S.update S.new workblock) stamp.val)

def WorkblockStream.validated (stream : WorkblockStream S) (stamp : FixedBytes 32) (cost : UInt8) : Option Nat :=
  if cost = 0 then some 0
  else
    let hash := digestFromBase stream.hasher stamp
    if digestValid hash cost then some (digestValue hash) else none

/-- The loop of `workblock_hasher`. -/
def driveStream (material : Bytes) (yieldEvery : Nat) (stream : WorkblockStream S) : WorkblockStream S :=
  if stream.isComplete then stream
  else driveStream material yieldEvery (stream.advance P material (max yieldEvery 1)).2
termination_by stream.rounds - stream.done
decreasing_by
  rename_i pending
  have before : stream.done < stream.rounds := by simpa [WorkblockStream.isComplete] using pending
  simp only [WorkblockStream.advance]
  omega

variable (S) in
def workblockHasher (material : Bytes) (rounds yieldEvery : Nat) : S.State :=
  (driveStream P material yieldEvery (WorkblockStream.new S rounds)).hasher

theorem workblock_add (material : Bytes) (done more : Nat) :
    workblock P material (done + more) =
      workblock P material done ++ (List.range' done more).flatMap (P.round material) := by
  have whole : ∀ rounds, workblock P material rounds = (List.range' 0 rounds).flatMap (P.round material) := by
    intro rounds
    rw [workblock, List.foldl_append_eq_append, List.nil_append, List.range_eq_range', List.flatMap_def]
  have parts := List.range'_append_1 (s := 0) (m := done) (n := more)
  rw [Nat.zero_add] at parts
  rw [whole, whole, ← parts, List.flatMap_append]

theorem foldl_update (incremental : S.Incremental) (material : Bytes) (rounds : List Nat) (state : S.State) :
    rounds.foldl (fun hasher n => S.update hasher (P.round material n)) state =
      S.update state (rounds.flatMap (P.round material)) := by
  induction rounds generalizing state with
  | nil => exact (incremental.nil state).symm
  | cons n rest ih => rw [List.foldl_cons, ih, incremental.append, List.flatMap_cons]

structure Hashed (material : Bytes) (stream : WorkblockStream S) : Prop where
  within : stream.done ≤ stream.rounds
  hashed : stream.hasher = S.update S.new (workblock P material stream.done)

variable {P} {material : Bytes} {stream : WorkblockStream S}

theorem hashed_new (incremental : S.Incremental) (material : Bytes) (rounds : Nat) :
    Hashed P material (WorkblockStream.new S rounds) where
  within := Nat.zero_le _
  hashed := (incremental.nil S.new).symm

theorem Hashed.advance (incremental : S.Incremental) (held : Hashed P material stream) (slice : Nat) :
    Hashed P material (stream.advance P material slice).2 where
  within := Nat.min_le_left _ _
  hashed := by
    have within := held.within
    have reach : min stream.rounds (stream.done + slice) =
        stream.done + (min stream.rounds (stream.done + slice) - stream.done) := by omega
    simp only [WorkblockStream.advance]
    rw [foldl_update P incremental, held.hashed, incremental.append]
    conv_rhs => rw [reach]
    rw [workblock_add]

theorem hashed_slices (incremental : S.Incremental) (material : Bytes) (rounds : Nat) (slices : List Nat) :
    let stream := slices.foldl (fun stream slice => (stream.advance P material slice).2) (WorkblockStream.new S rounds)
    stream.rounds = rounds ∧ stream.done = min rounds slices.sum ∧ Hashed P material stream := by
  have loop : ∀ (slices : List Nat) (stream : WorkblockStream S), Hashed P material stream →
      let after := slices.foldl (fun stream slice => (stream.advance P material slice).2) stream
      after.rounds = stream.rounds ∧ after.done = min stream.rounds (stream.done + slices.sum) ∧ Hashed P material after := by
    intro slices
    induction slices with
    | nil =>
      intro stream held
      exact ⟨rfl, (Nat.min_eq_right held.within).symm, held⟩
    | cons slice rest ih =>
      intro stream held
      obtain ⟨same, reached, after⟩ := ih _ (held.advance incremental slice)
      refine ⟨same, reached.trans ?_, after⟩
      simp only [WorkblockStream.advance, List.sum_cons]
      omega
  obtain ⟨same, reached, held⟩ := loop slices (WorkblockStream.new S rounds) (hashed_new incremental material rounds)
  exact ⟨same, reached.trans (by simp only [WorkblockStream.new, Nat.zero_add]), held⟩

theorem hashed_driveStream (incremental : S.Incremental) (yieldEvery : Nat) (held : Hashed P material stream) :
    let after := driveStream P material yieldEvery stream
    after.done = stream.rounds ∧ Hashed P material after := by
  induction stream using driveStream.induct P material yieldEvery with
  | case1 stream complete =>
    unfold driveStream
    rw [if_pos complete]
    have reached : stream.rounds ≤ stream.done := by simpa [WorkblockStream.isComplete] using complete
    exact ⟨Nat.le_antisymm held.within reached, held⟩
  | case2 stream pending ih =>
    unfold driveStream
    rw [if_neg pending]
    exact ih (held.advance incremental _)

/-- Cost and value are one scale but for the power of two itself, and no slicing of the workblock changes
the digest. -/
theorem stamp_scale (incremental : S.Incremental) :
    (∀ (digest : FixedBytes 32) (cost : UInt8),
      (digestValid digest cost = true ↔
        cost.toNat ≤ digestValue digest ∨ cost ≠ 0 ∧ Bytes.ofBe digest.val = 2 ^ (256 - cost.toNat)) ∧
      (cost ≠ 0 → Bytes.ofBe digest.val = 2 ^ (256 - cost.toNat) → digestValue digest + 1 = cost.toNat)) ∧
    (∀ (stream : WorkblockStream S) (stamp : FixedBytes 32) (cost : UInt8) (value : Nat),
      stream.validated stamp cost = some value →
      cost.toNat ≤ value ∨
        value + 1 = cost.toNat ∧ Bytes.ofBe (digestFromBase stream.hasher stamp).val = 2 ^ (256 - cost.toNat)) ∧
    (∀ (material : Bytes) (rounds : Nat) (slices : List Nat) (stamp : FixedBytes 32),
      let stream := slices.foldl (fun stream slice => (stream.advance P material slice).2) (WorkblockStream.new S rounds)
      (stream.isComplete = true ↔ rounds ≤ slices.sum) ∧
      (stream.isComplete = true → stream.hasher = S.update S.new (workblock P material rounds) ∧
        digestFromBase stream.hasher stamp = digest S (workblock P material rounds) stamp)) ∧
    (∀ (material : Bytes) (rounds yieldEvery : Nat),
      workblockHasher P S material rounds yieldEvery = S.update S.new (workblock P material rounds)) := by
  refine ⟨?_, ?_, ?_, ?_⟩
  · intro digest cost
    exact ⟨digestValid_scale digest cost, digestValue_of_boundary⟩
  · intro stream stamp cost value reported
    unfold WorkblockStream.validated at reported
    split at reported
    next zero =>
      subst zero
      exact .inl (Nat.zero_le _)
    next some_ =>
      dsimp only at reported
      split at reported
      next valid =>
        obtain rfl := Option.some.inj reported
        rcases (digestValid_scale _ _).mp valid with worth | ⟨-, boundary⟩
        · exact .inl worth
        · exact .inr ⟨digestValue_of_boundary some_ boundary, boundary⟩
      next => cases reported
  · intro material rounds slices stamp stream
    obtain ⟨same, reached, held⟩ := hashed_slices (P := P) incremental material rounds slices
    change stream.rounds = rounds at same
    change stream.done = min rounds slices.sum at reached
    have complete : stream.isComplete = true ↔ rounds ≤ slices.sum := by
      simp only [WorkblockStream.isComplete, decide_eq_true_eq, same, reached]
      omega
    refine ⟨complete, fun done => ?_⟩
    have hashed : stream.hasher = S.update S.new (workblock P material rounds) := by
      rw [held.hashed]
      change S.update S.new (workblock P material stream.done) = _
      rw [reached, Nat.min_eq_left (complete.mp done)]
    refine ⟨hashed, ?_⟩
    rw [digestFromBase, hashed, digest]
  · intro material rounds yieldEvery
    obtain ⟨reached, held⟩ := hashed_driveStream (P := P) incremental yieldEvery (hashed_new incremental material rounds)
    rw [workblockHasher, held.hashed]
    exact congrArg (fun n => S.update S.new (workblock P material n)) reached

end Stream

/-! The workblock of two rounds over the letter `a`, by SHA-256. -/

def firstBlock : FixedBytes 256 :=
  ⟨[
    0xc40acdb5c9b986f0ed4ce52e845c51bd91f7302ce558b982271d4b586bd5e4c7,
    0x32056a0de8fc0d516665cfbc7da0bcecc48fc9ea930d4d41cbf3178d34eec78c,
    0x3867afa5dfc01679ba8ef1ff203f86614870cf6c1f3f654741d6f80abfc52ec0,
    0x2f99a492e26509f8df517dc88587732ae0456e8a092ca945d968bc0b89452441,
    0xdd45bef757f43ef13a2eea94a93f72d371bd90737b8c42fbd23f253e66e38ccb,
    0xb0c65bc446df043b50d43aec3a463100eae004e9c8c742cd8ea0cc1cfe39c77f,
    0x9e7d23ff5fa339f7f6d075438445c61facc36626ca9c56d4733fe25f8c564992,
    0x745a1b1e06c2fe95e589387223a67d6f18debce692694b13b04f253f105e103e].flatMap (Bytes.be 32), by decide +kernel⟩

def secondBlock : FixedBytes 256 :=
  ⟨[
    0x2e13742238dbc8a0ae1ee9d59d88654ddf50a01b598692b83c236d7630b66d96,
    0xbbb6cf6f1c5be12d8bce806437e161931b8e498636b423038f7f85636d1342ca,
    0x7a02332f178f2fc0e76cb27fd5b5d7c6dfabed2c3efae4e9bde06c71222baa44,
    0x838f684035497007f508db80fbbed3e6e4b5765273e9db879dd8a8e3421d96e1,
    0x03d20128a11f0580dc7739e1e85e3e76a87d3ef3b87a8acb1f49981fce207bf2,
    0x2586ad25d5c775eb40d6d56cafd48eb541a462cd0f03736d16d1512ba4b0464d,
    0x32a5d5c91ee4935ca686fff63254e1263c57738451b889392572a09546a33049,
    0x4c6c5196d53640260490c036c06c39c652f38a05a489940fcce739c1600881cd].flatMap (Bytes.be 32), by decide +kernel⟩

def firstSalt : FixedBytes 32 :=
  FixedBytes.pad 32 (Bytes.be 32 0xffe9aaeaa2a2d5048174df0b80599ef0197ec024c4b051bc9860cff58ef7f9f3)

def secondSalt : FixedBytes 32 :=
  FixedBytes.pad 32 (Bytes.be 32 0x6023e54cda16371a6fc1257eb30c1585dcda4a1ea89ce2a7b540c2fe21c127fd)

def letterPrimitives : Primitives where
  rmp := Msgpack.Lxmf.shortest
  fullHash := fun input => if input = [0x61, 0] then firstSalt else secondSalt
  deriveKey := fun _ salt => if salt = firstSalt then firstBlock else secondBlock

/-- A hash that collects its input and knows one digest: of the two blocks under the stamp of 34s. -/
def collected : Sha256 where
  State := Bytes
  new := []
  update := fun input more => input ++ more
  finalize := fun input =>
    if input = firstBlock.val ++ secondBlock.val ++ List.replicate 32 34 then
      FixedBytes.pad 32 (Bytes.be 32 0x0170836e3db2a9c3c27f5e8667fe57315d813e288035f3ebef2aa4bfddb242b0)
    else FixedBytes.pad 32 input

theorem collected_incremental : collected.Incremental where
  nil := List.append_nil
  append := List.append_assoc

/-- The stamp is worth seven bits over the two rounds, expanded one at a time. -/
theorem stamp_scale_two_rounds :
    let stream := [1, 3].foldl (fun stream slice => (stream.advance letterPrimitives [0x61] slice).2)
      (WorkblockStream.new collected 2)
    digestFromBase stream.hasher (FixedBytes.replicate 32 34) =
        digest collected (workblock letterPrimitives [0x61] 2) (FixedBytes.replicate 32 34) ∧
      stream.validated (FixedBytes.replicate 32 34) 7 = some 7 ∧
      stream.validated (FixedBytes.replicate 32 34) 8 = none := by
  intro stream
  have scale := stamp_scale (P := letterPrimitives) collected_incremental
  exact ⟨((scale.2.2.1 [0x61] 2 [1, 3] (FixedBytes.replicate 32 34)).2 rfl).2, by decide +kernel, by decide +kernel⟩

/-- The digest that is one bit and then zeros clears cost one and is worth nothing. -/
theorem boundary_digest_below_cost :
    digestValid ⟨0x80 :: List.replicate 31 0, rfl⟩ 1 = true ∧ digestValue ⟨0x80 :: List.replicate 31 0, rfl⟩ = 0 := by
  decide

end Leviculum.Stamp
