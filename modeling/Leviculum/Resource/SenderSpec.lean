import Leviculum.Resource.Outgoing

/-! What a built sender is, and what its answers to a REQ hold. -/

namespace Leviculum.Resource

open Blocks Spacing

theorem mapWithSalts_spec {P : Primitives} {parts : List Bytes} {salts : List RandomHash}
    {salt : RandomHash} {entries : List MapHash}
    (mapped : mapWithSalts P parts salts = some (salt, entries)) :
    mapParts P parts salt = some entries := by
  induction salts with
  | nil => cases mapped
  | cons first salts ih =>
    unfold mapWithSalts at mapped
    split at mapped
    next entries' found =>
      rw [Option.some.injEq, Prod.mk.injEq] at mapped
      obtain ⟨rfl, rfl⟩ := mapped
      exact found
    next => exact ih mapped

/-- The plaintext a resource carries, and what of it is encrypted. -/
def SendOptions.combined (options : SendOptions) : Bytes := combine options.metadata options.data

def SendOptions.payload (P : Primitives) (options : SendOptions) : Bytes :=
  (squeeze P options.autoCompress options.combined).getD options.combined

structure BuiltFrom (P : Primitives) (options : SendOptions) (mtu : Nat) (key : TokenKey)
    (draws : Draws) (s : OutgoingResource) : Prop where
  cut : IsCut (max (resourceSdu mtu) 1) s.parts
  stream : s.parts.flatten =
    (P.encryptToken key draws.iv [draws.wireRandom.val, options.payload P]).flatten
  hashes : s.hashmap = s.parts.map (fun part => P.mapHash part s.advertisement.randomHash)
  spaced : DistinctWithin collisionGuardSize s.hashmap
  advertisement : s.advertisement =
    advertise P options options.combined (options.payload P)
      (squeeze P options.autoCompress options.combined).isSome s.parts s.advertisement.randomHash
      s.hashmap
  resourceHash : s.resourceHash = fullHashParts P options.combined s.advertisement.randomHash.val
  expectedProof : s.expectedProof = fullHashParts P options.combined s.resourceHash.val
  status : s.status = .advertised
  height : s.receiverMinConsecutiveHeight = 0

theorem newWithFlags_spec {P : Primitives} {options : SendOptions} {crypt : ResourceCryptParams}
    {draws : Draws} {nowMs : Nat} {s : OutgoingResource}
    (built : newWithFlags P options crypt draws nowMs = .ok (some s)) :
    ∃ key, crypt.tokenKey = some key ∧ BuiltFrom P options crypt.negotiatedMtu key draws s := by
  unfold newWithFlags at built
  split at built
  next => cases built
  next =>
    split at built
    next => cases built
    next key keyed =>
      refine ⟨key, keyed, ?_⟩
      dsimp only at built
      rw [Except.ok.injEq, Option.map_eq_some_iff] at built
      obtain ⟨⟨salt, entries⟩, mapped, rfl⟩ := built
      obtain ⟨hashes, spaced⟩ := mapParts_spec (mapWithSalts_spec mapped)
      obtain ⟨valid, size, stream⟩ := PartCutter.foldl_put_spec
        (PartCutter.valid_new (resourceSdu crypt.negotiatedMtu))
        (P.encryptToken key draws.iv [draws.wireRandom.val, options.payload P])
      have cut := valid.cut
      rw [size] at cut
      exact
        { cut := cut
          stream := stream
          hashes := hashes
          spaced := spaced
          advertisement := rfl
          resourceHash := rfl
          expectedProof := rfl
          status := rfl
          height := rfl }

def Primitives.TokenLength (P : Primitives) : Prop :=
  ∀ key iv pieces, (P.encryptToken key iv pieces).flatten.length = tokenLen pieces.flatten.length

namespace BuiltFrom

variable {P : Primitives} {options : SendOptions} {mtu : Nat} {key : TokenKey} {draws : Draws}
  {s : OutgoingResource}

theorem hashmap_length (built : BuiltFrom P options mtu key draws s) :
    s.hashmap.length = s.parts.length := by
  rw [built.hashes, List.length_map]

theorem transferSize_eq (built : BuiltFrom P options mtu key draws s) (lengths : P.TokenLength) :
    s.advertisement.transferSize = s.parts.flatten.length := by
  rw [built.stream, lengths, built.advertisement]
  show tokenLen (randomHashSize + (options.payload P).length) = _
  simp only [List.flatten_cons, List.flatten_nil, List.append_nil, List.length_append]
  rw [draws.wireRandom.property]
  rfl

theorem numParts_eq (built : BuiltFrom P options mtu key draws s) (lengths : P.TokenLength)
    (positive : 0 < resourceSdu mtu) :
    divCeil s.advertisement.transferSize (resourceSdu mtu) = s.hashmap.length := by
  have cut := built.cut
  rw [Nat.max_eq_left positive] at cut
  rw [built.transferSize_eq lengths, built.hashmap_length, cut.length_eq positive]

theorem hashmapData_eq (built : BuiltFrom P options mtu key draws s) :
    s.advertisement.hashmapData = s.hashmap.take hashmapMaxLen := by
  rw [built.advertisement]
  rfl

theorem advertised_resourceHash (built : BuiltFrom P options mtu key draws s) :
    s.advertisement.resourceHash = s.resourceHash := by
  rw [built.resourceHash, built.advertisement]
  rfl

end BuiltFrom

namespace OutgoingResource

theorem mem_scope {s : OutgoingResource} {mh : MapHash} {i : Nat} :
    (mh, i) ∈ s.scope ↔ s.receiverMinConsecutiveHeight ≤ i ∧
      i < s.receiverMinConsecutiveHeight + collisionGuardSize ∧ s.hashmap[i]? = some mh := by
  unfold scope
  rw [List.mem_iff_getElem?]
  constructor
  · rintro ⟨j, entry⟩
    rw [List.getElem?_take] at entry
    split at entry
    next short =>
      rw [List.getElem?_drop, List.getElem?_zipIdx, Option.map_eq_some_iff] at entry
      obtain ⟨other, found, same⟩ := entry
      rw [Prod.mk.injEq, Nat.zero_add] at same
      obtain ⟨rfl, rfl⟩ := same
      exact ⟨by omega, by omega, found⟩
    next => cases entry
  · rintro ⟨low, high, found⟩
    refine ⟨i - s.receiverMinConsecutiveHeight, ?_⟩
    have back : s.receiverMinConsecutiveHeight + (i - s.receiverMinConsecutiveHeight) = i := by omega
    rw [List.getElem?_take_of_lt (by omega), List.getElem?_drop, List.getElem?_zipIdx, back, found,
      Nat.zero_add]
    rfl

theorem mem_matching {s : OutgoingResource} {req : PartRequest} {i : Nat} :
    i ∈ s.matching req ↔ s.receiverMinConsecutiveHeight ≤ i ∧
      i < s.receiverMinConsecutiveHeight + collisionGuardSize ∧
      ∃ mh ∈ req.requestedHashes, s.hashmap[i]? = some mh := by
  unfold matching
  simp only [List.mem_map, List.mem_filter, List.contains_iff_mem, Prod.exists]
  constructor
  · rintro ⟨mh, j, ⟨member, requested⟩, rfl⟩
    obtain ⟨low, high, found⟩ := mem_scope.mp member
    exact ⟨low, high, mh, requested, found⟩
  · rintro ⟨low, high, mh, requested, found⟩
    exact ⟨mh, i, ⟨mem_scope.mpr ⟨low, high, found⟩, requested⟩, rfl⟩

def answer (s : OutgoingResource) (req : PartRequest) : List Packet :=
  (s.matching req).map (fun i => Packet.resource (s.parts.getD i [])) ++
    (req.lastMapHash.map (fun lastMapHash =>
      Packet.resourceHmu (s.hashmapSegment (s.partIndex lastMapHash / hashmapMaxLen)))).toList

theorem checkAllSent_toOutbound (s : OutgoingResource) : s.checkAllSent.toOutbound = s.toOutbound := by
  unfold checkAllSent
  split <;> rfl

theorem checkAllSent_height (s : OutgoingResource) :
    s.checkAllSent.receiverMinConsecutiveHeight = s.receiverMinConsecutiveHeight := by
  unfold checkAllSent
  split <;> rfl

/-- Whether `handle_request` gets to look up the last known hash of this REQ. -/
def LooksUp (s : OutgoingResource) (req : PartRequest) (linkActive : Bool) : Prop :=
  s.status ≠ .failed ∧ req.lastMapHash.isSome ∧ (linkActive = true ∨ s.matching req = [])

instance (s : OutgoingResource) (req : PartRequest) (linkActive : Bool) :
    Decidable (s.LooksUp req linkActive) := inferInstanceAs (Decidable (_ ∧ _ ∧ _))

/-- Everything that can become of a REQ: the search window moves exactly when the last known
hash is looked up. -/
theorem handleRequest_cases (s : OutgoingResource) (req : PartRequest) (linkActive : Bool)
    (nowMs : Nat) :
    (∃ error, s.handleRequest req linkActive nowMs = (.error error, s) ∧
      (s.status = .failed ∨ req.resourceHash ≠ s.resourceHash)) ∨
    ∃ result s', s.handleRequest req linkActive nowMs = (result, s') ∧
      s'.toOutbound = s.toOutbound ∧
      (result = .ok (s.answer req) ∨ result = .error .linkNotActive) ∧
      (s'.receiverMinConsecutiveHeight = s.receiverMinConsecutiveHeight ∧
          ¬ s.LooksUp req linkActive ∧ (req.lastMapHash = none ∨ result = .error .linkNotActive) ∨
        ∃ lastMapHash, req.lastMapHash = some lastMapHash ∧ s.LooksUp req linkActive ∧
          s'.receiverMinConsecutiveHeight = s.partIndex lastMapHash - (1 + windowMaxFast)) := by
  by_cases failed : s.status = .failed
  · exact .inl ⟨.cancelled, by rw [handleRequest, if_pos failed], .inl failed⟩
  by_cases other : req.resourceHash = s.resourceHash
  swap
  · exact .inl ⟨.invalidRequest, by rw [handleRequest, if_neg failed, if_pos other], .inr other⟩
  refine .inr ?_
  unfold handleRequest
  rw [if_neg failed, if_neg (not_not.mpr other)]
  dsimp only
  by_cases refused : (!linkActive) = true ∧ s.matching req ≠ []
  · rw [if_pos refused]
    have inactive : linkActive = false := by simpa using refused.1
    refine ⟨_, _, rfl, rfl, .inr rfl, .inl ⟨rfl, ?_, .inr rfl⟩⟩
    rintro ⟨-, -, active | empty⟩
    · rw [inactive] at active
      cases active
    · exact refused.2 empty
  · rw [if_neg refused]
    cases exhausted : req.lastMapHash with
    | none =>
      refine ⟨_, _, rfl, checkAllSent_toOutbound _, .inl ?_,
        .inl ⟨checkAllSent_height _, ?_, .inl rfl⟩⟩
      · simp [answer, exhausted]
      · rintro ⟨-, named, -⟩
        rw [exhausted] at named
        cases named
    | some lastMapHash =>
      have looksUp : s.LooksUp req linkActive := by
        refine ⟨failed, by rw [exhausted]; rfl, ?_⟩
        cases linkActive with
        | true => exact .inl rfl
        | false => exact .inr (by simpa using refused)
      dsimp only
      cases linkActive with
      | false => exact ⟨_, _, rfl, rfl, .inr rfl, .inr ⟨lastMapHash, rfl, looksUp, rfl⟩⟩
      | true =>
        refine ⟨_, _, rfl, checkAllSent_toOutbound _, .inl ?_,
          .inr ⟨lastMapHash, rfl, looksUp, checkAllSent_height _⟩⟩
        simp [answer, exhausted]

theorem handleRequest_active {s : OutgoingResource} {req : PartRequest} (nowMs : Nat)
    (alive : s.status ≠ .failed) (same : req.resourceHash = s.resourceHash) :
    (s.handleRequest req true nowMs).1 = .ok (s.answer req) := by
  unfold handleRequest answer
  rw [if_neg alive, if_neg (not_not.mpr same)]
  dsimp only
  rw [if_neg (by simp)]
  cases req.lastMapHash with
  | none => simp
  | some lastMapHash => simp

theorem poll_frame (s : OutgoingResource) (nowMs rttMs : Nat) :
    (s.poll nowMs rttMs).2.toOutbound = s.toOutbound ∧
      (s.poll nowMs rttMs).2.receiverMinConsecutiveHeight = s.receiverMinConsecutiveHeight := by
  unfold poll
  dsimp only
  split
  · split_ifs <;> exact ⟨rfl, rfl⟩
  · split_ifs <;> exact ⟨rfl, rfl⟩
  · split_ifs <;> exact ⟨rfl, rfl⟩
  · exact ⟨rfl, rfl⟩

end OutgoingResource

end Leviculum.Resource
