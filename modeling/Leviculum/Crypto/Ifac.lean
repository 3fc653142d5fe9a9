import Leviculum.Lib.Bytes
import Mathlib.Data.List.Basic

/-! Interface access codes. A packet carries the end of its signature behind its first two bytes, and all but
that code is masked. In a key change a node accepts a second key beside the one it sends with. -/

namespace Leviculum.Crypto

def ed25519SignatureSize : Nat := 64
def ifacMinSize : Nat := 1

/-- Bit 7 of the first header byte. -/
def ifacFlag : UInt8 := 0x80

inductive IfacError where
  | sizeTooSmall
  | sizeTooLarge
  | packetTooShort
  | verificationFailed
  | missingIfacFlag
  | identityError
  deriving DecidableEq

/-- The signature under the identity of a key, and the bytes that the key derivation makes of a code and a
key. -/
structure IfacPrimitives where
  sign : FixedBytes 64 → Bytes → FixedBytes 64
  deriveKey : Bytes → FixedBytes 64 → Nat → UInt8

structure IfacConfig where
  ifacSize : Nat
  minimum : ifacMinSize ≤ ifacSize
  maximum : ifacSize ≤ ed25519SignatureSize
  ifacKey : FixedBytes 64
  /-- Accepted beside this one while keys change. -/
  alt : Option IfacConfig

namespace IfacConfig

variable (P : IfacPrimitives) (config : IfacConfig)

def new (ifacKey : FixedBytes 64) (ifacSize : Nat) : Except IfacError IfacConfig :=
  if minimum : ifacSize < ifacMinSize then .error .sizeTooSmall
  else if maximum : ed25519SignatureSize < ifacSize then .error .sizeTooLarge
  else .ok ⟨ifacSize, Nat.le_of_not_lt minimum, Nat.le_of_not_lt maximum, ifacKey, none⟩

def installAlt (next : IfacConfig) : IfacConfig := { config with alt := some next }

def activateAlt : IfacConfig :=
  match config.alt with
  | none => config
  | some alt => { alt with alt := some { config with alt := none } }

def sealAlt : IfacConfig := { config with alt := none }

/-- The code of a packet: the end of its signature. -/
def code (packet : Bytes) : Bytes :=
  (P.sign config.ifacKey packet).val.drop (ed25519SignatureSize - config.ifacSize)

def applyIfac (raw : Bytes) : Except IfacError Bytes :=
  match raw with
  | first :: second :: payload =>
    let ifac := config.code P raw
    let mask := P.deriveKey ifac config.ifacKey
    let newRaw := (first ||| ifacFlag) :: second :: (ifac ++ payload)
    .ok (newRaw.mapIdx (fun i byte =>
      if i = 0 then (byte ^^^ mask i) ||| ifacFlag
      else if i = 1 ∨ config.ifacSize + 1 < i then byte ^^^ mask i
      else byte))
  | _ => .error .packetTooShort

/-- Steps 3 to 5: unmask, clear the flag and take the code out. -/
def unmask (ifac raw : Bytes) : Bytes :=
  let mask := P.deriveKey ifac config.ifacKey
  let unmasked := raw.mapIdx (fun i byte => if i ≤ 1 ∨ config.ifacSize + 1 < i then byte ^^^ mask i else byte)
  match unmasked with
  | first :: second :: _ => (first &&& ~~~ifacFlag) :: second :: unmasked.drop (2 + config.ifacSize)
  | _ => []

def verifyIfacSingle (raw : Bytes) : Except IfacError Bytes :=
  if raw.length < 2 + config.ifacSize then .error .packetTooShort
  else if raw.headD 0 &&& ifacFlag = 0 then .error .missingIfacFlag
  else
    let ifac := (raw.drop 2).take config.ifacSize
    let clean := config.unmask P ifac raw
    if ifac ≠ config.code P clean then .error .verificationFailed else .ok clean

/-- The first error is kept when both keys fail. -/
def verifyIfac (raw : Bytes) : Except IfacError Bytes :=
  match config.verifyIfacSingle P raw with
  | .ok clean => .ok clean
  | .error error =>
    match config.alt with
    | none => .error error
    | some alt => (alt.verifyIfacSingle P raw).mapError (fun _ => error)

/-! ### One key -/

theorem length_code (packet : Bytes) : (config.code P packet).length = config.ifacSize := by
  have most := config.maximum
  rw [code, List.length_drop, (P.sign _ _).property]
  unfold ed25519SignatureSize at *
  omega

theorem flag_round_trip (byte mask : UInt8) (clear : byte &&& ifacFlag = 0) :
    (((byte ||| ifacFlag) ^^^ mask ||| ifacFlag) ^^^ mask) &&& ~~~ifacFlag = byte := by
  unfold ifacFlag at *
  have bits : byte.toBitVec &&& 0x80#8 = 0#8 := congrArg UInt8.toBitVec clear
  apply UInt8.toBitVec_inj.mp
  simp only [UInt8.toBitVec_and, UInt8.toBitVec_xor, UInt8.toBitVec_or, UInt8.toBitVec_not, UInt8.toBitVec_ofNat]
  generalize byte.toBitVec = left at bits
  generalize mask.toBitVec = right
  ext i lt
  have here := congrArg (fun value => value.getLsbD i) bits
  simp only [BitVec.getLsbD_and] at here
  rcases i with _ | _ | _ | _ | _ | _ | _ | _ | i
  all_goals simp_all
  omega

theorem flag_set (byte : UInt8) : (byte ||| ifacFlag) &&& ifacFlag ≠ 0 := by
  unfold ifacFlag
  intro cleared
  have bits : (byte.toBitVec ||| 0x80#8) &&& 0x80#8 = 0#8 := congrArg UInt8.toBitVec cleared
  have high := congrArg (fun value => value.getLsbD 7) bits
  simp at high

theorem mapIdx_around {code payload : Bytes} {size : Nat} (fits : code.length = size) (first second : UInt8)
    (header : UInt8 → UInt8) (next : UInt8 → UInt8) (mask : Nat → UInt8) :
    (first :: second :: (code ++ payload)).mapIdx (fun i byte =>
      if i = 0 then header byte else if i = 1 then next byte
      else if size + 1 < i then byte ^^^ mask i else byte) =
      header first :: next second :: (code ++ payload.mapIdx (fun i byte => byte ^^^ mask (i + size + 2))) := by
  rw [List.mapIdx_cons, List.mapIdx_cons, List.mapIdx_append, if_pos rfl]
  have skipped : code.mapIdx (fun i byte => if i + 1 + 1 = 0 then header byte else if i + 1 + 1 = 1 then next byte
      else if size + 1 < i + 1 + 1 then byte ^^^ mask (i + 1 + 1) else byte) = code := by
    have inside : ∀ (rest : Bytes) (start : Nat), start + rest.length ≤ size →
        rest.mapIdx (fun i byte => if size < i + start + 1 then byte ^^^ mask (i + start + 2) else byte) = rest := by
      intro rest
      induction rest with
      | nil => exact fun _ _ => rfl
      | cons byte rest ih =>
        intro start most
        rw [List.length_cons] at most
        have later := ih (start + 1) (by omega)
        rw [List.mapIdx_cons, if_neg (by omega)]
        refine congrArg (byte :: ·) (Eq.trans ?_ later)
        refine congrArg (List.mapIdx · rest) ?_
        funext i other
        rw [Nat.add_right_comm i 1 start, Nat.add_assoc i start 1]
    refine Eq.trans ?_ (inside code 0 (by omega))
    refine congrArg (List.mapIdx · code) ?_
    funext i byte
    simp
  have masked : payload.mapIdx (fun i byte => if i + code.length + 1 + 1 = 0 then header byte
      else if i + code.length + 1 + 1 = 1 then next byte
      else if size + 1 < i + code.length + 1 + 1 then byte ^^^ mask (i + code.length + 1 + 1) else byte) =
      payload.mapIdx (fun i byte => byte ^^^ mask (i + size + 2)) := by
    refine congrArg (List.mapIdx · payload) ?_
    funext i byte
    rw [fits, if_neg (by omega), if_neg (by omega), if_pos (by omega)]
  rw [skipped, masked]
  rfl

def maskPayload (ifac payload : Bytes) : Bytes :=
  payload.mapIdx (fun i byte => byte ^^^ P.deriveKey ifac config.ifacKey (i + config.ifacSize + 2))

theorem maskPayload_maskPayload (ifac payload : Bytes) :
    config.maskPayload P ifac (config.maskPayload P ifac payload) = payload := by
  unfold maskPayload
  refine List.ext_getElem (by simp) (fun i inside inside' => ?_)
  rw [List.getElem_mapIdx, List.getElem_mapIdx, UInt8.xor_assoc, UInt8.xor_self, UInt8.xor_zero]

theorem applyIfac_eq (first second : UInt8) (payload : Bytes) :
    config.applyIfac P (first :: second :: payload) =
      let ifac := config.code P (first :: second :: payload)
      let mask := P.deriveKey ifac config.ifacKey
      .ok (((first ||| ifacFlag) ^^^ mask 0 ||| ifacFlag) :: (second ^^^ mask 1) ::
        (ifac ++ config.maskPayload P ifac payload)) := by
  dsimp only [applyIfac]
  rw [Except.ok.injEq, maskPayload, ← mapIdx_around (config.length_code P _) (first ||| ifacFlag) second
    (fun byte => byte ^^^ P.deriveKey (config.code P (first :: second :: payload)) config.ifacKey 0 ||| ifacFlag)
    (fun byte => byte ^^^ P.deriveKey (config.code P (first :: second :: payload)) config.ifacKey 1)
    (P.deriveKey (config.code P (first :: second :: payload)) config.ifacKey)]
  refine congrArg (List.mapIdx · _) ?_
  funext i byte
  by_cases zero : i = 0
  · subst zero
    rfl
  · by_cases one : i = 1
    · subst one
      rfl
    · simp only [zero, one, if_false, false_or]

theorem unmask_eq {ifac : Bytes} (fits : ifac.length = config.ifacSize) (first second : UInt8) (payload : Bytes) :
    config.unmask P ifac (first :: second :: (ifac ++ payload)) =
      ((first ^^^ P.deriveKey ifac config.ifacKey 0) &&& ~~~ifacFlag) ::
        (second ^^^ P.deriveKey ifac config.ifacKey 1) :: config.maskPayload P ifac payload := by
  have unmasked : (first :: second :: (ifac ++ payload)).mapIdx (fun i byte =>
      if i ≤ 1 ∨ config.ifacSize + 1 < i then byte ^^^ P.deriveKey ifac config.ifacKey i else byte) =
      (first ^^^ P.deriveKey ifac config.ifacKey 0) :: (second ^^^ P.deriveKey ifac config.ifacKey 1) ::
        (ifac ++ config.maskPayload P ifac payload) := by
    rw [maskPayload, ← mapIdx_around fits first second (fun byte => byte ^^^ P.deriveKey ifac config.ifacKey 0)
      (fun byte => byte ^^^ P.deriveKey ifac config.ifacKey 1) (P.deriveKey ifac config.ifacKey)]
    refine congrArg (List.mapIdx · _) ?_
    funext i byte
    by_cases zero : i = 0
    · subst zero
      rfl
    · by_cases one : i = 1
      · subst one
        rfl
      · have late : ¬i ≤ 1 := by omega
        simp only [zero, one, late, if_false, false_or]
  unfold unmask
  dsimp only
  rw [unmasked]
  dsimp only
  rw [Nat.add_comm 2, List.drop_succ_cons, List.drop_succ_cons, List.drop_left' fits]

theorem verifyIfacSingle_applyIfac {first : UInt8} (second : UInt8) (payload : Bytes) (clear : first &&& ifacFlag = 0) :
    ∃ masked, config.applyIfac P (first :: second :: payload) = .ok masked ∧
      config.verifyIfacSingle P masked = .ok (first :: second :: payload) := by
  have fits := config.length_code P (first :: second :: payload)
  refine ⟨_, config.applyIfac_eq P first second payload, ?_⟩
  generalize tag : config.code P (first :: second :: payload) = ifac at *
  unfold verifyIfacSingle
  have long : ¬(((first ||| ifacFlag) ^^^ P.deriveKey ifac config.ifacKey 0 ||| ifacFlag) ::
      (second ^^^ P.deriveKey ifac config.ifacKey 1) :: (ifac ++ config.maskPayload P ifac payload)).length <
        2 + config.ifacSize := by
    rw [List.length_cons, List.length_cons, List.length_append, fits]
    omega
  rw [if_neg long, List.headD_cons, if_neg (flag_set _)]
  dsimp only
  rw [List.drop_succ_cons, List.drop_succ_cons, List.drop_zero, List.take_left' fits, unmask_eq P config fits,
    flag_round_trip _ _ clear, UInt8.xor_assoc, UInt8.xor_self, UInt8.xor_zero, maskPayload_maskPayload, tag,
    if_neg (not_not.mpr rfl)]

def SameKey (config other : IfacConfig) : Prop :=
  config.ifacSize = other.ifacSize ∧ config.ifacKey = other.ifacKey

theorem SameKey.join {config other key : IfacConfig} (same : config.SameKey key) (same' : other.SameKey key) :
    config.SameKey other := ⟨same.1.trans same'.1.symm, same.2.trans same'.2.symm⟩

theorem SameKey.code_eq {config other : IfacConfig} (same : config.SameKey other) (packet : Bytes) :
    config.code P packet = other.code P packet := by
  rw [code, code, same.1, same.2]

theorem SameKey.verifyIfacSingle_eq {config other : IfacConfig} (same : config.SameKey other) (raw : Bytes) :
    config.verifyIfacSingle P raw = other.verifyIfacSingle P raw := by
  have unmasked (ifac : Bytes) : config.unmask P ifac raw = other.unmask P ifac raw := by
    rw [unmask, unmask, same.1, same.2]
  unfold verifyIfacSingle
  dsimp only
  rw [same.1, unmasked, same.code_eq P]

/-- The keys a node takes packets of. -/
def Accepts (config key : IfacConfig) : Prop :=
  config.SameKey key ∨ ∃ alt, config.alt = some alt ∧ alt.SameKey key

theorem Accepts.verifies {config key : IfacConfig} (accepts : config.Accepts key) {first second : UInt8}
    {payload : Bytes} (clear : first &&& ifacFlag = 0) :
    ∃ masked clean, key.applyIfac P (first :: second :: payload) = .ok masked ∧
      config.verifyIfac P masked = .ok clean ∧
      (clean = first :: second :: payload ∨ config.verifyIfacSingle P masked = .ok clean) := by
  obtain ⟨masked, applied, verified⟩ := key.verifyIfacSingle_applyIfac P second payload clear
  rcases accepts with same | ⟨alt, window, same⟩
  · rw [← same.verifyIfacSingle_eq P] at verified
    refine ⟨masked, _, applied, ?_, .inl rfl⟩
    rw [verifyIfac, verified]
  · rw [← same.verifyIfacSingle_eq P] at verified
    cases own : config.verifyIfacSingle P masked with
    | ok clean => exact ⟨masked, clean, applied, by rw [verifyIfac, own], .inr own⟩
    | error error =>
      refine ⟨masked, _, applied, ?_, .inl rfl⟩
      rw [verifyIfac, own, window]
      dsimp only
      rw [verified]
      rfl

end IfacConfig

/-! ### Changing keys -/

/-- A node in its key changes: how many phases it has gone through. -/
structure RotatingNode where
  config : IfacConfig
  phase : Nat

namespace RotatingNode

variable (keys : Nat → IfacConfig)

/-- The next phase: install the next key, activate it, seal. -/
def advance (node : RotatingNode) : RotatingNode where
  config :=
    match node.phase % 3 with
    | 0 => node.config.installAlt (keys (node.phase / 3 + 1))
    | 1 => node.config.activateAlt
    | _ => node.config.sealAlt
  phase := node.phase + 1

def start : RotatingNode := ⟨(keys 0).sealAlt, 0⟩

structure InPhase (node : RotatingNode) : Prop where
  sealed : ∀ round, node.phase = 3 * round → node.config.SameKey (keys round)
  installed : ∀ round, node.phase = 3 * round + 1 →
    node.config.SameKey (keys round) ∧ ∃ alt, node.config.alt = some alt ∧ alt.SameKey (keys (round + 1))
  activated : ∀ round, node.phase = 3 * round + 2 →
    node.config.SameKey (keys (round + 1)) ∧ ∃ alt, node.config.alt = some alt ∧ alt.SameKey (keys round)

theorem inPhase_start : InPhase keys (start keys) where
  sealed round here := by
    have zero : round = 0 := by
      change 0 = 3 * round at here
      omega
    subst zero
    exact ⟨rfl, rfl⟩
  installed round here := by
    change 0 = 3 * round + 1 at here
    omega
  activated round here := by
    change 0 = 3 * round + 2 at here
    omega

theorem InPhase.advance {node : RotatingNode} (inPhase : InPhase keys node) : InPhase keys (node.advance keys) := by
  obtain ⟨config, phase⟩ := node
  obtain ⟨round, rfl | rfl | rfl⟩ : ∃ round, phase = 3 * round ∨ phase = 3 * round + 1 ∨ phase = 3 * round + 2 :=
    ⟨phase / 3, by omega⟩
  · have now := inPhase.sealed round rfl
    have division : 3 * round / 3 = round := Nat.mul_div_cancel_left _ (by decide)
    have remainder : 3 * round % 3 = 0 := Nat.mul_mod_right _ _
    constructor
    · intro other here
      change 3 * round + 1 = 3 * other at here
      omega
    · intro other here
      change 3 * round + 1 = 3 * other + 1 at here
      obtain rfl : round = other := by omega
      simp only [RotatingNode.advance, remainder, division]
      exact ⟨now, _, rfl, rfl, rfl⟩
    · intro other here
      change 3 * round + 1 = 3 * other + 2 at here
      omega
  · obtain ⟨now, alt, window, next⟩ := inPhase.installed round rfl
    have remainder : (3 * round + 1) % 3 = 1 := by omega
    have window : config.alt = some alt := window
    constructor
    · intro other here
      change 3 * round + 1 + 1 = 3 * other at here
      omega
    · intro other here
      change 3 * round + 1 + 1 = 3 * other + 1 at here
      omega
    · intro other here
      change 3 * round + 1 + 1 = 3 * other + 2 at here
      obtain rfl : round = other := by omega
      simp only [RotatingNode.advance, remainder, IfacConfig.activateAlt, window]
      exact ⟨next, _, rfl, now⟩
  · obtain ⟨now, -⟩ := inPhase.activated round rfl
    have remainder : (3 * round + 2) % 3 = 2 := by omega
    constructor
    · intro other here
      change 3 * round + 2 + 1 = 3 * other at here
      obtain rfl : round + 1 = other := by omega
      simp only [RotatingNode.advance, remainder]
      exact now
    · intro other here
      change 3 * round + 2 + 1 = 3 * other + 1 at here
      omega
    · intro other here
      change 3 * round + 2 + 1 = 3 * other + 2 at here
      omega

theorem InPhase.accepts {node other : RotatingNode} (inPhase : InPhase keys node) (inPhase' : InPhase keys other)
    (behind : node.phase ≤ other.phase + 1) (ahead : other.phase ≤ node.phase + 1) :
    node.config.Accepts other.config := by
  obtain ⟨round, here | here | here⟩ :
      ∃ round, node.phase = 3 * round ∨ node.phase = 3 * round + 1 ∨ node.phase = 3 * round + 2 :=
    ⟨node.phase / 3, by omega⟩
  · have own := inPhase.sealed round here
    by_cases same : other.phase = 3 * round
    · exact .inl (own.join (inPhase'.sealed round same))
    · by_cases later : other.phase = 3 * round + 1
      · exact .inl (own.join (inPhase'.installed round later).1)
      · obtain ⟨before, rfl⟩ : ∃ before, round = before + 1 := ⟨round - 1, by omega⟩
        exact .inl (own.join (inPhase'.activated before (by omega)).1)
  · obtain ⟨own, alt, window, next⟩ := inPhase.installed round here
    by_cases same : other.phase = 3 * round + 1
    · exact .inl (own.join (inPhase'.installed round same).1)
    · by_cases earlier : other.phase = 3 * round
      · exact .inl (own.join (inPhase'.sealed round earlier))
      · exact .inr ⟨alt, window, next.join (inPhase'.activated round (by omega)).1⟩
  · obtain ⟨own, alt, window, old⟩ := inPhase.activated round here
    by_cases same : other.phase = 3 * round + 2
    · exact .inl (own.join (inPhase'.activated round same).1)
    · by_cases earlier : other.phase = 3 * round + 1
      · exact .inr ⟨alt, window, old.join (inPhase'.installed round earlier).1⟩
      · exact .inl (own.join (inPhase'.sealed (round + 1) (by omega)))

end RotatingNode

/-- Two nodes of one network, and which of them goes on. -/
structure RotatingPair where
  left : RotatingNode
  right : RotatingNode

inductive Side where
  | left
  | right

namespace RotatingPair

variable (keys : Nat → IfacConfig)

def start : RotatingPair := ⟨.start keys, .start keys⟩

def move (pair : RotatingPair) : Side → RotatingPair
  | .left => { pair with left := pair.left.advance keys }
  | .right => { pair with right := pair.right.advance keys }

def after (moves : List Side) : RotatingPair := moves.foldl (move keys) (start keys)

theorem inPhase_after (moves : List Side) :
    RotatingNode.InPhase keys (after keys moves).left ∧ RotatingNode.InPhase keys (after keys moves).right := by
  have loop : ∀ (moves : List Side) (pair : RotatingPair),
      RotatingNode.InPhase keys pair.left ∧ RotatingNode.InPhase keys pair.right →
      RotatingNode.InPhase keys (moves.foldl (move keys) pair).left ∧
        RotatingNode.InPhase keys (moves.foldl (move keys) pair).right := by
    intro moves
    induction moves with
    | nil => exact fun _ both => both
    | cons side rest ih =>
      intro pair both
      cases side with
      | left => exact ih _ ⟨both.1.advance keys, both.2⟩
      | right => exact ih _ ⟨both.1, both.2.advance keys⟩
  exact loop moves _ ⟨RotatingNode.inPhase_start keys, RotatingNode.inPhase_start keys⟩

end RotatingPair

/-- A packet comes back as it was under its own key; and while two nodes change keys at their own pace, each
takes what the other sends as long as they are at most one phase apart. -/
theorem ifac_round_trip_and_rotation (P : IfacPrimitives) (first second : UInt8) (payload : Bytes)
    (clear : first &&& ifacFlag = 0) :
    (∀ config : IfacConfig, ∃ masked, config.applyIfac P (first :: second :: payload) = .ok masked ∧
      config.verifyIfac P masked = .ok (first :: second :: payload)) ∧
    ∀ (keys : Nat → IfacConfig) (moves : List Side),
      let pair := RotatingPair.after keys moves
      pair.left.phase ≤ pair.right.phase + 1 → pair.right.phase ≤ pair.left.phase + 1 →
      (∃ masked clean, pair.left.config.applyIfac P (first :: second :: payload) = .ok masked ∧
        pair.right.config.verifyIfac P masked = .ok clean ∧
        (clean = first :: second :: payload ∨ pair.right.config.verifyIfacSingle P masked = .ok clean)) ∧
      (∃ masked clean, pair.right.config.applyIfac P (first :: second :: payload) = .ok masked ∧
        pair.left.config.verifyIfac P masked = .ok clean ∧
        (clean = first :: second :: payload ∨ pair.left.config.verifyIfacSingle P masked = .ok clean)) := by
  constructor
  · intro config
    obtain ⟨masked, applied, verified⟩ := config.verifyIfacSingle_applyIfac P second payload clear
    refine ⟨masked, applied, ?_⟩
    rw [IfacConfig.verifyIfac, verified]
  · intro keys moves pair behind ahead
    obtain ⟨left, right⟩ := RotatingPair.inPhase_after keys moves
    exact ⟨(right.accepts keys left ahead behind).verifies P clear, (left.accepts keys right behind ahead).verifies P clear⟩

/-- Signatures that repeat the start of the data, masked with the key. -/
def plainIfac : IfacPrimitives where
  sign _ data := FixedBytes.pad 64 data
  deriveKey _ key i := (key.val.getD (i % 64) 0)

theorem sixteen_in_range : ifacMinSize ≤ 16 ∧ 16 ≤ ed25519SignatureSize := by decide

def numberedKeys (round : Nat) : IfacConfig :=
  ⟨16, sixteen_in_range.1, sixteen_in_range.2, FixedBytes.pad 64 [UInt8.ofNat round + 5], none⟩

/-- One node has activated the next key, the other has only installed it. -/
theorem ifac_round_trip_and_rotation_installed :
    ∃ masked clean, (RotatingPair.after numberedKeys [.left, .right, .left]).left.config.applyIfac plainIfac [2, 0, 7] =
        .ok masked ∧
      (RotatingPair.after numberedKeys [.left, .right, .left]).right.config.verifyIfac plainIfac masked = .ok clean ∧
      (clean = [2, 0, 7] ∨
        (RotatingPair.after numberedKeys [.left, .right, .left]).right.config.verifyIfacSingle plainIfac masked = .ok clean) :=
  ((ifac_round_trip_and_rotation plainIfac 2 0 [7] (by decide)).2 numberedKeys [.left, .right, .left] (by decide)
    (by decide)).1

end Leviculum.Crypto
