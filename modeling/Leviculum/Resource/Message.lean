import Leviculum.Lib.Bytes
import Leviculum.Lib.Blocks

/-! What the two ends of a resource transfer exchange, and the primitives both build on. -/

namespace Leviculum.Resource

open Blocks

abbrev MapHash := BitVec 32

abbrev Digest := FixedBytes 32

/-- `[u8; RESOURCE_RANDOM_HASH_SIZE]`. -/
abbrev RandomHash := FixedBytes 4

abbrev TokenKey := FixedBytes 64

def u64Max : Nat := 2 ^ 64 - 1
def saturatingAdd (a b : Nat) : Nat := min (a + b) u64Max
def saturatingMul (a b : Nat) : Nat := min (a * b) u64Max

def randomHashSize : Nat := 4
def hashmapMaxLen : Nat := 74
/-- `2 * RESOURCE_WINDOW_MAX_FAST + HASHMAP_MAX_LEN`. -/
def collisionGuardSize : Nat := 2 * 75 + hashmapMaxLen
def maxEfficientSize : Nat := 1024 * 1024 - 1
def autoCompressMax : Nat := 64 * 1024 * 1024
def maxRetries : Nat := 16
def maxAdvRetries : Nat := 4
def maxProofRetries : Nat := 3
def senderGraceTimeMs : Nat := 10000
def perRetryDelayMs : Nat := 500
def retryGraceTimeMs : Nat := 250
def partTimeoutFactorInitial : Nat := 4
def partTimeoutFactorAfterRtt : Nat := 2
def proofTimeoutFactor : Nat := 3
def processingGraceMs : Nat := 1000
def trafficTimeoutFactor : Nat := 6

/-- `HEADER_MAXSIZE + IFAC_MIN_SIZE`. -/
def sduOverhead : Nat := 35 + 1

def resourceSdu (negotiatedMtu : Nat) : Nat := negotiatedMtu - sduOverhead

/-- Initialisation vector, padded ciphertext and HMAC of a token over `length` bytes. -/
def tokenLen (length : Nat) : Nat := 16 + (length / 16 + 1) * 16 + 32

def partPolicyWaitMs (perPartTofMs outstanding timeoutFactor retries : Nat) : Nat :=
  saturatingAdd
    (saturatingAdd (saturatingMul (saturatingMul perPartTofMs (max outstanding 1)) timeoutFactor)
      retryGraceTimeMs)
    (saturatingMul retries perRetryDelayMs)

/-- How long the sender waits for the next request once parts are moving. -/
def senderPartBudgetMs (rttMs : Nat) : Nat :=
  saturatingAdd
    (saturatingAdd (saturatingMul (saturatingMul rttMs trafficTimeoutFactor) maxRetries)
      senderGraceTimeMs)
    (maxRetries * (maxRetries + 1) / 2 * perRetryDelayMs)

inductive ResourceStatus where
  | none
  | queued
  | advertised
  | transferring
  | awaitingProof
  | assembling
  | complete
  | failed
  | corrupt
  deriving DecidableEq, Repr

/-- Why a source could not produce the bytes it promised. -/
inductive SourceError where
  | unavailable
  | lengthChanged
  deriving DecidableEq, Repr

inductive ResourceError where
  | invalidAdvertisement
  | invalidHashmap
  | hashMismatch
  | timeout
  | partRequestTimeout
  | proofTimeout
  | cancelled
  | linkNotActive
  | compressionUnsupported
  | decompressionFailed
  | cryptoError
  | invalidProof
  | invalidRequest
  | resourceTooLarge
  | sourceFailed (error : SourceError)
  deriving DecidableEq, Repr

structure ResourceFlags where
  encrypted : Bool
  compressed : Bool
  split : Bool
  isRequest : Bool
  isResponse : Bool
  hasMetadata : Bool
  deriving DecidableEq, Repr

structure ResourceAdvertisement where
  transferSize : Nat
  dataSize : Nat
  numParts : Nat
  resourceHash : Digest
  randomHash : RandomHash
  originalHash : Digest
  segmentIndex : Nat
  totalSegments : Nat
  requestId : Option Bytes
  flags : ResourceFlags
  /-- First segment of the hashmap. -/
  hashmapData : List MapHash
  deriving DecidableEq

/-- A REQ. `lastMapHash` is there exactly when it is flagged exhausted. -/
structure PartRequest where
  lastMapHash : Option MapHash
  resourceHash : Digest
  requestedHashes : List MapHash
  deriving DecidableEq

/-- An HMU. -/
structure HashmapUpdate where
  resourceHash : Digest
  segment : Nat
  entries : List MapHash
  deriving DecidableEq

/-- What the sender puts on the link in answer to a REQ. -/
inductive Packet where
  | resource (part : Bytes)
  | resourceHmu (update : HashmapUpdate)
  deriving DecidableEq

/-- What libbz2 makes of a compressed buffer and room for its output. -/
inductive BzResult where
  | ok (output : Bytes)
  | outbuffFull
  | error
  deriving DecidableEq

/-- The link token, bzip2 and the hashes, with the `compression` feature of the build. -/
structure Primitives where
  /-- What the streaming encryption hands its sink for these pieces of plaintext. -/
  encryptToken : TokenKey → FixedBytes 16 → List Bytes → List Bytes
  decryptToken : TokenKey → Bytes → Option Bytes
  compression : Bool
  bz2Compress : Bytes → Option Bytes
  bzBuffToBuffDecompress : Bytes → Nat → BzResult
  fullHash : Bytes → Digest
  mapHash : Bytes → RandomHash → MapHash

/-- The token and bzip2 give back what they were given. -/
structure Primitives.RoundTrip (P : Primitives) : Prop where
  decrypt : ∀ key iv pieces,
    P.decryptToken key (P.encryptToken key iv pieces).flatten = some pieces.flatten
  tokenLength : ∀ key iv pieces,
    (P.encryptToken key iv pieces).flatten.length = tokenLen pieces.flatten.length
  decompress : ∀ data squeezed room, P.bz2Compress data = some squeezed → data.length ≤ room →
    P.bzBuffToBuffDecompress squeezed room = .ok data

end Leviculum.Resource
