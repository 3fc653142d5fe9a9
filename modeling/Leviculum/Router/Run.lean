import Leviculum.Msgpack.Shortest
import Leviculum.Router.Calls

/-! Runs of the router: any public calls in any order, each with its own answers from the layers below. -/

namespace Leviculum.Router

open Propagation (DestinationHash TransientId)
open Fallible (exec)

/-- The public calls. `host` stands for whatever happens below the router between two of them. -/
inductive Call (Env : Type) where
  | host (change : Env → Env)
  | enablePropagationClient (identityHash : FixedBytes 16) (config : PropagationClientConfig)
  | disablePropagationClient
  | issueTicketField (destination : DestinationHash) (secret : FixedBytes 16)
  | ignore (source : DestinationHash)
  | unignore (source : DestinationHash)
  | replaceIgnored (ignored : Finset DestinationHash)
  | enqueue (message : Message)
  | cancel (id : MessageId)
  | setOutboundStamp (id : MessageId) (stamp : Bytes) (nowMs : Nat)
  | setOutboundStampResult (request : DeliveryStampRequest) (stamp : Bytes)
  | setOutboundPropagationStamp (id : MessageId) (stamp : FixedBytes 32) (nowMs : Nat)
  | setOutboundPropagationStampResult (request : PropagationStampRequest) (stamp : FixedBytes 32) (nowMs : Nat)
  | takeResourceBuilds
  | commitResourceBuild (built : PendingResourceBuild)
  | handleEvent (event : NodeEvent)
  | tick
  | setInboundStampResult (request : InboundStampRequest) (valid : Bool)
  | ingestPaper (paper : Option Bytes)
  | deliverPropagatedLocal (unstamped : Bytes)
  | setOutboundPropagationNode (destination : Option DestinationHash)
  | selectOutboundPropagationNode (preferred : Option DestinationHash)
  | requestMessagesFromPropagationNode (maxMessages : Option Nat)
  | cancelPropagationNodeRequests
  | setPropagationPathTimeoutMs (pathTimeoutMs : Nat)
  | persist (stored : Bool)
  | restore (snapshot : Option Snapshot)

/-- What a call that went well gives back besides its output. -/
inductive Reply where
  | output
  | field (field : Option (Int × Bytes))
  | builds (jobs : List PendingResourceBuild)
  | saved (snapshot : Snapshot)
  | done
  deriving DecidableEq

def Reply.hasOutput : Reply → Bool
  | .output | .field _ => true
  | .builds _ | .saved _ | .done => false

variable {Env : Type} (prims : Primitives)

def enablePropagationClient (identityHash : FixedBytes 16) (config : PropagationClientConfig) : Proc Env Unit := do
  let world ← get
  if identityHash ≠ world.router.identityHash then throw .identityMismatch
  else modify (fun world => { world with router.propagation := some (.fresh config) })

/-- A call with the answers it gets from below. -/
structure Step (Env : Type) where
  ops : NodeOps Env
  call : Call Env

/-- The call as a program. -/
def Step.proc (step : Step Env) : Proc Env Reply :=
  let ops := step.ops
  match step.call with
  | .host change => modify (fun world => { world with env := change world.env }) >>= fun _ => pure .done
  | .enablePropagationClient identity config => enablePropagationClient identity config >>= fun _ => pure .done
  | .disablePropagationClient =>
    modify (fun world => { world with router.propagation := none }) >>= fun _ => pure .done
  | .issueTicketField destination secret => issueTicketField prims ops destination secret >>= fun f => pure (.field f)
  | .ignore source => modify (Router.ignore source) >>= fun _ => pure .done
  | .unignore source => modify (Router.unignore source) >>= fun _ => pure .done
  | .replaceIgnored ignored => replaceIgnored ignored >>= fun _ => pure .output
  | .enqueue message => enqueue prims ops message >>= fun _ => pure .output
  | .cancel id => cancel ops id >>= fun _ => pure .output
  | .setOutboundStamp id stamp nowMs => setOutboundStamp id stamp nowMs >>= fun _ => pure .output
  | .setOutboundStampResult request stamp => setOutboundStampResult ops request stamp >>= fun _ => pure .output
  | .setOutboundPropagationStamp id stamp nowMs =>
    setOutboundPropagationStamp id stamp nowMs >>= fun _ => pure .output
  | .setOutboundPropagationStampResult request stamp nowMs =>
    setOutboundPropagationStampResult request stamp nowMs >>= fun _ => pure .output
  | .takeResourceBuilds => takeResourceBuilds >>= fun jobs => pure (.builds jobs)
  | .commitResourceBuild built => commitResourceBuild prims ops built >>= fun _ => pure .output
  | .handleEvent event => handleEvent prims ops event >>= fun _ => pure .output
  | .tick => tick prims ops >>= fun _ => pure .output
  | .setInboundStampResult request valid => setInboundStampResult request valid >>= fun _ => pure .output
  | .ingestPaper paper => ingestPaper prims ops paper >>= fun _ => pure .output
  | .deliverPropagatedLocal unstamped => deliverPropagatedLocal prims ops unstamped >>= fun _ => pure .output
  | .setOutboundPropagationNode destination => setOutboundPropagationNode ops destination >>= fun _ => pure .output
  | .selectOutboundPropagationNode preferred => selectOutboundPropagationNode ops preferred >>= fun _ => pure .output
  | .requestMessagesFromPropagationNode maxMessages =>
    requestMessagesFromPropagationNode ops maxMessages >>= fun _ => pure .output
  | .cancelPropagationNodeRequests => cancelPropagationNodeRequests ops >>= fun _ => pure .output
  | .setPropagationPathTimeoutMs pathTimeoutMs => setPropagationPathTimeoutMs pathTimeoutMs >>= fun _ => pure .done
  | .persist stored => persist prims stored >>= fun snapshot => pure (.saved snapshot)
  | .restore snapshot => restore prims snapshot >>= fun _ => pure .done

/-- A world between two calls, with nothing said yet. -/
def World.idle (world : World Env) : World Env := { world with out := ⟨[], []⟩ }

/-- The outcome of a call, and the world after it with what the call has said. -/
def Step.run (step : Step Env) (world : World Env) : Except RouterError Reply × World Env :=
  exec (step.proc prims) world.idle

/-- The output the caller gets, when it gets one. -/
def Step.returned (step : Step Env) (world : World Env) : Option RouterOutput :=
  match (step.run prims world).1 with
  | .ok reply =>
    if reply.hasOutput then
      some (finishOutput (step.run prims world).2.router.persistenceDirty (step.run prims world).2.out)
    else none
  | .error _ => none

def World.after (world : World Env) (steps : List (Step Env)) : World Env :=
  steps.foldl (fun world step => (step.run prims world).2) world

def World.new (config : RouterConfig) (identityHash : FixedBytes 16) (deliveryDestination : DestinationHash)
    (maxOutgoingDeliverySize : Option Nat) (env : Env) : World Env :=
  ⟨.new config identityHash deliveryDestination maxOutgoingDeliverySize, env, ⟨[], []⟩⟩

theorem World.after_append (world : World Env) (early late : List (Step Env)) :
    world.after prims (early ++ late) = (world.after prims early).after prims late := List.foldl_append

theorem World.after_concat (world : World Env) (steps : List (Step Env)) (step : Step Env) :
    world.after prims (steps ++ [step]) = (step.run prims (world.after prims steps)).2 := by
  rw [World.after_append]
  rfl

/-! ### A node without peers -/

/-- The first `n` bytes, filled up with zeros. -/
def padded (n : Nat) (bytes : Bytes) : FixedBytes n := FixedBytes.pad n bytes

/-- Primitives for runs at concrete inputs: digests are prefixes, and zero is the only float. -/
def plainPrimitives : Primitives where
  fullHash := padded 32
  truncatedHash := padded 16
  rmp := Msgpack.Lxmf.shortest
  f64Bits _ := 0
  f64Value bits := if bits = 0 then some 0 else none

/-- A node that knows nobody, has no link and takes nothing. -/
def loneNode (nowMs : UInt64) : NodeOps Unit where
  nowMs _ := nowMs
  emissionSecs _ := 0
  hasPlausibleWallClock _ := true
  hasPath _ _ := false
  hopsTo _ _ := none
  requestPath _ _ := ()
  removePath _ _ := ()
  encryptForDestination _ _ _ := (.error .noPath, ())
  openLocal _ _ _ := .error (.message .tooShort)
  knowsIdentity _ _ := false
  activeDirectLink _ _ := (none, ())
  pendingLink _ _ := none
  connect _ _ := (none, ())
  sendSinglePacket _ _ := (.error .noPath, ())
  sendPacketOnLink _ _ _ := (.error .noLink, ())
  sendResource _ _ _ := (.error .linkStateChanged, ())
  resourceSendParams _ _ := .error .linkStateChanged
  commitResourceSend _ _ _ := (.error .linkStateChanged, ())
  cancelOutbound _ _ := ()
  startWantedLink _ _ := (.ok (), ())
  adoptLink _ _ _ := (.ok none, ())
  identifyPeer _ _ _ := (none, ())
  provePacket _ _ := (.ok (), ())
  proveOnLink _ _ _ := (.ok (), ())
  ownsLink _ _ := false
  unpackInbound _ _ _ := none
  answerResource _ _ _ _ := (.ok false, ())
  assembleSegment _ _ _ _ _ := (.rejected, ())
  resourceMoved _ _ _ _ _ := (none, ())
  takeResource _ _ := (none, ())
  dropIncoming _ _ _ := ()
  takePacketReceipt _ _ := (none, ())
  takeLinkReceipt _ _ _ := (none, ())
  dropLink _ _ := ([], ())
  rememberAnnounce _ _ := (false, ())
  connectWanted _ _ := (.ok (), ())
  adoptNodeLink _ _ := (none, ())
  takeRequest _ _ _ := (none, ())
  decodeListResponse _ := none
  decodeGetResponse _ := none
  takePacketUpload _ _ _ := (none, ())
  takeSignalledUpload _ _ _ := (none, ())
  resourceUpload _ _ := none
  takeResourceUpload _ _ := (none, ())
  openRequest _ _ := none
  requestUploaded _ _ _ := ()
  takeFailedRequest _ _ _ := (none, ())
  dropNodeLink _ _ := (none, ())
  knownNodes _ := []
  isOrphaned _ _ := false
  forgetKnownNode _ _ := ()
  linkActive _ _ := false
  activeLink _ _ := none
  activeUpload _ _ := none
  hasActiveUpload _ _ := false
  ensureLink _ _ := (.error .unknownNode, ())
  identify _ _ := (.error .linkUnavailable, ())
  submitMailboxRequest _ _ _ _ := (.error .linkUnavailable, ())
  cancel _ _ := ()
  close _ _ := ()
  uploadSendParams _ _ _ _ := .error .linkUnavailable
  submitUpload _ _ _ _ := (.error .linkUnavailable, ())
  commitUpload _ _ _ _ := (.error .linkUnavailable, ())

def loneRouter (config : RouterConfig) : World Unit := World.new config (padded 16 [1]) (padded 16 [2]) none ()

/-- A direct message to the destination `[3, 0, ..]`, numbered for its id. -/
def note (number : UInt8) (method : DeliveryMethod) : Message :=
  ⟨padded 16 [3], padded 16 [2], padded 64 [], 0, [], [], [], none, padded 32 [number], .valid, method, none⟩

end Leviculum.Router
