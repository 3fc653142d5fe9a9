import Leviculum.Router.Calls

/-! What the router can do to its state, said once: every step of a call is one of the effects below, and
whatever the effects keep, every call keeps. -/

namespace Leviculum.Router

open Propagation (DestinationHash TransientId)
open Relation (ReflTransGen)
open Fallible (MovesFrom exec)

/-- An event that hands no message over, ends no message and asks for nothing. -/
def RouterEvent.quiet : RouterEvent → Bool
  | .messageState _ state => !state.terminal
  | .messageReceived _ => false
  | .persistenceRequested => false
  | _ => true

def LxmfNodeEvent.ends : LxmfNodeEvent → Bool
  | .delivered _ | .deliveryFailed _ (.resource .rejectedByRemote) | .deliveryFailed _ (.resource .cancelled) => true
  | _ => false

def PropagationTransportEvent.ends : PropagationTransportEvent → Bool
  | .uploadCompleted _ | .uploadRejected _ _ => true
  | _ => false

def Action.onBehalfOf : Action → Option MessageId
  | .pathRequest _ onBehalf => onBehalf
  | .linkRequest _ onBehalf => some onBehalf
  | .delivery id => some id
  | _ => none

def OutboundEntry.durable (entry : OutboundEntry) :
    Message × MessageState × Nat × Progress × Option OutboundPropagation :=
  (entry.message, entry.state, entry.attempts, entry.progress, entry.propagation)

/-- A build carries what its entry held when it was captured. -/
def PendingResourceBuild.MadeFrom (build : PendingResourceBuild) (entry : OutboundEntry) : Prop :=
  match build.kind with
  | .delivery _ message => message = entry.message
  | .upload _ upload => ∃ prepared, entry.propagation = some prepared ∧ upload.timestamp = prepared.timebase ∧
      upload.unstampedLxmf = prepared.unstampedLxmf ∧ some upload.propagationStamp = prepared.stamp

variable {Env : Type}

/-- The queue, the records and the checkpointed policies stay; only quiet events come out. -/
structure Quiet (w w' : World Env) : Prop where
  router : w'.router = { w.router with
    buildsOutstanding := w'.router.buildsOutstanding
    preemptivePathRequests := w'.router.preemptivePathRequests
    timebaseAnchor := w'.router.timebaseAnchor
    propagation := w'.router.propagation
    buildEpochs := w'.router.buildEpochs
    persistenceDirty := w'.router.persistenceDirty }
  dirty : w.router.persistenceDirty = true → w'.router.persistenceDirty = true
  epochs : w.router.buildEpochs.minted ≤ w'.router.buildEpochs.minted
  events : ∃ events, w'.out.events = w.out.events ++ events ∧ ∀ event ∈ events, event.quiet = true
  actions : ∃ actions, w'.out.actions = w.out.actions ++ actions

namespace Quiet

variable {w w' w'' : World Env} (ops : NodeOps Env)

theorem refl (w : World Env) : Quiet w w :=
  ⟨rfl, id, Nat.le_refl _, ⟨[], (List.append_nil _).symm, nofun⟩, ⟨[], (List.append_nil _).symm⟩⟩

theorem trans (first : Quiet w w') (second : Quiet w' w'') : Quiet w w'' where
  router := by rw [second.router, first.router]
  dirty held := second.dirty (first.dirty held)
  epochs := first.epochs.trans second.epochs
  events := by
    obtain ⟨early, before, quiet⟩ := first.events
    obtain ⟨late, after, quiet'⟩ := second.events
    refine ⟨early ++ late, by rw [after, before, List.append_assoc], ?_⟩
    intro event member
    exact (List.mem_append.mp member).elim (quiet event) (quiet' event)
  actions := by
    obtain ⟨early, before⟩ := first.actions
    obtain ⟨late, after⟩ := second.actions
    exact ⟨early ++ late, by rw [after, before, List.append_assoc]⟩

theorem emit (w : World Env) {event : RouterEvent} (quiet : event.quiet = true) : Quiet w (w.emit event) :=
  ⟨rfl, id, Nat.le_refl _, ⟨[event], rfl, fun _ member => List.mem_singleton.mp member ▸ quiet⟩,
    ⟨[], (List.append_nil _).symm⟩⟩

theorem act (w : World Env) (action : Action) : Quiet w (w.act action) :=
  ⟨rfl, id, Nat.le_refl _, ⟨[], (List.append_nil _).symm, nofun⟩, ⟨[action], rfl⟩⟩

theorem env (w : World Env) (env : Env) : Quiet w { w with env } :=
  ⟨rfl, id, Nat.le_refl _, ⟨[], (List.append_nil _).symm, nofun⟩, ⟨[], (List.append_nil _).symm⟩⟩

theorem markDirty (w : World Env) : Quiet w w.markDirty :=
  ⟨rfl, fun _ => rfl, Nat.le_refl _, ⟨[], (List.append_nil _).symm, nofun⟩, ⟨[], (List.append_nil _).symm⟩⟩

theorem markDirtyIf (w : World Env) (changed : Bool) : Quiet w (w.markDirtyIf changed) :=
  ⟨rfl, fun held => by simp [World.markDirtyIf, held], Nat.le_refl _, ⟨[], (List.append_nil _).symm, nofun⟩,
    ⟨[], (List.append_nil _).symm⟩⟩

theorem setRuntime (w : World Env) (write : PropagationRuntime → PropagationRuntime) : Quiet w (w.setRuntime write) :=
  ⟨rfl, id, Nat.le_refl _, ⟨[], (List.append_nil _).symm, nofun⟩, ⟨[], (List.append_nil _).symm⟩⟩

theorem setPropagation (w : World Env) (propagation : Option PropagationRuntime) :
    Quiet w { w with router.propagation := propagation } :=
  ⟨rfl, id, Nat.le_refl _, ⟨[], (List.append_nil _).symm, nofun⟩, ⟨[], (List.append_nil _).symm⟩⟩

theorem volatile (w : World Env) (outstanding preemptive : Finset MessageId) (anchor : Option (Rat × Nat)) :
    Quiet w { w with
      router.buildsOutstanding := outstanding
      router.preemptivePathRequests := preemptive
      router.timebaseAnchor := anchor } :=
  ⟨rfl, id, Nat.le_refl _, ⟨[], (List.append_nil _).symm, nofun⟩, ⟨[], (List.append_nil _).symm⟩⟩

theorem mintEpochFor (w : World Env) (entry : OutboundEntry) (state : MessageState) :
    Quiet w (w.mintEpochFor entry state) :=
  ⟨rfl, id, (Revised.setState entry state w.router.buildEpochs).forward,
    ⟨[], (List.append_nil _).symm, nofun⟩, ⟨[], (List.append_nil _).symm⟩⟩

theorem emitSyncStatus (w : World Env) : Quiet w w.emitSyncStatus := by
  unfold World.emitSyncStatus
  split
  · exact refl w
  · exact emit w rfl

theorem setClientState (w : World Env) (state : PropagationClientState) : Quiet w (w.setClientState state) := by
  have cleared : Quiet w (if syncFailed state then
      w.setClient (fun client => { client with progress := 0, pathDeadlineMs := none }) else w) := by
    split
    · exact setRuntime w _
    · exact refl w
  unfold World.setClientState
  dsimp only
  revert cleared
  generalize (if syncFailed state then
    w.setClient (fun client => { client with progress := 0, pathDeadlineMs := none }) else w) = world
  intro cleared
  split
  · exact cleared
  · exact cleared.trans ((setRuntime world _).trans (emitSyncStatus _))

theorem complete (w : World Env) (received duplicates : Nat) : Quiet w (w.complete received duplicates) :=
  ((setRuntime w _).trans (setClientState _ _)).trans (emit _ rfl)

theorem requestPath (w : World Env) (destination : DestinationHash) (onBehalf : Option MessageId) :
    Quiet w (w.requestPath ops destination onBehalf) := (env w _).trans (act _ _)

theorem closeLink (w : World Env) (link : LinkId) : Quiet w (w.closeLink ops link) := (env w _).trans (act _ _)

theorem cancelOutboundLink (w : World Env) : Quiet w (w.cancelOutboundLink ops) := by
  unfold World.cancelOutboundLink
  split
  · exact refl w
  · exact (env w _).trans (act _ _)

theorem handleRemoteError (w : World Env) (error : PeerError) : Quiet w (w.handleRemoteError ops error) :=
  (setClientState w _).trans (cancelOutboundLink ops _)

theorem linkDown (w : World Env) (destination : DestinationHash) : Quiet w (w.linkDown destination) := by
  unfold World.linkDown
  split
  · exact refl w
  · split
    · exact (setRuntime w _).trans (emitSyncStatus _)
    · exact setClientState w _
    · exact setClientState w _
    · exact setClientState w _
    · exact setClientState w _
    · exact setClientState w _
    · exact setClientState w _
    · exact refl w

theorem requestProgress (w : World Env) (progress : Rat) (size : Nat) : Quiet w (w.requestProgress progress size) := by
  unfold World.requestProgress
  dsimp only
  split
  · split
    · exact (setRuntime w _).trans (emitSyncStatus _)
    · exact setRuntime w _
  · exact (setRuntime w _).trans (setClientState _ _)

theorem pathFound (w : World Env) (event : NodeEvent) : Quiet w (w.pathFound event) := by
  unfold World.pathFound
  split
  · split
    · exact (setRuntime w _).trans (setClientState _ _)
    · exact refl w
  · exact refl w

theorem refreshOrphanedNodes (w : World Env) : Quiet w (w.refreshOrphanedNodes ops) := by
  have loop : ∀ (nodes : List KnownPropagationNode) (w : World Env),
      Quiet w (nodes.foldl (fun world known =>
        let world := world.requestPath ops known.destination none
        { world with env := ops.forgetKnownNode known.destination world.env }) w) := by
    intro nodes
    induction nodes with
    | nil => exact refl
    | cons known rest ih => exact fun w => ((requestPath ops w _ _).trans (env _ _)).trans (ih _)
  exact loop _ w

theorem abortBelow (w : World Env) (id : MessageId) (method : DeliveryMethod) :
    Quiet w (w.abortBelow ops id method) := by
  unfold World.abortBelow
  split
  · split
    · exact refl w
    · split
      · cases w.activeLink ops with
        | none => exact refl w
        | some link => exact closeLink ops w link
      · exact refl w
  · exact (env w _).trans (act _ _)

end Quiet

/-- What the effects of a call may include. -/
structure Leave where
  /-- An attempt charged with nothing handed to the node for it. -/
  slip : Prop
  /-- The end of a queued message. -/
  ends : Prop
  /-- Giving a message up. -/
  fails : Prop

def Leave.full : Leave := ⟨True, True, True⟩

inductive Effect (prims : Primitives) (may : Leave) : World Env → World Env → Prop
  | quiet {w w' : World Env} (same : Quiet w w') : Effect prims may w w'
  /-- A queued entry is rewritten. -/
  | write {w w' : World Env} {id : MessageId} {old new : OutboundEntry}
      (held : w.router.outbound.get? id = some old)
      (revised : Revised old new w.router.buildEpochs w'.router.buildEpochs)
      (message : new.message = old.message)
      (attempts : new.attempts = old.attempts ∨ old.message.method = .propagated)
      (router : w'.router = { w.router with
        outbound := w.router.outbound.insert id new
        buildEpochs := w'.router.buildEpochs
        persistenceDirty := w'.router.persistenceDirty })
      (dirty : w.router.persistenceDirty = true → w'.router.persistenceDirty = true)
      (saved : w'.router.persistenceDirty = true ∨ new.durable = old.durable)
      (out : w'.out = w.out) : Effect prims may w w'
  /-- An attempt is charged for what was handed to the node. -/
  | charge {w w' : World Env} {id : MessageId} {old new : OutboundEntry} {action : Action}
      (held : w.router.outbound.get? id = some old)
      (revised : Revised old new w.router.buildEpochs w'.router.buildEpochs)
      (message : new.message = old.message)
      (attempts : new.attempts = old.charge.attempts)
      (router : w'.router = { w.router with
        outbound := w.router.outbound.insert id new
        buildEpochs := w'.router.buildEpochs
        persistenceDirty := true })
      (behalf : action.onBehalfOf = some id)
      (out : w'.out = { w.out with actions := w.out.actions ++ [action] }) : Effect prims may w w'
  /-- An attempt is charged for nothing. -/
  | unpaid {w w' : World Env} {id : MessageId} {old new : OutboundEntry} (allowed : may.slip)
      (held : w.router.outbound.get? id = some old)
      (revised : Revised old new w.router.buildEpochs w'.router.buildEpochs)
      (message : new.message = old.message)
      (attempts : new.attempts = old.charge.attempts)
      (router : w'.router = { w.router with
        outbound := w.router.outbound.insert id new
        buildEpochs := w'.router.buildEpochs
        persistenceDirty := true })
      (out : w'.out = w.out) : Effect prims may w w'
  /-- Waiting entries get another time. -/
  | reschedule {w w' : World Env} (at' : OutboundEntry → Nat)
      (router : w'.router = { w.router with
        outbound := w.router.outbound.mapValues (fun _ entry => { entry with nextAttemptMs := at' entry })
        nextJobMs := w'.router.nextJobMs
        persistenceDirty := w'.router.persistenceDirty })
      (dirty : w.router.persistenceDirty = true → w'.router.persistenceDirty = true)
      (out : w'.out = w.out) : Effect prims may w w'
  /-- A queued message ends. -/
  | conclude {w w' : World Env} {id : MessageId} {old : OutboundEntry} {state : MessageState} (allowed : may.ends)
      (held : w.router.outbound.get? id = some old) (terminal : state.terminal = true)
      (gives : state = .failed → may.fails)
      (router : w'.router = { w.router with
        outbound := w.router.outbound.erase id
        buildsOutstanding := w'.router.buildsOutstanding
        persistenceDirty := true })
      (out : w'.out = { w.out with events := w.out.events ++ [.messageState id state] }) : Effect prims may w w'
  /-- A message came in over a link or in a packet. -/
  | inbound {w : World Env} (message : Message) (time : Rat) :
      Effect prims may w (w.handleInboundMessage prims message time)
  /-- A message came in from a propagation node. -/
  | fetch {w : World Env} (bytes : Bytes) (message : Message) (time : Rat) :
      Effect prims may w (((w.insertProcessedId (prims.fullHash bytes) time).insertDeliveredId (prims.fullHash bytes)
        time).handleInboundMessage prims message time)
  /-- A message fetched from a propagation node is for somebody else. -/
  | foreign {w : World Env} (bytes : Bytes) (time : Rat) :
      Effect prims may w (w.insertProcessedId (prims.fullHash bytes) time)
  /-- A ticket we issued reached its peer. -/
  | ticketDelivered {w : World Env} (destination : DestinationHash) (time : Rat) :
      Effect prims may w ({ w with router.tickets := w.router.tickets.markDelivered destination time } : World Env).markDirty
  | stampCost {w : World Env} (destination : DestinationHash) (entry : StampCostEntry) :
      Effect prims may w (w.insertStampCost destination entry)
  | rebase {w : World Env} (step time : Rat) : Effect prims may w (w.rebaseAgeing step time)
  | clean {w : World Env} (time : Rat) : Effect prims may w (w.clean time)
  /-- A build is captured from a queued entry, which goes back to wait. -/
  | capture {w w' : World Env} {id : MessageId} {old new : OutboundEntry} {build : PendingResourceBuild}
      (held : w.router.outbound.get? id = some old)
      (captured : build.messageId = id ∧ build.restoreGeneration = w.router.restoreGeneration ∧
        build.buildEpoch = old.buildEpoch ∧ build.MadeFrom old)
      (revised : Revised old new w.router.buildEpochs w'.router.buildEpochs)
      (message : new.message = old.message)
      (attempts : new.attempts = old.attempts)
      (waits : new.state = .outbound)
      (router : w'.router = { w.router with
        outbound := w.router.outbound.insert id new
        pendingBuilds := w.router.pendingBuilds ++ [build]
        buildsOutstanding := w'.router.buildsOutstanding
        buildEpochs := w'.router.buildEpochs
        persistenceDirty := true })
      (out : w'.out = w.out) : Effect prims may w w'

abbrev Effects (prims : Primitives) (may : Leave) : World Env → World Env → Prop := ReflTransGen (Effect prims may)

namespace Effects

variable {prims : Primitives} {may : Leave} {w w' : World Env}

theorem quiet (same : Quiet w w') : Effects prims may w w' := .single (.quiet same)

theorem revise (id : MessageId) (write : OutboundEntry → BuildEpochs → OutboundEntry × BuildEpochs) (changed : Bool)
    (revised : ∀ old epochs, Revised old (write old epochs).1 epochs (write old epochs).2)
    (message : ∀ old epochs, (write old epochs).1.message = old.message)
    (attempts : ∀ old epochs, w.router.outbound.get? id = some old →
      (write old epochs).1.attempts = old.attempts ∨ old.message.method = .propagated)
    (saved : ∀ old epochs, w.router.outbound.get? id = some old →
      (w.router.persistenceDirty || changed) = true ∨ (write old epochs).1.durable = old.durable) :
    Effects prims may w ((w.revise id write).markDirtyIf changed) := by
  unfold World.revise
  split
  next => exact quiet (Quiet.markDirtyIf w changed)
  next old held =>
    refine .single (.write held (revised old w.router.buildEpochs) (message old _) (attempts old _ held) rfl ?_ (saved old _ held) rfl)
    intro dirty
    simp [World.markDirtyIf, dirty]

end Effects

end Leviculum.Router
