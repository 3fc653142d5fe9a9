import Leviculum.Router.MovesDue
import Leviculum.Router.Run
import Leviculum.Router.Spares
import Leviculum.Router.Steady

/-! What the public calls can do, saving and restoring aside: the effects, and the deeds only one call
can do. -/

namespace Leviculum.Router

open Propagation (DestinationHash TransientId)
open Relation (ReflTransGen)
open Fallible (MovesFrom exec)

variable {Env : Type} {prims : Primitives} {may : Leave}

/-- Whether a parked message is the one a validation was asked for. -/
def InboundStampRequest.answers (request : InboundStampRequest) (parked : Message × Rat) : Bool :=
  parked.1.messageId = request.messageId ∧ parked.1.stamp = some request.stamp.val

inductive Deed (prims : Primitives) (may : Leave) : World Env → World Env → Prop
  | effect {w w' : World Env} (effect : Effect prims may w w') : Deed prims may w w'
  /-- A queued message gets its delivery stamp, which voids its envelope. -/
  | stamped {w w' : World Env} {id : MessageId} {old new : OutboundEntry}
      (held : w.router.outbound.get? id = some old)
      (revised : Revised old new w.router.buildEpochs w'.router.buildEpochs)
      (attempts : new.attempts = old.attempts)
      (envelope : new.propagation = none ∨ new.propagation = old.propagation)
      (router : w'.router = { w.router with
        outbound := w.router.outbound.insert id new
        buildEpochs := w'.router.buildEpochs
        persistenceDirty := true })
      (out : w'.out = w.out) : Deed prims may w w'
  /-- The captured builds are handed out. -/
  | taken {w : World Env} :
      Deed prims may w { w with router.buildsOutstanding := ∅, router.pendingBuilds := [] }
  /-- A ticket is issued. -/
  | issued {w : World Env} (destination : DestinationHash) (time : Rat) (secret : FixedBytes 16)
      (room : (w.router.tickets.issue destination time secret).2.entryCount ≤ w.router.config.maxTickets) :
      Deed prims may w (({ w with
        router.tickets := (w.router.tickets.issue destination time secret).2 } : World Env).markDirtyIf
          ((w.router.tickets.issue destination time secret).2.entryCount ≠ w.router.tickets.entryCount))
  /-- The ignored sources change. -/
  | policy {w : World Env} (ignored : Finset DestinationHash)
      (room : ignored.card ≤ w.router.config.maxPolicyEntries ∨ ignored ⊆ w.router.ignored) :
      Deed prims may w ({ w with router.ignored := ignored } : World Env).markDirty
  /-- The host found the stamp of a parked message valid. -/
  | approved {w : World Env} {request : InboundStampRequest} {parked : Message × Rat}
      (found : w.router.pendingInboundStamps.find? request.answers = some parked) :
      Deed prims may w (({ w with
        router.pendingInboundStamps := w.router.pendingInboundStamps.eraseP request.answers } : World Env).acceptInbound
          parked.1 parked.2)
  /-- The host found the stamp of a parked message invalid. -/
  | refused {w : World Env} {request : InboundStampRequest} {parked : Message × Rat}
      (found : w.router.pendingInboundStamps.find? request.answers = some parked) :
      Deed prims may w (({ w with
        router.pendingInboundStamps := w.router.pendingInboundStamps.eraseP request.answers } : World Env).emit
          (.invalidStamp request.messageId))
  /-- A message came in on paper. -/
  | paper {w : World Env} (bytes : Bytes) (message : Message) (time : Rat) :
      Deed prims may w (((w.insertProcessedId (prims.fullHash bytes) time).insertDeliveredId (prims.fullHash bytes)
        time).acceptInbound message time)

abbrev Deeds (prims : Primitives) (may : Leave) : World Env → World Env → Prop := ReflTransGen (Deed prims may)

theorem Effects.deeds {w w' : World Env} (effects : Effects prims may w w') : Deeds prims may w w' :=
  ReflTransGen.mono (fun _ _ => Deed.effect) _ _ effects

/-- The deeds of a fallible step from a state. -/
abbrev Does (prims : Primitives) (may : Leave) {Value : Type} (proc : Proc Env Value) (w : World Env) : Prop :=
  MovesFrom (Deed prims may) proc w

theorem Moves.does {Value : Type} {proc : Proc Env Value} {w : World Env} (moves : Moves prims may proc w) :
    Does prims may proc w := moves.mono (fun _ _ => Deed.effect)

theorem Does.replying {Value : Type} {proc : Proc Env Value} {w : World Env} (does : Does prims may proc w)
    (reply : Value → Reply) : Does prims may (proc >>= fun value => pure (reply value)) w :=
  MovesFrom.andThen does (fun _ _ _ => MovesFrom.ofPure _)

section Tick

variable (ops : NodeOps Env)

/-- The world in which the propagation part of a tick runs. -/
def World.anchored (w : World Env) : World Env := w.anchorWallClock (ops.emissionSecs w.env) (w.nowMs ops)

/-- The propagation part of a tick, if there is a mailbox client. -/
def propagationPart (prims : Primitives) (w : World Env) : Proc Env Unit :=
  if w.router.propagation.isNone then pure () else propagationTick prims ops (ops.emissionSecs w.env)

/-- The last part of a tick: the job, when it is due. -/
def World.dueJob (prims : Primitives) (nowMs : Nat) (nowUnix : Rat) (w : World Env) : World Env :=
  if nowMs < w.router.nextJobMs then w else w.runJob prims ops nowMs nowUnix

theorem exec_tick (w : World Env) :
    exec (tick prims ops) w = exec (propagationPart ops prims w >>= fun _ =>
      modify (World.dueJob ops prims (w.nowMs ops) (ops.emissionSecs w.env))) (w.anchored ops) := by
  unfold tick propagationPart
  rw [Fallible.exec_get_bind]
  dsimp only
  rw [Fallible.exec_modify_bind]
  split <;> rfl

/-- In the job of a tick, if it comes to that, the node refuses none of the due messages. -/
def TickServed (prims : Primitives) (w : World Env) : Prop :=
  ∀ middle, exec (propagationPart ops prims w) (w.anchored ops) = (.ok (), middle) →
    middle.router.nextJobMs ≤ w.nowMs ops →
      AllServed ops prims (w.nowMs ops) (ops.emissionSecs w.env) (World.dueMessages middle.router (w.nowMs ops))
        (middle.started (w.nowMs ops))

end Tick

namespace Moves

variable (ops : NodeOps Env) {w : World Env}

theorem propagationPart (ends : may.ends ∧ may.fails) :
    Moves prims may (Router.propagationPart ops prims w) (w.anchored ops) := by
  unfold Router.propagationPart
  split
  · exact MovesFrom.ofPure ()
  · exact propagationTick ops ends _

theorem tick (ends : may.ends ∧ may.fails) (served : may.slip ∨ TickServed ops prims w) :
    Moves prims may (Router.tick prims ops) w := by
  have anchored : Effects prims may w (w.anchored ops) := Effects.anchorWallClock _ _
  have rest : Moves prims may (Router.propagationPart ops prims w >>= fun _ =>
      modify (World.dueJob ops prims (w.nowMs ops) (ops.emissionSecs w.env))) (w.anchored ops) := by
    refine MovesFrom.andThen (propagationPart ops ends) (fun _ middle ok => MovesFrom.ofModify ?_)
    unfold World.dueJob
    split
    · exact .refl
    next job => exact Effects.runJob ops ends _ (served.imp_right (fun served => served middle ok (Nat.le_of_not_lt job)))
  have path : Effects prims may w (exec (Router.tick prims ops) w).2 := by
    rw [exec_tick]
    exact anchored.trans rest
  exact path

theorem relinkAfterClose (event : NodeEvent) : Quiet w (w.relinkAfterClose prims ops event) := by
  unfold World.relinkAfterClose
  split
  · split
    · exact Quiet.requestPath ops w _ _
    · exact Quiet.refl w
  · exact Quiet.refl w

theorem peerAnnounced (event : NodeEvent) (nowUnix : Rat) : Effects prims may w (w.peerAnnounced event nowUnix) := by
  unfold World.peerAnnounced
  split
  · refine ReflTransGen.trans ?_ (Effects.quiet (Quiet.emit _ rfl))
    split
    · exact .single (.stampCost _ _)
    · exact .refl
  · exact .refl

theorem handleEvent {event : NodeEvent} (ends : may.ends ∨ event.closing = false) :
    Moves prims may (Router.handleEvent prims ops event) w := by
  refine MovesFrom.afterGet ?_
  refine MovesFrom.andThen (attempt _ _) (fun events after ok => ?_)
  have quietly : may.ends ∨ ∀ event ∈ events, event.ends = false :=
    ends.imp_right (fun other => adapterHandleEvent_endless other (attempt_ok ok))
  have told : Effects prims may after (((after.handleNodeEvents prims events (after.nowMs ops)
      (ops.emissionSecs w.env)).relinkAfterClose prims ops event).peerAnnounced event (ops.emissionSecs w.env)) :=
    ((Effects.handleNodeEvents quietly _ _).trans (Effects.quiet (relinkAfterClose ops event))).trans (peerAnnounced event _)
  refine MovesFrom.afterModify told ?_
  split
  · exact MovesFrom.ofPure ()
  · exact propagationHandleEvent ops event (ends.imp_right (fun other _ => transportHandleEvent_endless other)) _

theorem cancel (ends : may.ends) (id : MessageId) : Moves prims may (Router.cancel ops id) w := by
  refine MovesFrom.afterGet ?_
  split
  next => exact MovesFrom.afterModify (Effects.quiet (Effects.dropMark id)) (MovesFrom.ofThrow _)
  next entry held =>
    refine MovesFrom.ofModify ?_
    have ended : Effects prims may w ((w.forgetPathRequest id).conclude id .cancelled) :=
      (Effects.quiet (Effects.forgetPathRequest id)).trans (Effects.conclude ends held rfl nofun)
    exact ended.trans (Effects.quiet (Quiet.abortBelow ops _ id _))

theorem hurry_markDirty (id : MessageId) (nowMs : Nat) (w : World Env) : w.markDirty.hurry id nowMs = w.hurry id nowMs := by
  unfold World.hurry World.postpone
  rw [Effects.revise_markDirty]
  rfl

theorem hurry (id : MessageId) (nowMs : Nat) : Effects prims may w (w.hurry id nowMs) := by
  have later : Effects prims may w (w.postpone id nowMs) := Effects.postpone id nowMs
  exact later.trans ((Effects.setJob _).trans (Effects.quiet (Quiet.markDirty _)))

theorem setOutboundPropagationStamp (id : MessageId) (stamp : FixedBytes 32) (nowMs : Nat) :
    Moves prims may (Router.setOutboundPropagationStamp id stamp nowMs) w := by
  refine MovesFrom.afterGet ?_
  split
  · exact MovesFrom.ofThrow _
  · split
    · exact MovesFrom.ofThrow _
    · split
      · exact MovesFrom.ofThrow _
      · refine MovesFrom.ofModify ?_
        rw [← hurry_markDirty]
        have written : Effects prims may w
            (w.revise id (fun entry epochs => entry.setPropagationStamp stamp epochs)).markDirty := by
          refine Effects.revise_dirty id _ (fun old epochs => Revised.setPropagationStamp old stamp epochs) ?_ ?_
          · intro old epochs
            unfold OutboundEntry.setPropagationStamp
            split
            · rfl
            · split <;> rfl
          · intro old epochs
            unfold OutboundEntry.setPropagationStamp
            split
            · rfl
            · split <;> rfl
        exact written.trans (hurry id nowMs)

theorem setOutboundPropagationStampResult (request : PropagationStampRequest) (stamp : FixedBytes 32) (nowMs : Nat) :
    Moves prims may (Router.setOutboundPropagationStampResult request stamp nowMs) w := by
  refine MovesFrom.afterGet ?_
  dsimp only
  split
  · exact setOutboundPropagationStamp _ stamp nowMs
  · exact MovesFrom.ofThrow _

theorem deliverPropagatedLocal (unstamped : Bytes) :
    Moves prims may (Router.deliverPropagatedLocal prims ops unstamped) w := by
  refine MovesFrom.afterGet ?_
  split
  · exact MovesFrom.ofThrow _
  · split
    · exact MovesFrom.ofThrow _
    · refine MovesFrom.andThen (Effects.deliverUnstamped ops unstamped _) (fun result _ _ => ?_)
      split
      · exact MovesFrom.ofPure ()
      · exact MovesFrom.ofThrow _

theorem setOutboundPropagationNode (destination : Option DestinationHash) :
    Moves prims may (Router.setOutboundPropagationNode ops destination) w := by
  refine MovesFrom.afterGet ?_
  split
  · exact MovesFrom.ofThrow _
  · split
    · exact MovesFrom.ofPure ()
    · refine MovesFrom.afterModify
        (Effects.quiet ((Quiet.cancelOutboundLink ops w).trans (Quiet.setRuntime _ _))) ?_
      generalize (w.cancelOutboundLink ops).setRuntime _ = moved
      refine MovesFrom.ofModify ?_
      dsimp only
      refine ReflTransGen.trans ?_ (Effects.quiet (Quiet.emit _ rfl))
      cases changed : moved.router.outbound.values.any (retargetChanges (moved.nowMs ops)) with
      | true =>
        rw [← World.markDirty_eq]
        exact Effects.retargetUploads _
      | false =>
        rw [Effects.retargetUploads_eq _ changed]
        exact Effects.quiet (Quiet.markDirtyIf _ false)

theorem selectOutboundPropagationNode (preferred : Option DestinationHash) :
    Moves prims may (Router.selectOutboundPropagationNode ops preferred) w := by
  refine MovesFrom.afterGet ?_
  split
  · exact MovesFrom.ofThrow _
  · split
    · exact MovesFrom.ofThrow _
    · exact setOutboundPropagationNode ops _

theorem requestMessagesFromPropagationNode (maxMessages : Option Nat) :
    Moves prims may (Router.requestMessagesFromPropagationNode ops maxMessages) w := by
  refine MovesFrom.afterGet ?_
  split
  · exact MovesFrom.ofThrow _
  · split
    · exact MovesFrom.ofThrow _
    · dsimp only
      refine MovesFrom.branch (Effects.quiet (Quiet.cancelOutboundLink ops w)) (fun after => ?_)
      refine MovesFrom.afterModify (Effects.quiet (Quiet.setRuntime after _)) ?_
      refine MovesFrom.afterGet ?_
      split
      · exact beginListRequest ops _
      · split
        · refine MovesFrom.afterModify (Effects.quiet (Quiet.setClientState _ _)) ?_
          exact MovesFrom.andThen (attempt _ _) (fun _ _ _ => ofQuiet (fun w => Quiet.act w _))
        · refine MovesFrom.afterModify (Effects.quiet ((Quiet.setRuntime _ _).trans (Quiet.setClientState _ _))) ?_
          exact MovesFrom.andThen (attempt _ _) (fun _ _ _ => ofQuiet (fun w => Quiet.act w _))

theorem cancelPropagationNodeRequests : Moves prims may (Router.cancelPropagationNodeRequests ops) w := by
  refine MovesFrom.afterGet ?_
  split
  · exact MovesFrom.ofThrow _
  · exact ofQuiet (fun w => ((Quiet.cancelOutboundLink ops w).trans (Quiet.setRuntime _ _)).trans (Quiet.emit _ rfl))

theorem setPropagationPathTimeoutMs (pathTimeoutMs : Nat) :
    Moves prims may (Router.setPropagationPathTimeoutMs pathTimeoutMs) w := by
  refine MovesFrom.afterGet ?_
  split
  · exact MovesFrom.ofThrow _
  · exact ofQuiet (fun w => Quiet.setRuntime w _)

theorem committedDelivery (id : MessageId) (message : Message) (entry : OutboundEntry) (nowMs : Nat) (nowUnix : Rat)
    (held : w.router.outbound.get? id = some entry) :
    Effects prims may w ((w.act (.delivery id)).committedDelivery prims id message entry nowMs nowUnix) := by
  unfold World.committedDelivery
  dsimp only
  have reported : Quiet w (if entry.state = .sending then w else w.emit (.messageState id .sending)) := by
    split
    · exact Quiet.refl w
    · exact Quiet.emit w rfl
  have same : (if entry.state = .sending then w else w.emit (.messageState id .sending)).router = w.router := by
    split <;> rfl
  have acted : (if entry.state = .sending then w.act (.delivery id)
      else (w.act (.delivery id)).emit (.messageState id .sending)) =
      (if entry.state = .sending then w else w.emit (.messageState id .sending)).act (.delivery id) := by
    split <;> rfl
  rw [acted]
  revert reported same
  generalize (if entry.state = .sending then w else w.emit (.messageState id .sending)) = world
  intro reported same
  rw [← same] at held
  have still : (world.act (.delivery id)).router.outbound.get? id = some entry := held
  have submitted : ∀ w : World Env, w.handleNodeEvents prims [.submitted message.messageId .direct] nowMs nowUnix = w :=
    fun _ => rfl
  rw [submitted]
  refine (Effects.quiet reported).trans ?_
  unfold World.revise
  rw [still]
  dsimp only
  by_cases packet : representation prims entry.message = .ok .opportunisticPacket
  · rw [if_pos packet]
    have behalf : (Action.delivery id).onBehalfOf = some id := rfl
    have revised := (Revised.bookkeeping entry entry.charge.attempts entry.nextAttemptMs entry.progress
      world.router.buildEpochs).trans (Revised.setState entry.charge .sending _)
    exact .single (.charge held revised (Effects.setState_message entry.charge .sending world.router.buildEpochs)
      (Effects.setState_attempts entry.charge .sending world.router.buildEpochs) rfl behalf rfl)
  · rw [if_neg packet]
    refine ReflTransGen.trans (Effects.quiet (Quiet.act world (.delivery id))) (.single (.write still
      (Revised.setState entry .sending _) (Effects.setState_message entry .sending world.router.buildEpochs)
      (.inl (Effects.setState_attempts entry .sending world.router.buildEpochs)) rfl (fun _ => rfl) (.inl rfl) rfl))

theorem commitResourceBuild (built : PendingResourceBuild) :
    Moves prims may (Router.commitResourceBuild prims ops built) w := by
  refine MovesFrom.afterGet ?_
  split
  · exact MovesFrom.ofThrow _
  · refine MovesFrom.afterModify (Effects.quiet (Effects.dropMark built.messageId)) ?_
    split
    next => exact MovesFrom.ofThrow _
    next entry held =>
      split
      · exact MovesFrom.ofThrow _
      · split
        next link message _ =>
          refine MovesFrom.andThen (attempt _ _) (fun _ after ok => ?_)
          have still : after.router.outbound.get? built.messageId = some entry := by
            rw [exec_attempt] at ok
            obtain ⟨-, rfl⟩ := Prod.mk.inj ok
            exact held
          exact MovesFrom.ofModify (committedDelivery _ message entry _ _ still)
        next link upload _ =>
          split
          · exact MovesFrom.ofThrow _
          · refine MovesFrom.andThen (attempt _ _) (fun _ after _ => ?_)
            exact MovesFrom.ofModify ((Effects.quiet (Quiet.act after _)).trans (Effects.uploadSubmitted ops _))

end Moves

namespace Does

variable (ops : NodeOps Env) {w : World Env}

theorem ofDeed {write : World Env → World Env} (deed : Deed prims may w (write w)) :
    Does prims may (modify write) w := MovesFrom.ofModify (.single deed)

theorem issueTicketField (destination : DestinationHash) (secret : FixedBytes 16) :
    Does prims may (Router.issueTicketField prims ops destination secret) w := by
  refine MovesFrom.afterGet ?_
  split
  · exact MovesFrom.ofThrow _
  · refine MovesFrom.ofIf (fun _ => MovesFrom.ofThrow _) (fun room => ?_)
    have fits : (w.router.tickets.issue destination (ops.emissionSecs w.env) secret).2.entryCount ≤
        w.router.config.maxTickets := (Nat.le_add_right _ _).trans (Nat.le_of_not_lt room)
    exact MovesFrom.andThen (ofDeed (.issued destination (ops.emissionSecs w.env) secret fits))
      (fun _ _ _ => MovesFrom.ofPure _)

theorem ignore (source : DestinationHash) : Does prims may (modify (Router.ignore source)) w := by
  refine MovesFrom.ofModify ?_
  unfold Router.ignore
  split
  next room =>
    refine .single (.policy _ (.inl ?_))
    rw [Finset.card_insert_of_notMem room.2]
    exact room.1.resolve_left room.2
  next => exact .refl

theorem unignore (source : DestinationHash) : Does prims may (modify (Router.unignore source)) w := by
  refine MovesFrom.ofModify ?_
  unfold Router.unignore
  split
  · exact .single (.policy _ (.inr (Finset.erase_subset _ _)))
  · exact .refl

theorem replaceIgnored (ignored : Finset DestinationHash) : Does prims may (Router.replaceIgnored ignored) w := by
  refine MovesFrom.afterGet ?_
  split
  · exact MovesFrom.ofThrow _
  next room =>
    split
    · exact MovesFrom.ofPure ()
    · exact ofDeed (.policy ignored (.inl (Nat.le_of_not_lt room)))

theorem takeResourceBuilds : Does prims may (Router.takeResourceBuilds : Proc Env _) w := by
  refine MovesFrom.afterGet ?_
  exact MovesFrom.andThen (ofDeed .taken) (fun _ _ _ => MovesFrom.ofPure _)

theorem final_spec {entry : OutboundEntry} {stamp : Bytes} {epochs : BuildEpochs} {written : OutboundEntry × BuildEpochs}
    (ok : entry.setMessageStamp stamp epochs = .ok written) :
    let final := if entry.message.method = .propagated then written.1.setPropagation none written.2 else written
    Revised entry final.1 epochs final.2 ∧ final.1.attempts = entry.attempts ∧
      (final.1.propagation = none ∨ final.1.propagation = entry.propagation) := by
  have stamped : Revised entry written.1 epochs written.2 := Revised.setMessageStamp ok
  obtain ⟨attempts, envelope⟩ : written.1.attempts = entry.attempts ∧ written.1.propagation = entry.propagation := by
    unfold OutboundEntry.setMessageStamp at ok
    split at ok
    · cases ok
      exact ⟨rfl, rfl⟩
    · cases set : entry.message.setStamp stamp with
      | error _ => rw [set] at ok; cases ok
      | ok message => rw [set] at ok; cases ok; exact ⟨rfl, rfl⟩
  dsimp only
  split
  · refine ⟨stamped.trans (Revised.setPropagation written.1 none written.2), ?_, .inl ?_⟩
    · unfold OutboundEntry.setPropagation
      split
      · exact attempts
      · exact attempts
    · unfold OutboundEntry.setPropagation
      split
      next same => exact same
      next => rfl
  · exact ⟨stamped, attempts, .inr envelope⟩

theorem setOutboundStamp (id : MessageId) (stamp : Bytes) (nowMs : Nat) :
    Does prims may (Router.setOutboundStamp id stamp nowMs) w := by
  refine MovesFrom.afterGet ?_
  split
  next => exact MovesFrom.ofThrow _
  next entry held =>
    split
    next => exact MovesFrom.ofThrow _
    next written ok =>
      dsimp only
      obtain ⟨stamped, attempts, envelope⟩ := final_spec ok
      revert stamped attempts envelope
      generalize (if entry.message.method = .propagated then written.1.setPropagation none written.2
        else written) = final
      intro stamped attempts envelope
      refine MovesFrom.ofModify ?_
      rw [← Moves.hurry_markDirty]
      refine ReflTransGen.trans (.single ?_) (Effects.deeds (Moves.hurry id nowMs))
      unfold World.revise
      rw [held]
      exact .stamped held stamped attempts envelope rfl rfl

theorem setOutboundStampResult (request : DeliveryStampRequest) (stamp : Bytes) :
    Does prims may (Router.setOutboundStampResult ops request stamp) w := by
  refine MovesFrom.afterGet ?_
  dsimp only
  split
  · exact MovesFrom.ofThrow _
  · exact setOutboundStamp _ stamp _

theorem setInboundStampResult (request : InboundStampRequest) (valid : Bool) :
    Does prims may (Router.setInboundStampResult request valid) w := by
  refine MovesFrom.afterGet ?_
  dsimp only
  split
  · exact MovesFrom.ofThrow _
  · split
    next => exact MovesFrom.ofThrow _
    next parked found =>
      unfold MovesFrom
      rw [Fallible.exec_modify_bind]
      cases valid with
      | true => exact .single (.approved found)
      | false => exact .single (.refused found)

theorem ingestPaper (paper : Option Bytes) : Does prims may (Router.ingestPaper prims ops paper) w := by
  refine MovesFrom.afterGet ?_
  dsimp only
  split
  · exact MovesFrom.ofThrow _
  · split
    · exact MovesFrom.ofThrow _
    · split
      · exact Moves.does (Moves.ofQuiet (fun w => Quiet.emit w rfl))
      · split
        · exact MovesFrom.ofThrow _
        · exact ofDeed (.paper _ _ _)

theorem enablePropagationClient (identityHash : FixedBytes 16) (config : PropagationClientConfig) :
    Does prims may (Router.enablePropagationClient identityHash config) w := by
  refine MovesFrom.afterGet ?_
  split
  · exact MovesFrom.ofThrow _
  · exact Moves.does (Moves.ofQuiet (fun w => Quiet.setPropagation w _))

end Does

end Leviculum.Router
