import Leviculum.Router.Effect

/-! The effects of what happens inside the calls: node events, mailbox rounds, uploads and the outbound
job. -/

namespace Leviculum.Router

open Propagation (DestinationHash TransientId)
open Relation (ReflTransGen)
open Fallible (MovesFrom exec)

variable {Env : Type} {prims : Primitives} {may : Leave} (ops : NodeOps Env)

theorem World.markDirty_eq (w : World Env) : w.markDirty = w.markDirtyIf true := by
  simp [World.markDirty, World.markDirtyIf]

namespace Effects

variable {w w' : World Env}

theorem revise_dirty (id : MessageId) (write : OutboundEntry → BuildEpochs → OutboundEntry × BuildEpochs)
    (revised : ∀ old epochs, Revised old (write old epochs).1 epochs (write old epochs).2)
    (message : ∀ old epochs, (write old epochs).1.message = old.message)
    (attempts : ∀ old epochs, (write old epochs).1.attempts = old.attempts) :
    Effects prims may w (w.revise id write).markDirty := by
  rw [World.markDirty_eq]
  exact revise id write true revised message (fun old epochs _ => .inl (attempts old epochs))
    (fun _ _ _ => .inl (Bool.or_true _))

theorem revise_after (dirty : w.router.persistenceDirty = true) (id : MessageId)
    (write : OutboundEntry → BuildEpochs → OutboundEntry × BuildEpochs)
    (revised : ∀ old epochs, Revised old (write old epochs).1 epochs (write old epochs).2)
    (message : ∀ old epochs, (write old epochs).1.message = old.message)
    (attempts : ∀ old epochs, (write old epochs).1.attempts = old.attempts) :
    Effects prims may w (w.revise id write) := by
  have path : Effects prims may w ((w.revise id write).markDirtyIf false) :=
    revise id write false revised message (fun old epochs _ => .inl (attempts old epochs))
      (fun _ _ _ => .inl (by rw [dirty]; rfl))
  have same : (w.revise id write).markDirtyIf false = w.revise id write := by simp [World.markDirtyIf]
  rwa [same] at path

theorem postpone (id : MessageId) (nextAttemptMs : Nat) : Effects prims may w (w.postpone id nextAttemptMs) := by
  have path : Effects prims may w ((w.postpone id nextAttemptMs).markDirtyIf false) :=
    revise id _ false (fun old epochs => Revised.bookkeeping old old.attempts nextAttemptMs old.progress epochs)
      (fun _ _ => rfl) (fun _ _ _ => .inl rfl) (fun _ _ _ => .inr rfl)
  have same : (w.postpone id nextAttemptMs).markDirtyIf false = w.postpone id nextAttemptMs := by
    simp [World.markDirtyIf]
  exact same ▸ path

theorem conclude {id : MessageId} {old : OutboundEntry} {state : MessageState} (ends : may.ends)
    (held : w.router.outbound.get? id = some old) (terminal : state.terminal = true)
    (gives : state = .failed → may.fails) :
    Effects prims may w (w.conclude id state) := .single (.conclude ends held terminal gives rfl rfl)

theorem revised_setState (state : MessageState) (nextAttemptMs : Nat) (progress : Progress) (old : OutboundEntry)
    (epochs : BuildEpochs) :
    Revised old { (old.setState state epochs).1 with nextAttemptMs, progress } epochs (old.setState state epochs).2 :=
  (Revised.setState old state epochs).trans (Revised.bookkeeping _ _ nextAttemptMs progress _)

theorem setState_attempts (old : OutboundEntry) (state : MessageState) (epochs : BuildEpochs) :
    (old.setState state epochs).1.attempts = old.attempts := by
  unfold OutboundEntry.setState
  split <;> rfl

theorem setState_state (old : OutboundEntry) (state : MessageState) (epochs : BuildEpochs) :
    (old.setState state epochs).1.state = state := by
  unfold OutboundEntry.setState
  split
  next same => exact same
  next => rfl

theorem setState_message (old : OutboundEntry) (state : MessageState) (epochs : BuildEpochs) :
    (old.setState state epochs).1.message = old.message := by
  unfold OutboundEntry.setState
  split <;> rfl

theorem setState_same {old : OutboundEntry} {state : MessageState} (same : old.state = state) (epochs : BuildEpochs) :
    old.setState state epochs = (old, epochs) := if_pos same

theorem durable_rescheduled (entry : OutboundEntry) (nextAttemptMs : Nat) :
    ({ entry with nextAttemptMs } : OutboundEntry).durable = entry.durable := rfl

theorem wakeDirectOutbound (destination : DestinationHash) (nowMs : Nat) :
    Effects prims may w (w.wakeDirectOutbound prims destination nowMs) := by
  refine .single (.reschedule (fun entry => if (entry.state = .outbound ∧ entry.message.destinationHash = destination ∧
      representation prims entry.message ≠ .ok .opportunisticPacket ∧ nowMs < entry.nextAttemptMs : Bool)
    then nowMs else entry.nextAttemptMs) ?_ ?_ rfl)
  · unfold World.wakeDirectOutbound
    dsimp only
    congr 2
    funext _ entry
    split <;> rfl
  · intro dirty
    simp [World.wakeDirectOutbound, dirty]

theorem wakeUploads (nowMs : Nat) : Effects prims may w (w.wakeUploads nowMs) := by
  refine .single (.reschedule (fun entry => if (entry.message.method = .propagated ∧ entry.state = .outbound ∧
      entry.nextAttemptMs ≠ nowMs : Bool) then nowMs else entry.nextAttemptMs) ?_ ?_ rfl)
  · unfold World.wakeUploads
    dsimp only
    congr 2
    funext _ entry
    split <;> rfl
  · intro dirty
    simp [World.wakeUploads, dirty]

theorem setJob (job : Nat) : Effects prims may w { w with router.nextJobMs := job } := by
  refine .single (.reschedule OutboundEntry.nextAttemptMs ?_ (fun dirty => dirty) rfl)
  have same : w.router.outbound.mapValues (fun _ entry => { entry with nextAttemptMs := entry.nextAttemptMs }) =
      w.router.outbound := OrdMap.mapValues_eq (fun _ _ _ => rfl)
  rw [same]

theorem forgetPathRequest (id : MessageId) : Quiet w (w.forgetPathRequest id) := Quiet.volatile w _ _ _

theorem dropMark (id : MessageId) :
    Quiet w { w with router.buildsOutstanding := w.router.buildsOutstanding.erase id } := Quiet.volatile w _ _ _

theorem delivered {id : MessageId} {entry : OutboundEntry} (ends : may.ends) (held : w.router.outbound.get? id = some entry)
    (marked : Bool) (time : Rat) :
    Effects prims may w ((({ w with
      router.tickets := if marked then w.router.tickets.markDelivered entry.message.destinationHash time
        else w.router.tickets } : World Env).forgetPathRequest id).conclude id .delivered) := by
  cases marked with
  | false =>
    have path : Effects prims may w ((w.forgetPathRequest id).conclude id .delivered) :=
      (quiet (forgetPathRequest id)).trans (conclude ends held rfl nofun)
    exact path
  | true =>
    have noted : Effects prims may w ({ w with
        router.tickets := w.router.tickets.markDelivered entry.message.destinationHash time } : World Env).markDirty :=
      .single (.ticketDelivered entry.message.destinationHash time)
    have unfailed : MessageState.delivered = .failed → may.fails := nofun
    exact (noted.trans (quiet (forgetPathRequest id))).trans (.single (.conclude ends held rfl unfailed rfl rfl))

theorem deliveryRejected (ends : may.ends) (id : MessageId) (nowMs : Nat) (nowUnix : Rat) :
    Effects prims may w
      (w.handleNodeEvent prims (.deliveryFailed id (.resource .rejectedByRemote)) nowMs nowUnix) := by
  simp only [World.handleNodeEvent]
  split
  next => exact quiet (dropMark id)
  next entry held =>
    have unfailed : MessageState.rejected = .failed → may.fails := fun same => by cases same
    exact (quiet ((Quiet.mintEpochFor w entry .rejected).trans (forgetPathRequest id))).trans
      (conclude ends held rfl unfailed)

theorem deliveryRetried (id : MessageId) (nowMs : Nat) (nowUnix : Rat) :
    Effects prims may w (w.handleNodeEvent prims (.deliveryFailed id .opportunistic) nowMs nowUnix) := by
  simp only [World.handleNodeEvent]
  split
  next => exact .refl
  next entry held =>
    refine revise id _ _ (fun old epochs => revised_setState .outbound _ _ old epochs)
      (fun old epochs => setState_message old .outbound epochs)
      (fun old epochs _ => .inl (setState_attempts old .outbound epochs)) ?_
    intro old epochs held'
    obtain rfl := Option.some.inj (held.symm.trans held')
    by_cases same : entry.state = .outbound
    · right
      rw [setState_same same]
      exact durable_rescheduled entry _
    · left
      simp [same]

theorem handleNodeEvent {event : LxmfNodeEvent} (ends : may.ends ∨ event.ends = false) (nowMs : Nat) (nowUnix : Rat) :
    Effects prims may w (w.handleNodeEvent prims event nowMs nowUnix) := by
  cases event with
  | messageReceived message => exact .single (.inbound message nowUnix)
  | delivered id =>
    have ends : may.ends := ends.resolve_right Bool.noConfusion
    simp only [World.handleNodeEvent]
    split
    next => exact quiet (dropMark id)
    next entry held =>
      have still : (w.mintEpochFor entry .delivered).router.outbound.get? id = some entry := held
      exact (quiet (Quiet.mintEpochFor w entry .delivered)).trans
        (Effects.delivered ends still (World.deliveredTicket prims w.router.tickets entry.message) nowUnix)
  | deliveryFailed id reason =>
    cases reason with
    | resource error =>
      cases error with
      | rejectedByRemote => exact deliveryRejected (ends.resolve_right Bool.noConfusion) id nowMs nowUnix
      | cancelled => exact deliveryRejected (ends.resolve_right Bool.noConfusion) id nowMs nowUnix
      | transferInProgress => exact deliveryRetried id nowMs nowUnix
      | linkStateChanged => exact deliveryRetried id nowMs nowUnix
      | other => exact deliveryRetried id nowMs nowUnix
    | opportunistic => exact deliveryRetried id nowMs nowUnix
    | directPacketTimeout => exact deliveryRetried id nowMs nowUnix
    | linkClosed => exact deliveryRetried id nowMs nowUnix
  | directLinkEstablished destination link isInitiator =>
    refine ReflTransGen.trans ?_ (quiet (Quiet.emit _ rfl))
    cases destination with
    | none => exact .refl
    | some destination => exact wakeDirectOutbound destination nowMs
  | submitted id method =>
    cases method with
    | opportunistic =>
      refine revise id _ _ (fun old epochs => Revised.setState old .sent epochs)
        (fun old epochs => setState_message old .sent epochs)
        (fun old epochs _ => .inl (setState_attempts old .sent epochs)) ?_
      intro old epochs held
      by_cases same : old.state = .sent
      · right
        rw [setState_same same]
      · left
        simp [held, same]
    | direct => exact .refl
    | propagated => exact .refl
    | paper => exact .refl
  | progress id progress =>
    refine revise id _ _ (fun old epochs => Revised.bookkeeping old _ _ progress epochs) (fun _ _ => rfl)
      (fun _ _ _ => .inl rfl) ?_
    intro old epochs held
    by_cases same : old.progress = progress
    · right
      rw [← same]
    · left
      simp [held, same]
  | inboundRejected method => exact quiet (Quiet.emit w rfl)
  | deliveryMethodFallback id requested chosen packedLen => exact quiet (Quiet.emit w rfl)
  | peerAnnounced destination => exact .refl
  | pathRequested destination => exact .refl

theorem handleNodeEvents {events : List LxmfNodeEvent} (ends : may.ends ∨ ∀ event ∈ events, event.ends = false)
    (nowMs : Nat) (nowUnix : Rat) : Effects prims may w (w.handleNodeEvents prims events nowMs nowUnix) := by
  induction events generalizing w with
  | nil => exact .refl
  | cons event rest ih =>
    have first : Effects prims may w (w.handleNodeEvent prims event nowMs nowUnix) :=
      handleNodeEvent (ends.imp_right (fun none => none event (List.mem_cons_self ..))) nowMs nowUnix
    exact first.trans (ih (ends.imp_right (fun none event member => none event (List.mem_cons_of_mem _ member))))

end Effects

theorem exec_attempt {Value Error : Type} (wrap : Error → RouterError) (operation : Env → Except Error Value × Env)
    (w : World Env) :
    exec (attempt wrap operation) w =
      ((operation w.env).1.mapError wrap, { w with env := (operation w.env).2 }) := by
  unfold attempt perform
  rw [Fallible.exec_modifyGet_bind]
  cases (operation w.env).1 <;> rfl

theorem attempt_ok {Value Error : Type} {wrap : Error → RouterError} {operation : Env → Except Error Value × Env}
    {w after : World Env} {value : Value} (ok : exec (attempt wrap operation) w = (.ok value, after)) :
    (operation w.env).1 = .ok value := by
  rw [exec_attempt] at ok
  cases answer : (operation w.env).1 with
  | error error => rw [answer] at ok; cases (Prod.mk.inj ok).1
  | ok found =>
    rw [answer] at ok
    rw [Except.ok.inj (Prod.mk.inj ok).1]

/-- The effects of a fallible step from a state. -/
abbrev Moves (prims : Primitives) (may : Leave) {Value : Type} (proc : Proc Env Value) (w : World Env) : Prop :=
  MovesFrom (Effect prims may) proc w

namespace Moves

variable {w : World Env} {Value : Type}

theorem attempt {Error : Type} (wrap : Error → RouterError) (operation : Env → Except Error Value × Env) :
    Moves prims may (Router.attempt wrap operation) w := by
  unfold Moves MovesFrom
  rw [exec_attempt]
  exact Effects.quiet (Quiet.env w _)

theorem ofQuiet {write : World Env → World Env} (quiet : ∀ w, Quiet w (write w)) :
    Moves prims may (modify write) w := MovesFrom.ofModify (Effects.quiet (quiet w))

theorem submitMailboxRequest (link : LinkId) (request : MessageGetRequest) (kind : PropagationRequestKind) :
    Moves prims may (Router.submitMailboxRequest ops link request kind) w :=
  MovesFrom.andThen (attempt _ _) (fun _ _ _ => ofQuiet (fun w => Quiet.act w _))

theorem beginListRequest (link : LinkId) : Moves prims may (Router.beginListRequest ops link) w := by
  refine MovesFrom.andThen (ofQuiet (fun w => (Quiet.setRuntime w _).trans (Quiet.setClientState _ _))) ?_
  intro _ _ _
  refine MovesFrom.andThen (attempt _ _) (fun _ _ _ => ?_)
  refine MovesFrom.andThen (ofQuiet (fun w => Quiet.act w _)) (fun _ _ _ => ?_)
  refine MovesFrom.andThen (submitMailboxRequest ops link _ _) (fun _ _ _ => ?_)
  exact ofQuiet (fun w => Quiet.setClientState w _)

theorem handleListResponse (reply : Option (Except PeerError (List TransientId))) :
    Moves prims may (Router.handleListResponse ops reply) w := by
  unfold Router.handleListResponse
  split
  · exact ofQuiet (fun w => (Quiet.setClientState w _).trans (Quiet.cancelOutboundLink ops _))
  · exact ofQuiet (fun w => Quiet.handleRemoteError ops w _)
  · exact ofQuiet (fun w => Quiet.complete w _ _)
  · refine MovesFrom.afterGet ?_
    split
    · exact MovesFrom.ofPure ()
    · split
      · exact ofQuiet (fun w => Quiet.setClientState w _)
      · exact MovesFrom.andThen (submitMailboxRequest ops _ _ _)
          (fun _ _ _ => ofQuiet (fun w => Quiet.setClientState w _))

theorem acknowledge (haves : List TransientId) : Moves prims may (Router.acknowledge ops haves) w := by
  unfold Router.acknowledge
  refine MovesFrom.afterGet ?_
  split
  · exact MovesFrom.ofPure ()
  · split
    · exact MovesFrom.ofPure ()
    · split
      · exact MovesFrom.ofPure ()
      · exact submitMailboxRequest ops _ _ _

end Moves

namespace Effects

variable {w : World Env}

theorem deliverUnstamped (bytes : Bytes) (nowUnix : Rat) :
    Effects prims may w (w.deliverUnstamped prims ops bytes nowUnix).2 := by
  unfold World.deliverUnstamped
  dsimp only
  split
  · exact quiet (Quiet.emit w rfl)
  · split
    · exact .refl
    · split
      · exact .single (.foreign bytes nowUnix)
      · split
        · exact .refl
        · exact .single (.fetch bytes _ nowUnix)

theorem deliverMessages (nowUnix : Rat) (messages : List Bytes) :
    Effects prims may w (World.deliverMessages prims ops nowUnix messages w).2 := by
  induction messages generalizing w with
  | nil => exact .refl
  | cons bytes rest ih => exact (deliverUnstamped ops bytes nowUnix).trans ih

theorem uploadSubmitted (id : MessageId) : Effects prims may w (w.uploadSubmitted ops id) := by
  unfold World.uploadSubmitted
  split
  next => exact .refl
  next entry held =>
    have reported : Quiet w (if entry.state = .sending then w else w.emit (.messageState id .sending)) := by
      split
      · exact Quiet.refl w
      · exact Quiet.emit w rfl
    exact (quiet reported).trans (revise_dirty id _
      (fun old epochs => revised_setState .sending _ _ old epochs) (fun old epochs => setState_message old .sending epochs)
      (fun old epochs => setState_attempts old .sending epochs))

theorem scheduleUploadRetry (id : MessageId) (nextAttemptMs : Nat) :
    Effects prims may w (w.scheduleUploadRetry id nextAttemptMs) := by
  unfold World.scheduleUploadRetry
  split
  · exact .refl
  · exact revise_dirty id _ (fun old epochs => revised_setState .outbound _ _ old epochs)
      (fun old epochs => setState_message old .outbound epochs) (fun old epochs => setState_attempts old .outbound epochs)

theorem uploadFailed (id : MessageId) : Effects prims may w (w.uploadFailed ops id) := by
  unfold World.uploadFailed
  split
  · exact .refl
  · exact revise_dirty id _ (fun old epochs => revised_setState .outbound _ _ old epochs)
      (fun old epochs => setState_message old .outbound epochs) (fun old epochs => setState_attempts old .outbound epochs)

theorem concludeUpload (ends : may.ends) (id : MessageId) {state : MessageState} (terminal : state.terminal = true)
    (unfailed : state ≠ .failed) : Effects prims may w (w.concludeUpload id state) := by
  unfold World.concludeUpload
  split
  next => exact quiet (dropMark id)
  next held => exact conclude ends held terminal (fun failed => absurd failed unfailed)

theorem uploadMoved (id : MessageId) (progress : Rat) : Effects prims may w (w.uploadMoved id progress) := by
  refine revise id _ _ (fun old epochs => Revised.bookkeeping old _ _ _ epochs) (fun _ _ => rfl)
    (fun _ _ _ => .inl rfl) ?_
  intro old epochs held
  by_cases same : old.progress = World.uploadShare progress
  · right
    rw [← same]
  · left
    simp [held, same]

end Effects

namespace Moves

variable {w : World Env}

theorem handleGetResponse (reply : Option (Except PeerError (List Bytes))) (nowUnix : Rat) :
    Moves prims may (Router.handleGetResponse prims ops reply nowUnix) w := by
  unfold Router.handleGetResponse
  split
  · exact ofQuiet (fun w => (Quiet.setClientState w _).trans (Quiet.cancelOutboundLink ops _))
  · exact ofQuiet (fun w => Quiet.handleRemoteError ops w _)
  · refine MovesFrom.andThen (Effects.deliverMessages ops nowUnix _) (fun _ _ _ => ?_)
    refine MovesFrom.andThen (acknowledge ops _) (fun _ _ _ => ?_)
    exact ofQuiet (fun w => Quiet.complete w _ _)

theorem handleTransportEvent {event : PropagationTransportEvent} (ends : may.ends ∨ event.ends = false)
    (nowUnix : Rat) : Moves prims may (Router.handleTransportEvent prims ops event nowUnix) w := by
  cases event with
  | nodeAnnounced destination =>
    refine MovesFrom.afterGet ?_
    split
    · refine MovesFrom.andThen (ofQuiet (fun w => (Quiet.setRuntime w _).trans (Quiet.setClientState _ _))) ?_
      intro _ _ _
      split
      · exact MovesFrom.ofPure ()
      · exact beginListRequest ops _
    · exact MovesFrom.ofPure ()
  | linkEstablished destination link =>
    refine MovesFrom.afterGet ?_
    split
    · dsimp only
      split
      · exact MovesFrom.andThen (beginListRequest ops link) (fun _ _ _ => MovesFrom.ofModify (Effects.wakeUploads _))
      · exact MovesFrom.ofModify (Effects.wakeUploads _)
    · exact MovesFrom.ofPure ()
  | listResponse reply => exact handleListResponse ops reply
  | getResponse reply => exact handleGetResponse ops reply nowUnix
  | acknowledgeResponse => exact MovesFrom.ofPure ()
  | requestTimedOut kind =>
    have failed : Moves prims may (modify (fun world : World Env =>
        (world.setClientState .transferFailed).cancelOutboundLink ops)) w :=
      ofQuiet (fun w => (Quiet.setClientState w _).trans (Quiet.cancelOutboundLink ops _))
    cases kind with
    | list => exact failed
    | get => exact failed
    | acknowledge => exact ofQuiet (fun w => Quiet.cancelOutboundLink ops w)
  | requestProgress kind progress size =>
    cases kind with
    | get => exact ofQuiet (fun w => Quiet.requestProgress w _ _)
    | list => exact MovesFrom.ofPure ()
    | acknowledge => exact MovesFrom.ofPure ()
  | uploadSubmitted id => exact MovesFrom.ofModify (Effects.uploadSubmitted ops id)
  | uploadProgress id progress => exact MovesFrom.ofModify (Effects.uploadMoved id progress)
  | uploadCompleted id => exact MovesFrom.ofModify (Effects.concludeUpload (ends.resolve_right nofun) id rfl nofun)
  | uploadFailed link id reason =>
    unfold Router.handleTransportEvent
    dsimp only
    split
    · exact MovesFrom.ofModify (Effects.uploadFailed ops id)
    · exact MovesFrom.andThen (ofQuiet (fun w => Quiet.closeLink ops w link))
        (fun _ _ _ => MovesFrom.ofModify (Effects.uploadFailed ops id))
  | uploadRejected link id =>
    have rejected : Effects prims may w (w.concludeUpload id .rejected) :=
      Effects.concludeUpload (ends.resolve_right nofun) id rfl nofun
    exact MovesFrom.ofModify (rejected.trans (Effects.quiet (Quiet.closeLink ops _ link)))
  | linkClosed destination => exact ofQuiet (fun w => Quiet.linkDown w destination)

theorem handleTransportEvents {events : List PropagationTransportEvent}
    (ends : may.ends ∨ ∀ event ∈ events, event.ends = false) (nowUnix : Rat) :
    Moves prims may (Router.handleTransportEvents prims ops nowUnix events) w := by
  induction events generalizing w with
  | nil => exact MovesFrom.ofPure ()
  | cons event rest ih =>
    have first := ends.imp_right (fun none => none event (List.mem_cons_self ..))
    have later := ends.imp_right (fun none event member => none event (List.mem_cons_of_mem _ member))
    exact MovesFrom.andThen (handleTransportEvent ops first nowUnix) (fun _ _ _ => ih later)

theorem propagationHandleEvent (event : NodeEvent)
    (ends : may.ends ∨ ∀ events, (transportHandleEvent ops event w.env).1 = .ok events → ∀ event ∈ events, event.ends = false)
    (nowUnix : Rat) : Moves prims may (Router.propagationHandleEvent prims ops event nowUnix) w := by
  refine MovesFrom.andThen (attempt _ _) (fun events after ok => ?_)
  refine MovesFrom.andThen (ofQuiet (fun w => Quiet.pathFound w event)) (fun _ _ _ => ?_)
  exact handleTransportEvents ops (ends.imp_right (fun none => none events (attempt_ok ok))) nowUnix

theorem attempt_quiet {Error : Type} (wrap : Error → RouterError) (operation : Env → Except Error Value × Env) :
    MovesFrom Quiet (Router.attempt wrap operation) w := by
  unfold MovesFrom
  rw [exec_attempt]
  exact .single (Quiet.env w _)

theorem modify_quiet {write : World Env → World Env} (quiet : ∀ w, Quiet w (write w)) :
    MovesFrom Quiet (modify write : Proc Env Unit) w := MovesFrom.ofModify (.single (quiet w))

theorem tickClient_quiet : MovesFrom Quiet (Router.tickClient ops) w := by
  refine MovesFrom.afterGet ?_
  split
  · exact MovesFrom.ofPure ()
  · split
    · exact MovesFrom.ofPure ()
    · dsimp only
      split
      · exact modify_quiet (fun w => Quiet.setClientState w _)
      · split
        · refine MovesFrom.andThen (modify_quiet (fun w => (Quiet.setRuntime w _).trans (Quiet.setClientState _ _))) ?_
          intro _ _ _
          exact MovesFrom.andThen (attempt_quiet _ _) (fun _ _ _ => modify_quiet (fun w => Quiet.act w _))
        · split
          · exact modify_quiet (fun w => (((Quiet.setRuntime w _).trans (Quiet.env _ _)).trans (Quiet.act _ _)).trans
              (Quiet.setClientState _ _))
          · split
            · exact modify_quiet (fun w => (Quiet.requestPath ops w _ _).trans (Quiet.setRuntime _ _))
            · exact MovesFrom.ofPure ()

theorem tickClient : Moves prims may (Router.tickClient ops) w :=
  (tickClient_quiet ops).mono (fun _ _ quiet => .quiet quiet)

end Moves

end Leviculum.Router
