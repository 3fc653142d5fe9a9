import Leviculum.Router.MovesOut

/-! The effects of the outbound job: one due message, the loop over them and the cleaning after it. An
attempt is charged for nothing only when the node refuses what it is asked for a due message. -/

namespace Leviculum.Router

open Propagation (DestinationHash TransientId)
open Relation (ReflTransGen)

variable {Env : Type} {prims : Primitives} {may : Leave} (ops : NodeOps Env)

/-- Asked for a link to `destination`, the node has one or is making one, or it knows the recipient and has
room for the link. -/
def Linkable (destination : DestinationHash) (env : Env) : Prop :=
  match ops.activeDirectLink destination env with
  | (some _, _) => True
  | (none, env) =>
    ops.pendingLink env destination = none →
      ops.knowsIdentity env destination = true ∧
        (ops.hasPath env destination = true → (ops.connect destination env).1.isSome)

/-- Over the link to `destination` the node does what it is asked, and without a link it can have one made. -/
def OverLink (destination : DestinationHash) (takes : LinkId → Env → Prop) (env : Env) : Prop :=
  match ops.activeDirectLink destination env with
  | (some link, env) => takes link env
  | (none, env) => Linkable ops destination env

def Carried (prims : Primitives) (message : Message) (env : Env) : Prop :=
  match representation prims message with
  | .error _ => False
  | .ok .opportunisticPacket => (ops.sendSinglePacket message env).1 = .ok ()
  | .ok .directPacket =>
    OverLink ops message.destinationHash (fun link env => (ops.sendPacketOnLink link message env).1 = .ok ()) env
  | .ok .directResource =>
    OverLink ops message.destinationHash (fun link env => (ops.sendResource link message env).1 = .ok ()) env

/-- The node refuses nothing that the delivery of a due message asks of it. -/
def Served (prims : Primitives) (id : MessageId) (message : Message) (w : World Env) : Prop :=
  if w.router.config.deferResourceBuilds ∧ representation prims message = .ok .directResource then
    id ∉ w.router.buildsOutstanding →
      OverLink ops message.destinationHash (fun link env => ops.resourceSendParams link env = .ok ()) w.env
  else
    w.router.maxOutgoingDeliverySize.any (fun limit => limit < (message.pack prims).length) = false ∧
      Carried ops prims message w.env

/-- A due message that is submitted now: it is not under way, has attempts left and waits for no stamp, and
as an opportunistic packet it asks for no path. -/
structure Submits (prims : Primitives) (nowUnix : Rat) (id : MessageId) (entry : OutboundEntry) (w : World Env) :
    Prop where
  resting : ¬(World.usesDirectTransport prims entry.message ∧ entry.state = .sending)
  left : entry.attempts < maxDeliveryAttempts
  stamped : entry.message.stamp.isNone → w.router.outboundStampCostAt entry.message.destinationHash nowUnix = none
  asked : representation prims entry.message = .ok .opportunisticPacket →
    ops.hasPath w.env entry.message.destinationHash = false →
      (entry.attempts = 0 → id ∈ w.router.preemptivePathRequests) ∧ entry.attempts < maxPathlessTries
  fresh : representation prims entry.message = .ok .opportunisticPacket →
    ops.hasPath w.env entry.message.destinationHash = true → entry.attempts ≠ maxPathlessTries + 1

/-- The node refuses nothing for the message of `id`, if that is submitted now. -/
def DueServed (prims : Primitives) (nowUnix : Rat) (id : MessageId) (w : World Env) : Prop :=
  ∀ entry, w.router.outbound.get? id = some entry → Submits ops prims nowUnix id entry w →
    Served ops prims id entry.message w

/-- The node refuses none of the messages when their turn comes. -/
def AllServed (prims : Primitives) (nowMs : Nat) (nowUnix : Rat) : List MessageId → World Env → Prop
  | [], _ => True
  | id :: rest, w =>
    DueServed ops prims nowUnix id w ∧ AllServed prims nowMs nowUnix rest (w.processDue prims ops nowMs nowUnix id)

section Answers

variable {ops}

variable {limit : Option Nat} {message : Message} {env env' : Env} {error : LxmfNodeError}

theorem ensureDirectLink_ok {destination : DestinationHash} (linkable : Linkable ops destination env) :
    (ensureDirectLink ops destination env).1 ≠ .error error := by
  unfold Linkable at linkable
  unfold ensureDirectLink
  split
  next => exact nofun
  next env without =>
    rw [without] at linkable
    split
    next => exact nofun
    next absent =>
      obtain ⟨known, room⟩ := linkable absent
      rw [if_neg (by rw [known]; exact nofun)]
      split
      · exact nofun
      next path =>
        have room := room (Bool.eq_true_of_not_eq_false path)
        split
        next bad =>
          rw [bad] at room
          cases room
        next => exact nofun

theorem send_refusal (fits : limit.any (fun limit => limit < (message.pack prims).length) = false)
    (carried : Carried ops prims message env) (refused : send prims ops limit message env = (.error error, env')) :
    error = .directLinkUnavailable ∧ Linkable ops message.destinationHash env' := by
  unfold Carried representation at carried
  unfold send at refused
  simp only [fits, Bool.false_eq_true, if_false] at refused
  revert carried refused
  cases representationOf message.method (message.pack prims).length with
  | error _ => exact fun carried _ => carried.elim
  | ok carrier =>
    cases carrier with
    | opportunisticPacket =>
      intro taken refused
      dsimp only at taken refused
      split at refused
      next bad =>
        rw [bad] at taken
        cases taken
      next => cases refused
    -- a packet and a resource ask for the same link
    | directPacket | directResource =>
      intro taken refused
      dsimp only [OverLink] at taken refused
      split at refused
      next without =>
        rw [without] at taken
        cases refused
        exact ⟨rfl, taken⟩
      next linked =>
        rw [linked] at taken
        dsimp only at taken
        split at refused
        next bad =>
          rw [bad] at taken
          cases taken
        next => cases refused

theorem resourceSendParams_refusal
    (taken : OverLink ops message.destinationHash (fun link env => ops.resourceSendParams link env = .ok ()) env)
    (refused : resourceSendParams ops message env = (.error error, env')) :
    error = .directLinkUnavailable ∧ Linkable ops message.destinationHash env' := by
  unfold OverLink at taken
  unfold resourceSendParams at refused
  split at refused
  next without =>
    rw [without] at taken
    cases refused
    exact ⟨rfl, taken⟩
  next linked =>
    rw [linked] at taken
    dsimp only at taken
    rw [taken] at refused
    cases refused

end Answers

theorem mem_dueMessages {router : LxmfRouter} {nowMs : Nat} {id : MessageId} :
    id ∈ World.dueMessages router nowMs ↔
      ∃ entry, router.outbound.get? id = some entry ∧ entry.message.method ≠ .propagated ∧ entry.nextAttemptMs ≤ nowMs := by
  unfold World.dueMessages
  simp only [List.mem_map, List.mem_insertionSort, List.mem_filter, decide_eq_true_eq]
  constructor
  · rintro ⟨⟨key, entry⟩, ⟨member, method, due⟩, rfl⟩
    exact ⟨entry, OrdMap.get?_eq_some.mpr member, method, due⟩
  · rintro ⟨entry, held, method, due⟩
    exact ⟨(id, entry), ⟨OrdMap.get?_eq_some.mp held, method, due⟩, rfl⟩

def World.started (nowMs : Nat) (w : World Env) : World Env :=
  { w with router.nextJobMs := satAdd nowMs processingIntervalMs }

theorem World.started_outbound (nowMs : Nat) (w : World Env) :
    (w.started nowMs).router.outbound = w.router.outbound := by
  dsimp only [World.started]

theorem runJob_eq (w : World Env) (nowMs : Nat) (nowUnix : Rat) :
    w.runJob prims ops nowMs nowUnix =
      ((World.dueMessages (w.started nowMs).router nowMs).foldl (World.processDue prims ops nowMs nowUnix)
        (w.started nowMs)).clean nowUnix := by
  unfold World.runJob World.started
  rfl

theorem dueMessages_started (nowMs : Nat) (w : World Env) :
    World.dueMessages (w.started nowMs).router nowMs = World.dueMessages w.router nowMs := by
  unfold World.dueMessages
  rw [World.started_outbound]

namespace Effects

variable {w : World Env} {id : MessageId} {entry : OutboundEntry}

theorem paid (held : w.router.outbound.get? id = some entry) (dirty : w.router.persistenceDirty = true)
    {action : Action} (behalf : action.onBehalfOf = some id) (nextAttemptMs : Nat) :
    Effects prims may w ((w.act action).chargeAndWait id nextAttemptMs) := by
  have still : (w.act action).router.outbound.get? id = some entry := held
  unfold World.chargeAndWait World.revise
  rw [still]
  refine .single (.charge held (Revised.bookkeeping entry _ nextAttemptMs entry.progress _) rfl rfl ?_ behalf rfl)
  dsimp only [World.act]
  rw [← dirty]
  rfl

theorem unpaid (allowed : may.slip) (held : w.router.outbound.get? id = some entry)
    (dirty : w.router.persistenceDirty = true) (nextAttemptMs : Nat) :
    Effects prims may w (w.chargeAndWait id nextAttemptMs) := by
  unfold World.chargeAndWait World.revise
  rw [held]
  refine .single (.unpaid allowed held (Revised.bookkeeping entry _ nextAttemptMs entry.progress _) rfl rfl ?_ rfl)
  dsimp only
  rw [← dirty]
  rfl

theorem linkDue {destination : DestinationHash} (excused : may.slip ∨ Linkable ops destination w.env)
    (held : w.router.outbound.get? id = some entry) (dirty : w.router.persistenceDirty = true) (nowMs : Nat) :
    Effects prims may w (w.linkDue ops id destination nowMs) := by
  unfold World.linkDue
  split
  next env _ =>
    exact (quiet (Quiet.env w env)).trans (paid (w := { w with env }) held dirty rfl _)
  next env _ =>
    exact (quiet (Quiet.env w env)).trans (paid (w := { w with env }) held dirty rfl _)
  next env _ => exact (quiet (Quiet.env w env)).trans (postpone id _)
  next env _ => exact (quiet (Quiet.env w env)).trans (postpone id _)
  next error env failed =>
    refine (quiet (Quiet.env w env)).trans (unpaid (w := { w with env }) ?_ held dirty _)
    exact excused.resolve_right (fun linkable => ensureDirectLink_ok linkable (congrArg Prod.fst failed))

theorem refuseDue {destination : DestinationHash} {error : LxmfNodeError}
    (excused : may.slip ∨ error = .directLinkUnavailable ∧ Linkable ops destination w.env)
    (held : w.router.outbound.get? id = some entry) (dirty : w.router.persistenceDirty = true) (nowMs : Nat) :
    Effects prims may w (w.refuseDue ops id destination error nowMs) := by
  unfold World.refuseDue
  split
  next => exact linkDue ops (excused.imp_right And.right) held dirty nowMs
  next other => exact unpaid (excused.resolve_right (fun both => other both.1)) held dirty _

theorem captureDue (dirty : w.router.persistenceDirty = true) (link : LinkId) (nowMs : Nat) :
    Effects prims may w (w.captureDue id link nowMs) := by
  have written : Effects prims may w (w.revise id (fun entry epochs =>
      ({ (entry.setState .outbound epochs).1 with nextAttemptMs := satAdd nowMs deliveryRetryWaitMs },
        (entry.setState .outbound epochs).2))) :=
    revise_after dirty id _ (fun old epochs => revised_setState .outbound _ _ old epochs)
      (fun old epochs => setState_message old .outbound epochs) (fun old epochs => setState_attempts old .outbound epochs)
  have resting : ∀ {entry' : OutboundEntry}, (w.revise id (fun entry epochs =>
      ({ (entry.setState .outbound epochs).1 with nextAttemptMs := satAdd nowMs deliveryRetryWaitMs },
        (entry.setState .outbound epochs).2))).router.outbound.get? id = some entry' →
      entry'.state = .outbound ∧ (w.revise id (fun entry epochs =>
        ({ (entry.setState .outbound epochs).1 with nextAttemptMs := satAdd nowMs deliveryRetryWaitMs },
          (entry.setState .outbound epochs).2))).router.persistenceDirty = true := by
    intro entry' held'
    unfold World.revise at held' ⊢
    split at held'
    next absent =>
      rw [absent] at held'
      cases held'
    next entry held =>
      dsimp only at held' ⊢
      rw [OrdMap.get?_insert, if_pos rfl] at held'
      obtain rfl := Option.some.inj held'
      exact ⟨setState_state entry .outbound w.router.buildEpochs, dirty⟩
  unfold World.captureDue
  dsimp only
  split
  next => exact written
  next entry' held' =>
    refine written.trans ?_
    refine ReflTransGen.trans ?_ (quiet (Quiet.emit _ rfl))
    obtain ⟨waits, dirty'⟩ := resting held'
    revert held' dirty'
    generalize w.revise id _ = written
    intro held' dirty'
    have made : PendingResourceBuild.MadeFrom ⟨id, written.router.restoreGeneration, entry'.buildEpoch,
      .delivery link entry'.message⟩ entry' := rfl
    refine .single (.capture held' ⟨rfl, rfl, rfl, made⟩ (Revised.refl entry' _) rfl rfl waits ?_ rfl)
    rw [OrdMap.insert_of_get? held', ← dirty']

theorem submitDue (ends : may.ends ∧ may.fails) (held : w.router.outbound.get? id = some entry)
    (dirty : w.router.persistenceDirty = true) (events : List LxmfNodeEvent) (nowMs : Nat) (nowUnix : Rat) :
    Effects prims may w (w.submitDue prims id entry events nowMs nowUnix) := by
  unfold World.submitDue
  dsimp only
  have reported : Quiet w (if entry.state = .sending then w else w.emit (.messageState id .sending)) := by
    split
    · exact Quiet.refl w
    · exact Quiet.emit w rfl
  have same : (if entry.state = .sending then w else w.emit (.messageState id .sending)).router = w.router := by
    split <;> rfl
  revert reported same
  generalize (if entry.state = .sending then w else w.emit (.messageState id .sending)) = world
  intro reported same
  rw [← same] at held dirty
  refine (quiet reported).trans (ReflTransGen.trans ?_ (handleNodeEvents (.inl ends.1) nowMs nowUnix))
  by_cases packet : representation prims entry.message = .ok .opportunisticPacket
  · unfold World.revise
    rw [held]
    dsimp only
    rw [if_pos packet]
    have behalf : (Action.delivery id).onBehalfOf = some id := rfl
    have revised := (Revised.bookkeeping entry entry.charge.attempts entry.nextAttemptMs entry.progress
      world.router.buildEpochs).trans (revised_setState .sending (satAdd nowMs deliveryRetryWaitMs)
        (entry.charge.setState .sending world.router.buildEpochs).1.progress entry.charge _)
    refine .single (.charge held revised (setState_message entry.charge .sending world.router.buildEpochs)
      (setState_attempts entry.charge .sending world.router.buildEpochs) ?_ behalf rfl)
    dsimp only [World.act]
    rw [← dirty]
  · refine ReflTransGen.trans ?_ (quiet (Quiet.act _ _))
    unfold World.revise
    rw [held]
    dsimp only
    rw [if_neg packet]
    have revised := revised_setState .sending (satAdd nowMs deliveryRetryWaitMs)
      (entry.setState .sending world.router.buildEpochs).1.progress entry world.router.buildEpochs
    exact .single (.write held revised
      (setState_message entry .sending world.router.buildEpochs)
      (.inl (setState_attempts entry .sending world.router.buildEpochs)) rfl (fun dirty => dirty) (.inl dirty) rfl)

theorem deliverDue (ends : may.ends ∧ may.fails) (served : may.slip ∨ Served ops prims id entry.message w)
    (held : w.router.outbound.get? id = some entry) (dirty : w.router.persistenceDirty = true) (nowMs : Nat)
    (nowUnix : Rat) : Effects prims may w (w.deliverDue prims ops id entry nowMs nowUnix) := by
  unfold World.deliverDue
  unfold Served at served
  split
  next deferred =>
    rw [if_pos deferred] at served
    split
    · exact postpone id _
    next fresh =>
      split
      next link env _ =>
        exact (quiet (Quiet.env w env)).trans (captureDue (w := { w with env }) dirty link nowMs)
      next error env failed =>
        refine (quiet (Quiet.env w env)).trans (refuseDue (w := { w with env }) ops ?_ held dirty nowMs)
        exact served.imp_right (fun served => resourceSendParams_refusal (served fresh) failed)
  next direct =>
    rw [if_neg direct] at served
    split
    next events env _ =>
      exact (quiet (Quiet.env w env)).trans (submitDue (w := { w with env }) ends held dirty events nowMs nowUnix)
    next error env failed =>
      refine (quiet (Quiet.env w env)).trans (refuseDue (w := { w with env }) ops ?_ held dirty nowMs)
      exact served.imp_right (fun served => send_refusal served.1 served.2 failed)

theorem pathDue (held : w.router.outbound.get? id = some entry) (dirty : w.router.persistenceDirty = true)
    (destination : DestinationHash) (nowMs : Nat) : Effects prims may w (w.pathDue ops id destination nowMs) := by
  have asked : Effects prims may w { w with env := ops.requestPath destination w.env } := quiet (Quiet.env w _)
  exact asked.trans (paid (w := { w with env := ops.requestPath destination w.env }) held dirty rfl _)

theorem opportunisticDue (ends : may.ends ∧ may.fails)
    (served : may.slip ∨
      ((ops.hasPath w.env entry.message.destinationHash = false →
        (entry.attempts = 0 → id ∈ w.router.preemptivePathRequests) ∧ entry.attempts < maxPathlessTries) →
      (ops.hasPath w.env entry.message.destinationHash = true → entry.attempts ≠ maxPathlessTries + 1) →
      Served ops prims id entry.message w))
    (held : w.router.outbound.get? id = some entry) (dirty : w.router.persistenceDirty = true) (nowMs : Nat)
    (nowUnix : Rat) : Effects prims may w (w.opportunisticDue prims ops id entry nowMs nowUnix) := by
  unfold World.opportunisticDue
  dsimp only
  split
  · exact (quiet ((Quiet.requestPath ops w _ _).trans (Quiet.volatile _ _ _ _))).trans (postpone id _)
  next told =>
    split
    · exact pathDue ops held dirty _ nowMs
    next early =>
      split
      · refine (quiet (Quiet.env w _)).trans
          (pathDue (w := { w with env := ops.removePath entry.message.destinationHash w.env }) ops held dirty _ nowMs)
      next fresh =>
        refine deliverDue ops ends (served.imp_right (fun served => served ?_ ?_)) held dirty nowMs nowUnix
        · intro pathless
          refine ⟨fun none => ?_, Nat.lt_of_not_le (fun late => early ⟨pathless, late⟩)⟩
          by_contra untold
          exact told ⟨pathless, none, untold⟩
        · exact fun path late => fresh ⟨path, late⟩

theorem processDue (ends : may.ends ∧ may.fails) (nowMs : Nat) {nowUnix : Rat}
    (served : may.slip ∨ DueServed ops prims nowUnix id w) :
    Effects prims may w (w.processDue prims ops nowMs nowUnix id) := by
  unfold World.processDue
  split
  next => exact .refl
  next entry held =>
    dsimp only
    refine (quiet (Quiet.markDirty w)).trans ?_
    have held' : w.markDirty.router.outbound.get? id = some entry := held
    have submitted : may.slip ∨ (Submits ops prims nowUnix id entry w.markDirty →
        Served ops prims id entry.message w.markDirty) :=
      served.imp_right (fun due submits => due entry held ⟨submits.resting, submits.left, submits.stamped,
        submits.asked, submits.fresh⟩)
    split
    · exact postpone id _
    next resting =>
      split
      next =>
        refine (quiet ((Quiet.mintEpochFor _ entry .failed).trans (forgetPathRequest id))).trans ?_
        exact conclude ends.1 held' rfl (fun _ => ends.2)
      next some =>
        have left : entry.attempts < maxDeliveryAttempts := Nat.lt_of_not_le some
        split
        · exact (quiet (Quiet.emit _ rfl)).trans (postpone id _)
        next free =>
          have stamped : entry.message.stamp.isNone →
              w.markDirty.router.outboundStampCostAt entry.message.destinationHash nowUnix = none := by
            intro bare
            rwa [if_pos bare] at free
          split
          · refine opportunisticDue ops ends (submitted.imp_right (fun served asked fresh => ?_)) held' rfl nowMs nowUnix
            exact served ⟨resting, left, stamped, fun _ => asked, fun _ => fresh⟩
          next other =>
            refine deliverDue ops ends (submitted.imp_right (fun served => ?_)) held' rfl nowMs nowUnix
            exact served ⟨resting, left, stamped, fun packet => absurd packet other, fun packet => absurd packet other⟩

theorem processAll {ids : List MessageId} (ends : may.ends ∧ may.fails) (nowMs : Nat) {nowUnix : Rat}
    (served : may.slip ∨ AllServed ops prims nowMs nowUnix ids w) :
    Effects prims may w (ids.foldl (World.processDue prims ops nowMs nowUnix) w) := by
  induction ids generalizing w with
  | nil => exact .refl
  | cons id rest ih =>
    have first : Effects prims may w (w.processDue prims ops nowMs nowUnix id) :=
      processDue ops ends nowMs (served.imp_right And.left)
    exact first.trans (ih (served.imp_right And.right))

theorem runJob (ends : may.ends ∧ may.fails) (nowMs : Nat) {nowUnix : Rat}
    (served : may.slip ∨ AllServed ops prims nowMs nowUnix (World.dueMessages w.router nowMs) (w.started nowMs)) :
    Effects prims may w (w.runJob prims ops nowMs nowUnix) := by
  have path : Effects prims may w (w.started nowMs) := setJob _
  rw [runJob_eq, dueMessages_started]
  exact (path.trans (processAll ops ends nowMs served)).trans (.single (.clean nowUnix))

theorem anchorWallClock (nowUnix : Rat) (nowMs : Nat) : Effects prims may w (w.anchorWallClock nowUnix nowMs) := by
  have anchored : ∀ w : World Env, Quiet w { w with router.timebaseAnchor := some (nowUnix, nowMs) } :=
    fun w => Quiet.volatile w _ _ _
  unfold World.anchorWallClock
  dsimp only
  split
  · exact quiet (anchored w)
  next anchorUnix anchorMs _ =>
    split
    · have rebased : Effects prims may w (w.rebaseAgeing
          ((nowUnix - anchorUnix) - ((nowMs - anchorMs : Nat) : Rat) / 1000) nowUnix) := .single (.rebase _ nowUnix)
      exact rebased.trans (quiet (anchored _))
    · exact quiet (anchored w)

end Effects

end Leviculum.Router
