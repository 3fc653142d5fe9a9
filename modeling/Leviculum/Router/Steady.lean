import Leviculum.Router.Moves

/-! The events of the node on which a message can come to its end. Nothing the propagation transport makes
of them can fail. -/

namespace Leviculum.Router

open Propagation (DestinationHash TransientId)
open Fallible (Succeeds exec)

variable {Env : Type} {prims : Primitives} {ops : NodeOps Env} {w : World Env}

/-- An event that can end a message: a proof, the end of a resource of ours, or data on a link. -/
def NodeEvent.closing : NodeEvent → Bool
  | .packetDeliveryConfirmed _ | .linkDeliveryConfirmed _ _ | .linkDataReceived _ _ => true
  | .resourceCompleted _ _ _ isSender _ _ | .resourceFailed _ _ _ isSender => isSender
  | _ => false

/-- A report that asks nothing of the node. -/
def PropagationTransportEvent.steady : PropagationTransportEvent → Bool
  | .uploadCompleted _ | .uploadRejected _ _ | .uploadFailed _ _ _ | .requestTimedOut _ => true
  | _ => false

theorem emitInbound_endless (env : Env) (method : DeliveryMethod) (data : Bytes) :
    ∀ event ∈ emitInbound ops env method data, event.ends = false := by
  intro event member
  unfold emitInbound at member
  split at member <;> obtain rfl := List.mem_singleton.mp member <;> rfl

/-- The adapter reports no end on any other event. -/
theorem adapterHandleEvent_endless {own : DestinationHash} {event : NodeEvent} {env : Env} {events : List LxmfNodeEvent}
    (other : event.closing = false) (ok : (adapterHandleEvent ops own event env).1 = .ok events) :
    ∀ event ∈ events, event.ends = false := by
  unfold adapterHandleEvent at ok
  cases event with
  | announceReceived destination aspect =>
    cases aspect with
    | delivery announce hasData =>
      dsimp only at ok
      split at ok <;> cases ok
      exact List.forall_mem_singleton.mpr rfl
    | propagation => cases ok; exact nofun
    | other => cases ok; exact nofun
  | resourceProgress link resource progress transferSize dataSize isSender =>
    cases isSender with
    | true =>
      dsimp only at ok
      split at ok <;> cases ok
      · exact List.forall_mem_singleton.mpr rfl
      · exact nofun
    | false => cases ok; exact nofun
  | packetReceived destination data =>
    dsimp only at ok
    split at ok <;> cases ok
    · exact emitInbound_endless env _ _
    · exact nofun
  | resourceCompleted link resource data isSender index total =>
    cases isSender with
    | true => cases other
    | false =>
      dsimp only at ok
      split at ok
      · split at ok <;> cases ok
        · exact List.forall_mem_singleton.mpr rfl
        · exact nofun
        · exact emitInbound_endless _ _ _
      · cases ok
        exact nofun
  | resourceFailed link resource error isSender =>
    cases isSender with
    | true => cases other
    | false =>
      dsimp only at ok
      rw [if_neg Bool.false_ne_true] at ok
      split at ok <;> cases ok
      · exact List.forall_mem_singleton.mpr rfl
      · exact nofun
  | linkClosed link destination isInitiator =>
    cases ok
    exact List.forall_mem_map.mpr (fun _ _ => rfl)
  | packetDeliveryConfirmed packet => cases other
  | linkDeliveryConfirmed link packet => cases other
  | linkDataReceived link data => cases other
  | _ =>
    dsimp only at ok
    (repeat' split at ok) <;> cases ok <;> simp [LxmfNodeEvent.ends]

/-- Nor does the propagation transport. -/
theorem transportHandleEvent_endless {event : NodeEvent} {env : Env} {events : List PropagationTransportEvent}
    (other : event.closing = false) (ok : (transportHandleEvent ops event env).1 = .ok events) :
    ∀ event ∈ events, event.ends = false := by
  unfold transportHandleEvent at ok
  cases event with
  | linkEstablished link isInitiator =>
    cases isInitiator with
    | true =>
      dsimp only at ok
      split at ok <;> cases ok
      · exact List.forall_mem_singleton.mpr rfl
      · exact nofun
    | false => cases ok; exact nofun
  | announceReceived destination aspect =>
    cases aspect with
    | propagation =>
      dsimp only at ok
      split at ok <;> cases ok
      split
      · exact List.forall_mem_singleton.mpr rfl
      · exact nofun
    | delivery announce hasData => cases ok; exact nofun
    | other => cases ok; exact nofun
  | responseReceived link request data =>
    dsimp only at ok
    split at ok <;> cases ok
    next kind _ _ => cases kind <;> exact List.forall_mem_singleton.mpr rfl
    next => exact nofun
  | resourceProgress link resource progress transferSize dataSize isSender =>
    cases isSender with
    | true =>
      cases ok
      cases ops.resourceUpload env link with
      | none => exact nofun
      | some id => exact List.forall_mem_singleton.mpr rfl
    | false =>
      cases ok
      cases ops.openRequest env link with
      | none => exact nofun
      | some kind => exact List.forall_mem_singleton.mpr rfl
  | resourceCompleted link resource data isSender index total =>
    cases isSender with
    | true => cases other
    | false => cases ok; exact nofun
  | resourceFailed link resource error isSender =>
    cases isSender with
    | true => cases other
    | false => cases ok; exact nofun
  | linkClosed link destination isInitiator =>
    dsimp only at ok
    split at ok <;> cases ok
    next destination upload _ _ =>
      intro event member
      rcases List.mem_append.mp member with failed | closed
      · cases upload with
        | none => cases failed
        | some id => rw [List.mem_singleton.mp failed]; rfl
      · rw [List.mem_singleton.mp closed]; rfl
    next => exact nofun
  | packetDeliveryConfirmed packet => cases other
  | linkDeliveryConfirmed link packet => cases other
  | linkDataReceived link data => cases other
  | _ =>
    dsimp only at ok
    (repeat' split at ok) <;> cases ok <;> simp [PropagationTransportEvent.ends]

theorem transportHandleEvent_steady (ops : NodeOps Env) {event : NodeEvent} (closing : event.closing = true) (env : Env) :
    ∃ events, (transportHandleEvent ops event env).1 = .ok events ∧ ∀ event ∈ events, event.steady = true := by
  have optional (id : Option MessageId) (report : MessageId → PropagationTransportEvent)
      (steady : ∀ id, (report id).steady = true) : ∀ event ∈ (id.map report).toList, event.steady = true := by
    intro event member
    cases id with
    | none => cases member
    | some id => rw [List.mem_singleton.mp member]; exact steady id
  unfold transportHandleEvent
  cases event with
  | packetDeliveryConfirmed packet => exact ⟨[], rfl, nofun⟩
  | linkDeliveryConfirmed link packet =>
    dsimp only
    split
    · exact ⟨_, rfl, List.forall_mem_singleton.mpr rfl⟩
    · exact ⟨[], rfl, nofun⟩
  | linkDataReceived link data =>
    dsimp only
    split
    · exact ⟨_, rfl, List.forall_mem_singleton.mpr rfl⟩
    · exact ⟨[], rfl, nofun⟩
  | resourceCompleted link resource data isSender index total =>
    obtain rfl : isSender = true := closing
    exact ⟨_, rfl, optional _ _ (fun _ => rfl)⟩
  | resourceFailed link resource error isSender =>
    obtain rfl : isSender = true := closing
    refine ⟨_, rfl, fun event member => ?_⟩
    rcases List.mem_append.mp member with upload | request
    · exact optional _ _ (fun _ => rfl) event upload
    · revert request
      cases (ops.takeFailedRequest link resource (ops.takeResourceUpload link env).2).1 with
      | none => exact nofun
      | some kind => intro request; rw [List.mem_singleton.mp request]; rfl
  | _ => cases closing

theorem attempt_succeeds {Value Error : Type} {wrap : Error → RouterError} {operation : Env → Except Error Value × Env}
    {value : Value} (ok : (operation w.env).1 = .ok value) : Succeeds (attempt wrap operation) w := by
  refine ⟨value, ?_⟩
  rw [exec_attempt, ok]
  rfl

theorem handleTransportEvent_succeeds {event : PropagationTransportEvent} (steady : event.steady = true) (nowUnix : Rat) :
    Succeeds (handleTransportEvent prims ops event nowUnix) w := by
  cases event with
  | requestTimedOut kind => cases kind <;> exact Succeeds.ofModify _
  | uploadCompleted id => exact Succeeds.ofModify _
  | uploadFailed link id reason =>
    unfold handleTransportEvent
    dsimp only
    split
    · exact Succeeds.ofModify _
    · exact Succeeds.modify_bind_iff.mpr (Succeeds.ofModify _)
  | uploadRejected link id => exact Succeeds.ofModify _
  | _ => cases steady

theorem handleTransportEvents_succeeds {events : List PropagationTransportEvent}
    (steady : ∀ event ∈ events, event.steady = true) (nowUnix : Rat) :
    Succeeds (handleTransportEvents prims ops nowUnix events) w := by
  induction events generalizing w with
  | nil => exact Succeeds.ofPure ()
  | cons event rest ih =>
    have first : event.steady = true := steady event (List.mem_cons_self ..)
    exact Succeeds.andThen (handleTransportEvent_succeeds first nowUnix)
      (fun _ _ _ => ih (fun event member => steady event (List.mem_cons_of_mem _ member)))

theorem propagationHandleEvent_succeeds {event : NodeEvent} (closing : event.closing = true) (nowUnix : Rat) :
    Succeeds (propagationHandleEvent prims ops event nowUnix) w := by
  obtain ⟨events, handled, steady⟩ := transportHandleEvent_steady ops closing w.env
  refine Succeeds.andThen (attempt_succeeds handled) (fun found after ok => ?_)
  obtain rfl : events = found := Except.ok.inj (handled.symm.trans (attempt_ok ok))
  exact Succeeds.modify_bind_iff.mpr (handleTransportEvents_succeeds steady nowUnix)

end Leviculum.Router
