import Leviculum.Router.Deed

/-! One call at a time: starting a message, saving and restoring do what is said here, and every other
call does deeds only. -/

namespace Leviculum.Router

open Propagation (DestinationHash TransientId)
open Fallible (MovesFrom exec)

variable {Env : Type} {prims : Primitives} {may : Leave}

structure Queued (w w' : World Env) (entry : OutboundEntry) : Prop where
  fresh : w.router.outbound.get? entry.message.messageId = none
  postable : entry.message.method ≠ .paper
  room : w.router.outbound.size < w.router.config.maxOutbound
  start : entry.attempts = 0 ∧ entry.propagation = none ∧ entry.buildEpoch = w.router.buildEpochs.next
  router : w'.router = { w.router with
    outbound := w.router.outbound.insert entry.message.messageId entry
    buildEpochs := w.router.buildEpochs.advance
    nextJobMs := w'.router.nextJobMs
    persistenceDirty := true }
  out : w'.out = { w.out with events := w.out.events ++ [.messageQueued entry.message.messageId] }

theorem ticketStamped_ok {tickets : TicketStore} {message stamped : Message} {time : Rat}
    (ok : ticketStamped prims tickets message time = .ok stamped) :
    stamped.messageId = message.messageId ∧ stamped.method = message.method := by
  unfold ticketStamped at ok
  split at ok
  · cases ok
    exact ⟨rfl, rfl⟩
  · obtain rfl := Message.setStamp_eq_ok ok
    exact ⟨rfl, rfl⟩

theorem enqueue_cases (ops : NodeOps Env) (message : Message) (w : World Env) :
    (∃ error, exec (enqueue prims ops message) w = (.error error, w)) ∨
      ∃ entry w', exec (enqueue prims ops message) w = (.ok (), w') ∧ Queued w w' entry ∧
        entry.message.messageId = message.messageId := by
  unfold enqueue
  rw [Fallible.exec_get_bind]
  dsimp only
  split
  · exact .inl ⟨_, rfl⟩
  next postable =>
    split
    · exact .inl ⟨_, rfl⟩
    · split
      · exact .inl ⟨_, rfl⟩
      next absent =>
        split
        · exact .inl ⟨_, rfl⟩
        next room =>
          split
          · exact .inl ⟨_, rfl⟩
          next stamped ok =>
            split
            · exact .inl ⟨_, rfl⟩
            · right
              obtain ⟨sameId, sameMethod⟩ := ticketStamped_ok ok
              refine ⟨⟨stamped, .outbound, 0, w.nowMs ops, .started, none, w.router.buildEpochs.next⟩, _, rfl,
                ⟨?_, ?_, Nat.lt_of_not_le room, ⟨rfl, rfl, rfl⟩, rfl, rfl⟩, sameId⟩
              · dsimp only
                rw [sameId]
                exact OrdMap.contains_eq_false.mp (Bool.eq_false_iff.mpr absent)
              · dsimp only
                rw [sameMethod]
                exact postable

theorem Step.enqueue_run (ops : NodeOps Env) (message : Message) (w : World Env) :
    (∃ error, Step.run prims ⟨ops, .enqueue message⟩ w = (.error error, w.idle)) ∨
      ∃ entry w', Step.run prims ⟨ops, .enqueue message⟩ w = (.ok .output, w') ∧ Queued w.idle w' entry ∧
        entry.message.messageId = message.messageId := by
  rcases enqueue_cases ops message w.idle with ⟨error, failed⟩ | ⟨entry, w', ok, queued, same⟩
  · exact .inl ⟨error, Fallible.exec_bind_error failed _⟩
  · exact .inr ⟨entry, w', Fallible.exec_bind_ok ok _, queued, same⟩

theorem persist_cases (stored : Bool) (w : World Env) :
    (∃ error, exec (persist prims stored) w = (.error error, w)) ∨
      (w.router.validatePersistenceLimits prims = .ok () ∧
        w.router.checkpoint.encodedLen prims ≤ w.router.config.maxSnapshotBytes ∧
        exec (persist prims stored) w = (.ok w.router.checkpoint, { w with router.persistenceDirty := false })) := by
  unfold persist
  rw [Fallible.exec_get_bind]
  split
  · exact .inl ⟨_, rfl⟩
  next valid =>
    dsimp only
    split
    · exact .inl ⟨_, rfl⟩
    next fits =>
      split
      · exact .inl ⟨_, rfl⟩
      · exact .inr ⟨valid, Nat.le_of_not_lt fits, rfl⟩

theorem Step.persist_run (ops : NodeOps Env) (stored : Bool) (w : World Env) :
    (∃ error, Step.run prims ⟨ops, .persist stored⟩ w = (.error error, w.idle)) ∨
      (w.router.validatePersistenceLimits prims = .ok () ∧
        w.router.checkpoint.encodedLen prims ≤ w.router.config.maxSnapshotBytes ∧
        Step.run prims ⟨ops, .persist stored⟩ w =
          (.ok (.saved w.router.checkpoint), { w.idle with router.persistenceDirty := false })) := by
  rcases persist_cases stored w.idle with ⟨error, failed⟩ | ⟨valid, fits, ok⟩
  · exact .inl ⟨error, Fallible.exec_bind_error failed _⟩
  · exact .inr ⟨valid, fits, Fallible.exec_bind_ok ok _⟩

theorem Snapshot.decodeOutbound_forward (entries : List (MessageId × OutboundEntry)) (sofar : OrdMap MessageId OutboundEntry)
    (epochs : BuildEpochs) : epochs.minted ≤ (Snapshot.decodeOutbound prims entries sofar epochs).2.minted := by
  induction entries generalizing sofar epochs with
  | nil => exact Nat.le_refl _
  | cons e rest ih =>
    unfold Snapshot.decodeOutbound
    dsimp only
    split
    · exact Nat.le_refl _
    · split
      · exact Nat.le_succ _
      · exact (Nat.le_succ _).trans (ih _ _)

theorem Snapshot.decode_forward (router : LxmfRouter) (snapshot : Snapshot) :
    router.buildEpochs.minted ≤ (snapshot.decode prims router).2.minted := by
  have forward : router.buildEpochs.minted ≤
      (Snapshot.decodeOutbound prims snapshot.outbound.entries ∅ router.buildEpochs).2.minted :=
    Snapshot.decodeOutbound_forward _ _ _
  unfold Snapshot.decode
  split
  · exact Nat.le_refl _
  · split
    next bad => rwa [bad] at forward
    next good =>
      rw [good] at forward
      split <;> exact forward

theorem restore_cases (snapshot : Option Snapshot) (w : World Env) :
    (snapshot = none ∧ exec (restore prims snapshot) w = (.ok (), w)) ∨
      (∃ error epochs, w.router.buildEpochs.minted ≤ epochs.minted ∧
        exec (restore prims snapshot) w = (.error error, { w with router.buildEpochs := epochs })) ∨
      ∃ found outbound epochs, snapshot = some found ∧ found.decode prims w.router = (.ok outbound, epochs) ∧
        found.encodedLen prims ≤ w.router.config.maxSnapshotBytes ∧
        exec (restore prims snapshot) w = (.ok (), w.installSnapshot found outbound epochs) := by
  unfold restore
  rw [Fallible.exec_get_bind]
  split
  next => exact .inl ⟨rfl, rfl⟩
  next found =>
    right
    split
    · exact .inl ⟨_, w.router.buildEpochs, Nat.le_refl _, rfl⟩
    next fits =>
      have forward : w.router.buildEpochs.minted ≤ (found.decode prims w.router).2.minted :=
        Snapshot.decode_forward w.router found
      split
      next error epochs decoded =>
        rw [decoded] at forward
        exact .inl ⟨error, epochs, forward, rfl⟩
      next outbound epochs decoded => exact .inr ⟨found, outbound, epochs, rfl, decoded, Nat.le_of_not_lt fits, rfl⟩

theorem Step.restore_run (ops : NodeOps Env) (snapshot : Option Snapshot) (w : World Env) :
    (snapshot = none ∧ Step.run prims ⟨ops, .restore snapshot⟩ w = (.ok .done, w.idle)) ∨
      (∃ error epochs, w.router.buildEpochs.minted ≤ epochs.minted ∧
        Step.run prims ⟨ops, .restore snapshot⟩ w = (.error error, { w.idle with router.buildEpochs := epochs })) ∨
      ∃ found outbound epochs, snapshot = some found ∧ found.decode prims w.router = (.ok outbound, epochs) ∧
        found.encodedLen prims ≤ w.router.config.maxSnapshotBytes ∧
        Step.run prims ⟨ops, .restore snapshot⟩ w = (.ok .done, w.idle.installSnapshot found outbound epochs) := by
  rcases restore_cases snapshot w.idle with ⟨none, ok⟩ | ⟨error, epochs, forward, failed⟩ |
    ⟨found, outbound, epochs, here, decoded, fits, ok⟩
  · exact .inl ⟨none, Fallible.exec_bind_ok ok _⟩
  · exact .inr (.inl ⟨error, epochs, forward, Fallible.exec_bind_error failed _⟩)
  · exact .inr (.inr ⟨found, outbound, epochs, here, decoded, fits, Fallible.exec_bind_ok ok _⟩)

theorem Step.returned_persist (ops : NodeOps Env) (stored : Bool) (w : World Env) :
    Step.returned prims ⟨ops, .persist stored⟩ w = none := by
  unfold Step.returned
  rcases Step.persist_run ops stored w with ⟨error, ran⟩ | ⟨-, -, ran⟩
  · rw [ran]
  · rw [ran]
    rfl

theorem Step.returned_restore (ops : NodeOps Env) (snapshot : Option Snapshot) (w : World Env) :
    Step.returned prims ⟨ops, .restore snapshot⟩ w = none := by
  unfold Step.returned
  rcases Step.restore_run ops snapshot w with ⟨-, ran⟩ | ⟨error, epochs, -, ran⟩ | ⟨_, _, _, _, _, _, ran⟩
  · rw [ran]
    rfl
  · rw [ran]
  · rw [ran]
    rfl

/-- The calls that move the checkpoint or start a message. -/
def Call.special : Call Env → Bool
  | .enqueue _ | .persist _ | .restore _ => true
  | _ => false

theorem Call.special_cases {call : Call Env} (special : call.special = true) :
    (∃ message, call = .enqueue message) ∨ (∃ stored, call = .persist stored) ∨ ∃ snapshot, call = .restore snapshot := by
  cases call <;> first
    | exact .inl ⟨_, rfl⟩
    | exact .inr (.inl ⟨_, rfl⟩)
    | exact .inr (.inr ⟨_, rfl⟩)
    | cases special

/-- The calls that can end a queued message. -/
def Step.ends (step : Step Env) : Prop :=
  match step.call with
  | .cancel _ | .tick => True
  | .handleEvent event => event.closing = true
  | _ => False

/-- Every other call does deeds only. -/
theorem Step.deeds {step : Step Env} {w : World Env} (plain : step.call.special = false)
    (served : step.call = .tick → may.slip ∨ TickServed step.ops prims w.idle)
    (ends : may.ends ∨ ¬step.ends) (fails : may.fails ∨ step.call ≠ .tick) :
    Deeds prims may w.idle (step.run prims w).2 := by
  obtain ⟨ops, call⟩ := step
  have path : Does prims may (Step.proc prims ⟨ops, call⟩) w.idle := by
    cases call with
    | host change => exact Does.replying (Moves.does (Moves.ofQuiet (fun w => Quiet.env w _))) (fun _ => .done)
    | enablePropagationClient identity config =>
      exact Does.replying (Does.enablePropagationClient identity config) (fun _ => .done)
    | disablePropagationClient =>
      exact Does.replying (Moves.does (Moves.ofQuiet (fun w => Quiet.setPropagation w none))) (fun _ => .done)
    | issueTicketField destination secret =>
      exact Does.replying (Does.issueTicketField ops destination secret) Reply.field
    | ignore source => exact Does.replying (Does.ignore source) (fun _ => .done)
    | unignore source => exact Does.replying (Does.unignore source) (fun _ => .done)
    | replaceIgnored ignored => exact Does.replying (Does.replaceIgnored ignored) (fun _ => .output)
    | enqueue message => cases plain
    | cancel id => exact Does.replying (Moves.does (Moves.cancel ops (ends.resolve_right (fun endless => endless trivial)) id)) (fun _ => .output)
    | setOutboundStamp id stamp nowMs => exact Does.replying (Does.setOutboundStamp id stamp nowMs) (fun _ => .output)
    | setOutboundStampResult request stamp =>
      exact Does.replying (Does.setOutboundStampResult ops request stamp) (fun _ => .output)
    | setOutboundPropagationStamp id stamp nowMs =>
      exact Does.replying (Moves.does (Moves.setOutboundPropagationStamp id stamp nowMs)) (fun _ => .output)
    | setOutboundPropagationStampResult request stamp nowMs =>
      exact Does.replying (Moves.does (Moves.setOutboundPropagationStampResult request stamp nowMs)) (fun _ => .output)
    | takeResourceBuilds => exact Does.replying Does.takeResourceBuilds Reply.builds
    | commitResourceBuild built =>
      exact Does.replying (Moves.does (Moves.commitResourceBuild ops built)) (fun _ => .output)
    | handleEvent event => exact Does.replying (Moves.does (Moves.handleEvent ops (ends.imp_right Bool.eq_false_iff.mpr))) (fun _ => .output)
    | tick =>
      have ends : may.ends ∧ may.fails :=
        ⟨ends.resolve_right (fun endless => endless trivial), fails.resolve_right (fun other => other rfl)⟩
      exact Does.replying (Moves.does (Moves.tick (w := w.idle) ops ends (served rfl))) (fun _ => .output)
    | setInboundStampResult request valid =>
      exact Does.replying (Does.setInboundStampResult request valid) (fun _ => .output)
    | ingestPaper paper => exact Does.replying (Does.ingestPaper ops paper) (fun _ => .output)
    | deliverPropagatedLocal unstamped =>
      exact Does.replying (Moves.does (Moves.deliverPropagatedLocal ops unstamped)) (fun _ => .output)
    | setOutboundPropagationNode destination =>
      exact Does.replying (Moves.does (Moves.setOutboundPropagationNode ops destination)) (fun _ => .output)
    | selectOutboundPropagationNode preferred =>
      exact Does.replying (Moves.does (Moves.selectOutboundPropagationNode ops preferred)) (fun _ => .output)
    | requestMessagesFromPropagationNode maxMessages =>
      exact Does.replying (Moves.does (Moves.requestMessagesFromPropagationNode ops maxMessages)) (fun _ => .output)
    | cancelPropagationNodeRequests =>
      exact Does.replying (Moves.does (Moves.cancelPropagationNodeRequests ops)) (fun _ => .output)
    | setPropagationPathTimeoutMs timeout =>
      exact Does.replying (Moves.does (Moves.setPropagationPathTimeoutMs timeout)) (fun _ => .done)
    | persist stored => cases plain
    | restore snapshot => cases plain
  exact path

end Leviculum.Router
