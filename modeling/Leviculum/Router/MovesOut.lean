import Leviculum.Router.Queue

/-! The effects of uploading queued mail. -/

namespace Leviculum.Router

open Propagation (DestinationHash TransientId)
open Relation (ReflTransGen)
open Fallible (MovesFrom FailsAlong exec)

variable {Env : Type} {prims : Primitives} {may : Leave} (ops : NodeOps Env)

/-- The message queued under `id`, if any, goes by a propagation node. -/
def Uploads (id : MessageId) (w : World Env) : Prop :=
  ∀ entry, w.router.outbound.get? id = some entry → entry.message.method = .propagated

theorem Uploads.kept {id : MessageId} {w w' : World Env} (uploads : Uploads id w) (effects : Effects prims may w w') :
    Uploads id w' := by
  intro new held
  obtain ⟨old, before, -, same⟩ := effects.descends.entry id new held
  rw [same]
  exact uploads old before

namespace Effects

variable {w : World Env}

theorem chargeUpload {id : MessageId} {entry : OutboundEntry}
    (ends : may.ends ∧ may.fails ∨ entry.charge.attempts < maxDeliveryAttempts) (held : w.router.outbound.get? id = some entry)
    (uploads : Uploads id w) (nowMs : Nat) : Effects prims may w (w.chargeUpload id entry nowMs) := by
  unfold World.chargeUpload
  split
  next spent =>
    have ends : may.ends ∧ may.fails := ends.resolve_right (Nat.not_lt.mpr spent)
    exact conclude ends.1 held rfl (fun _ => ends.2)
  · rw [World.markDirty_eq]
    exact revise id _ true (fun old epochs => Revised.bookkeeping old _ _ old.progress epochs) (fun _ _ => rfl)
      (fun old _ here => .inr (uploads old here)) (fun _ _ _ => .inl (Bool.or_true _))

theorem retargetPropagation_attempts (old : OutboundEntry) (cost : Option UInt8) (epochs : BuildEpochs) :
    (old.retargetPropagation cost epochs).1.attempts = old.attempts := by
  unfold OutboundEntry.retargetPropagation
  split
  · rfl
  · split <;> rfl

theorem retargetPropagation_message (old : OutboundEntry) (cost : Option UInt8) (epochs : BuildEpochs) :
    (old.retargetPropagation cost epochs).1.message = old.message := by
  unfold OutboundEntry.retargetPropagation
  split
  · rfl
  · split <;> rfl

theorem retargetUpload (dirty : w.router.persistenceDirty = true) (nowMs : Nat) (id : MessageId) :
    Effects prims may w (w.retargetUpload nowMs id) := by
  unfold World.retargetUpload
  split
  · exact revise_after dirty id _
      (fun old epochs => (Revised.retargetPropagation old none epochs).trans (revised_setState .outbound nowMs _ _ _))
      (fun old epochs => (setState_message _ _ _).trans (retargetPropagation_message old none epochs))
      (fun old epochs => (setState_attempts _ _ _).trans (retargetPropagation_attempts old none epochs))
  · exact .refl

theorem revise_markDirty (id : MessageId) (write : OutboundEntry → BuildEpochs → OutboundEntry × BuildEpochs)
    (w : World Env) : w.markDirty.revise id write = (w.revise id write).markDirty := by
  unfold World.revise World.markDirty
  dsimp only
  split <;> rfl

theorem retargetUpload_markDirty (nowMs : Nat) (id : MessageId) (w : World Env) :
    w.markDirty.retargetUpload nowMs id = (w.retargetUpload nowMs id).markDirty := by
  unfold World.retargetUpload
  rw [revise_markDirty]
  have same : w.markDirty.router.outbound = w.router.outbound := rfl
  rw [same]
  split <;> rfl

theorem retargetUploads (nowMs : Nat) : Effects prims may w (w.retargetUploads nowMs).markDirty := by
  have loop : ∀ (ids : List MessageId) (w : World Env),
      Effects prims may w.markDirty (ids.foldl (World.retargetUpload nowMs) w).markDirty := by
    intro ids
    induction ids with
    | nil => exact fun w => .refl
    | cons id rest ih =>
      intro w
      have first : Effects prims may w.markDirty (w.markDirty.retargetUpload nowMs id) := retargetUpload rfl nowMs id
      rw [retargetUpload_markDirty] at first
      exact first.trans (ih _)
  exact (quiet (Quiet.markDirty w)).trans (loop _ w)

theorem retargetUpload_eq (nowMs : Nat) (id : MessageId)
    (still : ∀ entry, w.router.outbound.get? id = some entry → retargetChanges nowMs entry = false) :
    w.retargetUpload nowMs id = w := by
  unfold World.retargetUpload
  split
  next uploads =>
    obtain ⟨entry, held, method⟩ : ∃ entry, w.router.outbound.get? id = some entry ∧ entry.message.method = .propagated := by
      simpa [Option.any_eq_true] using uploads
    have unmoved := still entry held
    simp only [retargetChanges, method, true_and, decide_eq_false_iff_not, not_or, not_not] at unmoved
    obtain ⟨costless, state, time⟩ := unmoved
    have untouched : entry.retargetPropagation none w.router.buildEpochs = (entry, w.router.buildEpochs) := by
      unfold OutboundEntry.retargetPropagation
      split
      · rfl
      next prepared here =>
        have free : prepared.targetCost = none := by simpa [here] using costless
        rw [if_pos free]
    unfold World.revise
    rw [held]
    dsimp only
    rw [untouched, setState_same state]
    dsimp only
    have same : ({ entry with nextAttemptMs := nowMs } : OutboundEntry) = entry := by rw [← time]
    rw [same, OrdMap.insert_of_get? held]
  next => rfl

theorem retargetUploads_eq (nowMs : Nat)
    (still : w.router.outbound.values.any (retargetChanges nowMs) = false) : w.retargetUploads nowMs = w := by
  have quietly : ∀ id entry, w.router.outbound.get? id = some entry → retargetChanges nowMs entry = false := by
    intro id entry held
    have member : entry ∈ w.router.outbound.values := List.mem_map.mpr ⟨(id, entry), OrdMap.get?_eq_some.mp held, rfl⟩
    exact Bool.eq_false_iff.mpr (List.any_eq_false.mp still entry member)
  have loop : ∀ ids : List MessageId, ids.foldl (World.retargetUpload nowMs) w = w := by
    intro ids
    induction ids with
    | nil => rfl
    | cons id rest ih => rw [List.foldl_cons, retargetUpload_eq nowMs id (quietly id), ih]
  exact loop _

theorem switchNode (current : DestinationHash) (nowMs : Nat) : Effects prims may w (w.switchNode ops current nowMs) := by
  unfold World.switchNode
  split
  · split
    · exact .refl
    · exact (quiet (Quiet.setRuntime w _)).trans (retargetUploads nowMs)
  · exact .refl

theorem captureUpload {id : MessageId} {link : LinkId} {upload : PropagationUpload} {entry : OutboundEntry}
    (held : w.router.outbound.get? id = some entry)
    (made : PendingResourceBuild.MadeFrom ⟨id, w.router.restoreGeneration, entry.buildEpoch, .upload link upload⟩ entry)
    (nextAttemptMs : Nat) :
    Effects prims may w (((w.pushUploadBuild id link upload).emit (.resourceBuildPending id)).scheduleUploadRetry id
      nextAttemptMs) := by
  have pushed : w.pushUploadBuild id link upload = { w with
      router.pendingBuilds := w.router.pendingBuilds ++
        [⟨id, w.router.restoreGeneration, entry.buildEpoch, .upload link upload⟩]
      router.buildsOutstanding := insert id w.router.buildsOutstanding } := by
    unfold World.pushUploadBuild
    rw [held]
  rw [pushed]
  unfold World.scheduleUploadRetry World.revise World.emit
  dsimp only
  rw [held]
  dsimp only
  have revised := revised_setState .outbound nextAttemptMs .started entry w.router.buildEpochs
  refine ReflTransGen.trans ?_ (quiet (Quiet.emit ⟨_, w.env, w.out⟩ rfl))
  exact .single (.capture held ⟨rfl, rfl, rfl, made⟩ revised (setState_message entry .outbound w.router.buildEpochs)
    (setState_attempts entry .outbound w.router.buildEpochs) (setState_state entry .outbound w.router.buildEpochs) rfl rfl)

end Effects

namespace Moves

variable {w : World Env}

theorem ensurePreparedUpload (id : MessageId) (nowUnix : Rat) :
    Moves prims may (Router.ensurePreparedUpload prims ops id nowUnix) w := by
  refine MovesFrom.afterGet ?_
  split
  next => exact MovesFrom.ofThrow _
  next entry held =>
    split
    · exact MovesFrom.ofThrow _
    · split
      · refine MovesFrom.andThen (attempt _ _) (fun _ _ _ => ?_)
        refine MovesFrom.andThen (MovesFrom.ofModify (Effects.revise_dirty id _
          (fun old epochs => Revised.setPropagation old _ epochs) ?_ ?_)) (fun _ _ _ => MovesFrom.ofPure _)
        · intro old epochs
          unfold OutboundEntry.setPropagation
          split <;> rfl
        · intro old epochs
          unfold OutboundEntry.setPropagation
          split <;> rfl
      next prepared here =>
        refine MovesFrom.andThen (MovesFrom.ofModify (Effects.revise id _ _
          (fun old epochs => Revised.retargetPropagation old _ epochs)
          (fun old epochs => Effects.retargetPropagation_message old _ epochs)
          (fun old epochs _ => .inl (Effects.retargetPropagation_attempts old _ epochs)) ?_)) (fun _ _ _ => MovesFrom.ofPure _)
        · intro old epochs held'
          obtain rfl := Option.some.inj (held.symm.trans held')
          by_cases same : prepared.targetCost = selectedStampCost ops w
          · right
            unfold OutboundEntry.retargetPropagation
            rw [here]
            dsimp only
            rw [if_pos same]
          · left
            simp [same]

theorem deferUpload {id : MessageId} {link : LinkId} {upload : PropagationUpload} {entry : OutboundEntry}
    (held : w.router.outbound.get? id = some entry)
    (made : PendingResourceBuild.MadeFrom ⟨id, w.router.restoreGeneration, entry.buildEpoch, .upload link upload⟩ entry)
    (nowMs : Nat) : Moves prims may (Router.deferUpload prims ops id link upload nowMs) w := by
  refine MovesFrom.afterGet ?_
  split
  · exact MovesFrom.ofModify (Effects.scheduleUploadRetry id _)
  · split
    · exact MovesFrom.ofModify (Effects.captureUpload held made _)
    · exact MovesFrom.ofModify (Effects.scheduleUploadRetry id _)
    · exact MovesFrom.ofModify (Effects.scheduleUploadRetry id _)
    · exact MovesFrom.ofThrow _

theorem perform {Value : Type} (operation : Env → Value × Env) : Moves prims may (Router.perform operation) w :=
  Effects.quiet (Quiet.env w _)

theorem submitUpload (id : MessageId) (link : LinkId) (upload : PropagationUpload) (nowMs : Nat) :
    Moves prims may (Router.submitUpload ops id link upload nowMs) w := by
  refine MovesFrom.andThen (perform _) (fun _ _ _ => ?_)
  split
  · exact MovesFrom.ofModify ((Effects.quiet (Quiet.act _ _)).trans (Effects.uploadSubmitted ops id))
  · exact MovesFrom.ofModify (Effects.scheduleUploadRetry id _)
  · exact MovesFrom.ofModify (Effects.scheduleUploadRetry id _)
  · exact MovesFrom.ofModify (Effects.scheduleUploadRetry id _)
  · exact MovesFrom.ofModify (Effects.scheduleUploadRetry id _)
  · exact MovesFrom.ofModify ((Effects.quiet (Quiet.closeLink ops _ link)).trans (Effects.scheduleUploadRetry id _))
  · exact MovesFrom.ofModify ((Effects.quiet (Quiet.closeLink ops _ link)).trans (Effects.scheduleUploadRetry id _))
  · exact MovesFrom.ofModify ((Effects.quiet (Quiet.closeLink ops _ link)).trans (Effects.scheduleUploadRetry id _))
  · exact MovesFrom.ofThrow _

theorem uploadPrepared (id : MessageId) (link : LinkId) (nowMs : Nat) :
    Moves prims may (Router.uploadPrepared prims ops id link nowMs) w := by
  refine MovesFrom.afterGet ?_
  split
  next => exact MovesFrom.ofThrow _
  next prepared found =>
    obtain ⟨entry, held, envelope⟩ := Option.bind_eq_some_iff.mp found
    split
    next => exact MovesFrom.ofThrow _
    next stamp stamped =>
      dsimp only
      split
      · exact deferUpload ops held ⟨prepared, envelope, rfl, rfl, stamped.symm⟩ nowMs
      · exact submitUpload ops id link _ nowMs

theorem advancePrepared {id : MessageId} (ends : may.ends ∧ may.fails) (uploads : Uploads id w)
    (node : DestinationHash) (link : Option LinkId) (request : Option PropagationStampRequest) (nowMs : Nat) :
    Moves prims may (Router.advancePrepared prims ops id node link request nowMs) w := by
  refine MovesFrom.afterGet ?_
  split
  next => exact MovesFrom.ofPure ()
  next entry held =>
    have charged : ∀ {w : World Env} (more : Unit → Proc Env Unit), w.router.outbound.get? id = some entry → Uploads id w →
        (∀ w, Moves prims may (more ()) w) →
        Moves prims may (modify (World.chargeUpload id entry nowMs) >>= more) w := by
      intro w more held uploads rest
      exact MovesFrom.andThen (MovesFrom.ofModify (Effects.chargeUpload (.inl ends) held uploads nowMs)) (fun _ _ _ => rest _)
    split
    · dsimp only
      have asked : ∀ w : World Env, Moves prims may (if maxDeliveryAttempts ≤ entry.charge.attempts then pure ()
          else modify (World.requestPath ops node none) : Proc Env Unit) w := by
        intro w
        split
        · exact MovesFrom.ofPure ()
        · exact ofQuiet (fun w => Quiet.requestPath ops w _ _)
      split
      · refine MovesFrom.afterModify (Effects.quiet (Quiet.env w _)) ?_
        exact charged _ held uploads asked
      · exact charged _ held uploads asked
    · split
      · exact MovesFrom.ofModify ((Effects.postpone id _).trans (Effects.quiet (Quiet.emit _ rfl)))
      · split
        · refine charged _ held uploads (fun w => ?_)
          split
          · exact MovesFrom.ofPure ()
          · exact MovesFrom.andThen (attempt _ _) (fun _ _ _ => ofQuiet (fun w => Quiet.act w _))
        · exact uploadPrepared ops id _ nowMs

theorem exec_tryProc {Value : Type} (proc : Proc Env Value) (w : World Env) :
    exec (tryProc proc) w = (.ok (exec proc w).1, (exec proc w).2) := rfl

theorem advanceUpload {id : MessageId} (ends : may.ends ∧ may.fails) (uploads : Uploads id w)
    (node : DestinationHash) (link : Option LinkId) (nowMs : Nat) (nowUnix : Rat) :
    Moves prims may (Router.advanceUpload prims ops id node link nowMs nowUnix) w := by
  refine MovesFrom.afterGet ?_
  split
  next => exact MovesFrom.ofPure ()
  next entry held =>
    split
    next => exact MovesFrom.ofModify (Effects.conclude ends.1 held rfl (fun _ => ends.2))
    next =>
      split
      · exact MovesFrom.ofModify ((Effects.postpone id _).trans
          (Effects.quiet ((Quiet.markDirty _).trans (Quiet.emit _ rfl))))
      · have prepared : Effects prims may w (exec (Router.ensurePreparedUpload prims ops id nowUnix) w).2 :=
          ensurePreparedUpload ops id nowUnix
        refine MovesFrom.andThen ?_ (fun result after ran => ?_)
        · unfold MovesFrom
          rw [exec_tryProc]
          exact prepared
        · rw [exec_tryProc] at ran
          obtain ⟨-, rfl⟩ := Prod.mk.inj ran
          split
          · exact advancePrepared ops ends (uploads.kept prepared) node link _ nowMs
          · exact MovesFrom.ofModify ((Effects.postpone id _).trans
              (Effects.quiet ((Quiet.requestPath ops _ _ _).trans (Quiet.markDirty _))))
          · exact MovesFrom.ofThrow _

theorem uploads_of_dueUpload {nowMs : Nat} {id : MessageId} (due : dueUpload w.router nowMs = some id) :
    Uploads id w := by
  intro entry held
  obtain ⟨e, found, rfl⟩ := Option.map_eq_some_iff.mp due
  have member : w.router.outbound.get? e.1 = some e.2 := OrdMap.get?_eq_some.mpr (List.mem_of_find?_eq_some found)
  obtain rfl := Option.some.inj (held.symm.trans member)
  have picked := List.find?_some found
  simp only [decide_eq_true_eq] at picked
  exact picked.1

theorem tickOutbound (ends : may.ends ∧ may.fails) (nowUnix : Rat) :
    Moves prims may (Router.tickOutbound prims ops nowUnix) w := by
  refine MovesFrom.afterGet ?_
  dsimp only
  split
  next => exact MovesFrom.ofPure ()
  next current _ =>
    refine MovesFrom.afterModify (Effects.switchNode ops current _) ?_
    refine MovesFrom.afterGet ?_
    split
    · exact MovesFrom.ofPure ()
    · split
      next => exact MovesFrom.ofPure ()
      next id due => exact advanceUpload ops ends (uploads_of_dueUpload due) _ _ _ nowUnix

theorem propagationTick (ends : may.ends ∧ may.fails) (nowUnix : Rat) :
    Moves prims may (Router.propagationTick prims ops nowUnix) w :=
  MovesFrom.andThen (ofQuiet (fun w => Quiet.refreshOrphanedNodes ops w))
    (fun _ _ _ => MovesFrom.andThen (tickClient ops) (fun _ _ _ => tickOutbound ops ends nowUnix))

end Moves

/-! A propagation part that fails has ended no message: an upload is only given up where nothing follows. -/

namespace Fails

variable {w : World Env}

theorem advancePrepared {id : MessageId} (uploads : Uploads id w) (node : DestinationHash) (link : Option LinkId)
    (request : Option PropagationStampRequest) (nowMs : Nat) :
    FailsAlong (Effect prims may) (Router.advancePrepared prims ops id node link request nowMs) w := by
  refine FailsAlong.afterGet ?_
  split
  next => exact FailsAlong.ofPure ()
  next entry held =>
    split
    · dsimp only
      have safe : ∀ (w : World Env) (error : RouterError) (after : World Env),
          exec (if maxDeliveryAttempts ≤ entry.charge.attempts then pure ()
            else modify (World.requestPath ops node none) : Proc Env Unit) w ≠ (.error error, after) := by
        intro w error after failed
        split at failed
        · cases (Prod.mk.inj failed).1
        · cases (Prod.mk.inj failed).1
      split
      · refine FailsAlong.andThen (MovesFrom.ofModify (Effects.quiet (Quiet.env w _))) (fun _ _ _ => ?_)
        exact FailsAlong.beforeSafe (safe _)
      · exact FailsAlong.beforeSafe (safe _)
    · split
      · exact FailsAlong.ofModify _
      · split
        · by_cases spent : maxDeliveryAttempts ≤ entry.charge.attempts
          · refine FailsAlong.beforeSafe (fun error after failed => ?_)
            rw [if_pos spent, Fallible.exec_pure] at failed
            cases (Prod.mk.inj failed).1
          · have charged : Effects prims may w (w.chargeUpload id entry nowMs) :=
              Effects.chargeUpload (.inr (Nat.lt_of_not_le spent)) held uploads nowMs
            refine FailsAlong.ofMoves (MovesFrom.afterModify charged ?_)
            rw [if_neg spent]
            exact MovesFrom.andThen (Moves.attempt _ _) (fun _ _ _ => Moves.ofQuiet (fun w => Quiet.act w _))
        · exact FailsAlong.ofMoves (Moves.uploadPrepared ops id _ nowMs)

theorem advanceUpload {id : MessageId} (uploads : Uploads id w) (node : DestinationHash) (link : Option LinkId)
    (nowMs : Nat) (nowUnix : Rat) :
    FailsAlong (Effect prims may) (Router.advanceUpload prims ops id node link nowMs nowUnix) w := by
  refine FailsAlong.afterGet ?_
  split
  next => exact FailsAlong.ofPure ()
  next entry held =>
    split
    · exact FailsAlong.ofModify _
    · split
      · exact FailsAlong.ofModify _
      · have prepared : Effects prims may w (exec (Router.ensurePreparedUpload prims ops id nowUnix) w).2 :=
          Moves.ensurePreparedUpload ops id nowUnix
        refine FailsAlong.andThen ?_ (fun result after ran => ?_)
        · unfold MovesFrom
          rw [Moves.exec_tryProc]
          exact prepared
        · rw [Moves.exec_tryProc] at ran
          obtain ⟨-, rfl⟩ := Prod.mk.inj ran
          split
          · exact advancePrepared ops (uploads.kept prepared) node link _ nowMs
          · exact FailsAlong.ofModify _
          · exact FailsAlong.ofMoves (MovesFrom.ofThrow _)

theorem tickOutbound (nowUnix : Rat) : FailsAlong (Effect prims may) (Router.tickOutbound prims ops nowUnix) w := by
  refine FailsAlong.afterGet ?_
  dsimp only
  split
  next => exact FailsAlong.ofPure ()
  next current _ =>
    refine FailsAlong.andThen (MovesFrom.ofModify (Effects.switchNode ops current _)) (fun _ after _ => ?_)
    refine FailsAlong.afterGet ?_
    split
    · exact FailsAlong.ofPure ()
    · split
      next => exact FailsAlong.ofPure ()
      next id due => exact advanceUpload ops (Moves.uploads_of_dueUpload due) _ _ _ nowUnix

theorem propagationTick (nowUnix : Rat) : FailsAlong (Effect prims may) (Router.propagationTick prims ops nowUnix) w :=
  FailsAlong.andThen (Moves.ofQuiet (fun w => Quiet.refreshOrphanedNodes ops w))
    (fun _ _ _ => FailsAlong.andThen (Moves.tickClient ops) (fun _ _ _ => tickOutbound ops nowUnix))

end Fails

end Leviculum.Router
