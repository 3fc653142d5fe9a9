import Leviculum.Router.MovesOut

/-! What the work on one message leaves of another: the propagation part of a tick does not touch a direct
or opportunistic message, and the job does not touch one while it goes through another. -/

namespace Leviculum.Router

open Propagation (DestinationHash TransientId)
open Relation (ReflTransGen)
open Fallible (MovesFrom exec)

variable {Env : Type} {prims : Primitives} (ops : NodeOps Env)

/-- The event reports the end of `id`. -/
def RouterEvent.ends (id : MessageId) : RouterEvent → Bool
  | .messageState other state => other = id ∧ state.terminal
  | _ => false

/-- How often the events report the end of `id`. -/
def endings (id : MessageId) (events : List RouterEvent) : Nat := events.countP (RouterEvent.ends id)

theorem endings_append (id : MessageId) (early late : List RouterEvent) :
    endings id (early ++ late) = endings id early + endings id late := List.countP_append

theorem endings_of_quiet {id : MessageId} {events : List RouterEvent} (quiet : ∀ event ∈ events, event.quiet = true) :
    endings id events = 0 := by
  refine List.countP_eq_zero.mpr (fun event member ends => ?_)
  have still := quiet event member
  cases event with
  | messageState other state =>
    simp only [RouterEvent.ends, decide_eq_true_eq] at ends
    simp only [RouterEvent.quiet, ends.2, Bool.not_true] at still
    cases still
  | _ => cases ends

/-- The entry of `id` and the time of the job stay as they are, and no end of `id` is reported. -/
structure Spares (id : MessageId) (w w' : World Env) : Prop where
  entry : w'.router.outbound.get? id = w.router.outbound.get? id
  job : w'.router.nextJobMs = w.router.nextJobMs
  ends : endings id w'.out.events = endings id w.out.events

namespace Spares

variable {id other : MessageId} {w w' w'' : World Env}

theorem refl (w : World Env) : Spares id w w := ⟨rfl, rfl, rfl⟩

theorem trans (first : Spares id w w') (second : Spares id w' w'') : Spares id w w'' :=
  ⟨second.entry.trans first.entry, second.job.trans first.job, second.ends.trans first.ends⟩

theorem ofPath (path : ReflTransGen (Spares id) w w') : Spares id w w' := by
  induction path with
  | refl => exact refl w
  | tail _ last ih => exact ih.trans last

theorem ofQuiet (quiet : Quiet w w') : Spares id w w' where
  entry := by rw [quiet.router]
  job := by rw [quiet.router]
  ends := by
    obtain ⟨events, said, quiet⟩ := quiet.events
    rw [said, endings_append, endings_of_quiet quiet]
    rfl

theorem revise (apart : other ≠ id) (write : OutboundEntry → BuildEpochs → OutboundEntry × BuildEpochs) (w : World Env) :
    Spares id w (w.revise other write) := by
  unfold World.revise
  split
  · exact refl w
  · refine ⟨?_, rfl, rfl⟩
    dsimp only
    rw [OrdMap.get?_insert, if_neg apart.symm]

theorem conclude (apart : other ≠ id) (state : MessageState) (w : World Env) : Spares id w (w.conclude other state) where
  entry := by
    change (w.router.outbound.erase other).get? id = w.router.outbound.get? id
    rw [OrdMap.get?_erase, if_neg apart.symm]
  job := rfl
  ends := by
    change endings id (w.out.events ++ [.messageState other state]) = endings id w.out.events
    rw [endings_append]
    simp [endings, RouterEvent.ends, apart]

theorem scheduleUploadRetry (apart : other ≠ id) (nextAttemptMs : Nat) (w : World Env) :
    Spares id w (w.scheduleUploadRetry other nextAttemptMs) := by
  unfold World.scheduleUploadRetry
  split
  · exact refl w
  · exact (revise apart _ w).trans (ofQuiet (Quiet.markDirty _))

theorem uploadSubmitted (apart : other ≠ id) (w : World Env) : Spares id w (w.uploadSubmitted ops other) := by
  unfold World.uploadSubmitted
  split
  · exact refl w
  next entry _ =>
    dsimp only
    have reported : Spares id w (if entry.state = .sending then w else w.emit (.messageState other .sending)) := by
      split
      · exact refl w
      · exact ofQuiet (Quiet.emit w rfl)
    exact (reported.trans (revise apart _ _)).trans (ofQuiet (Quiet.markDirty _))

theorem chargeUpload (apart : other ≠ id) (entry : OutboundEntry) (nowMs : Nat) (w : World Env) :
    Spares id w (w.chargeUpload other entry nowMs) := by
  unfold World.chargeUpload
  split
  · exact conclude apart .failed w
  · exact (revise apart _ w).trans (ofQuiet (Quiet.markDirty _))

theorem pushUploadBuild (link : LinkId) (upload : PropagationUpload) (w : World Env) :
    Spares id w (w.pushUploadBuild other link upload) := by
  unfold World.pushUploadBuild
  split
  · exact refl w
  · exact ⟨rfl, rfl, rfl⟩

theorem retargetUpload {entry : OutboundEntry} (held : w.router.outbound.get? id = some entry)
    (direct : entry.message.method ≠ .propagated) (nowMs : Nat) (other : MessageId) :
    Spares id w (w.retargetUpload nowMs other) := by
  unfold World.retargetUpload
  split
  next uploads =>
    refine revise (fun same => direct ?_) _ w
    simpa [same, held] using uploads
  next => exact refl w

theorem switchNode {entry : OutboundEntry} (held : w.router.outbound.get? id = some entry)
    (direct : entry.message.method ≠ .propagated) (current : DestinationHash) (nowMs : Nat) :
    Spares id w (w.switchNode ops current nowMs) := by
  have loop : ∀ (others : List MessageId) (w : World Env), w.router.outbound.get? id = some entry →
      Spares id w (others.foldl (World.retargetUpload nowMs) w) := by
    intro others
    induction others with
    | nil => exact fun w _ => refl w
    | cons other rest ih =>
      intro w held
      have first : Spares id w (w.retargetUpload nowMs other) := retargetUpload held direct nowMs other
      exact first.trans (ih _ (first.entry.trans held))
  unfold World.switchNode
  split
  · split
    · exact refl w
    · exact ((ofQuiet (Quiet.setRuntime w _)).trans (loop _ _ held)).trans (ofQuiet (Quiet.markDirty _))
  · exact refl w

theorem anchorWallClock (nowUnix : Rat) (nowMs : Nat) (w : World Env) :
    Spares id w (w.anchorWallClock nowUnix nowMs) := by
  unfold World.anchorWallClock
  dsimp only
  split
  · exact ⟨rfl, rfl, rfl⟩
  · split
    · exact ⟨rfl, rfl, rfl⟩
    · exact ⟨rfl, rfl, rfl⟩

end Spares

/-! ### The propagation part of a tick -/

namespace Sparing

variable {id other : MessageId} {w : World Env} {Value : Type}

theorem ofQuiet {proc : Proc Env Value} (quiet : MovesFrom Quiet proc w) : MovesFrom (Spares id) proc w :=
  quiet.mono (fun _ _ => Spares.ofQuiet)

theorem ofModify {write : World Env → World Env} (spares : ∀ w, Spares id w (write w)) :
    MovesFrom (Spares id) (modify write : Proc Env Unit) w := MovesFrom.ofModify (.single (spares w))

theorem ensurePreparedUpload (apart : other ≠ id) (nowUnix : Rat) :
    MovesFrom (Spares id) (Router.ensurePreparedUpload prims ops other nowUnix) w := by
  refine MovesFrom.afterGet ?_
  split
  · exact MovesFrom.ofThrow _
  · split
    · exact MovesFrom.ofThrow _
    · split
      · refine MovesFrom.andThen (ofQuiet (Moves.attempt_quiet _ _)) (fun _ _ _ => ?_)
        refine MovesFrom.andThen (ofModify (fun w => ?_)) (fun _ _ _ => MovesFrom.ofPure _)
        exact (Spares.revise apart _ w).trans (Spares.ofQuiet (Quiet.markDirty _))
      · refine MovesFrom.andThen (ofModify (fun w => ?_)) (fun _ _ _ => MovesFrom.ofPure _)
        exact (Spares.revise apart _ w).trans (Spares.ofQuiet (Quiet.markDirtyIf _ _))

theorem deferUpload (apart : other ≠ id) (link : LinkId) (upload : PropagationUpload) (nowMs : Nat) :
    MovesFrom (Spares id) (Router.deferUpload prims ops other link upload nowMs) w := by
  refine MovesFrom.afterGet ?_
  split
  · exact ofModify (Spares.scheduleUploadRetry apart _)
  · split
    · exact ofModify (fun w => ((Spares.pushUploadBuild link upload w).trans
        (Spares.ofQuiet (Quiet.emit _ rfl))).trans (Spares.scheduleUploadRetry apart _ _))
    · exact ofModify (Spares.scheduleUploadRetry apart _)
    · exact ofModify (Spares.scheduleUploadRetry apart _)
    · exact MovesFrom.ofThrow _

theorem submitUpload (apart : other ≠ id) (link : LinkId) (upload : PropagationUpload) (nowMs : Nat) :
    MovesFrom (Spares id) (Router.submitUpload ops other link upload nowMs) w := by
  have closed (at' : Nat) (w : World Env) : Spares id w ((w.closeLink ops link).scheduleUploadRetry other at') :=
    (Spares.ofQuiet (Quiet.closeLink ops w link)).trans (Spares.scheduleUploadRetry apart _ _)
  have asked : MovesFrom (Spares id) (perform (ops.submitUpload link other upload)) w :=
    .single (Spares.ofQuiet (Quiet.env w _))
  refine MovesFrom.andThen asked (fun _ _ _ => ?_)
  split
  · exact ofModify (fun w => (Spares.ofQuiet (Quiet.act w _)).trans (Spares.uploadSubmitted ops apart _))
  · exact ofModify (Spares.scheduleUploadRetry apart _)
  · exact ofModify (Spares.scheduleUploadRetry apart _)
  · exact ofModify (Spares.scheduleUploadRetry apart _)
  · exact ofModify (Spares.scheduleUploadRetry apart _)
  · exact ofModify (closed _)
  · exact ofModify (closed _)
  · exact ofModify (closed _)
  · exact MovesFrom.ofThrow _

theorem uploadPrepared (apart : other ≠ id) (link : LinkId) (nowMs : Nat) :
    MovesFrom (Spares id) (Router.uploadPrepared prims ops other link nowMs) w := by
  refine MovesFrom.afterGet ?_
  split
  · exact MovesFrom.ofThrow _
  · split
    · exact MovesFrom.ofThrow _
    · dsimp only
      split
      · exact deferUpload ops apart link _ nowMs
      · exact submitUpload ops apart link _ nowMs

theorem advancePrepared (apart : other ≠ id) (node : DestinationHash) (link : Option LinkId)
    (request : Option PropagationStampRequest) (nowMs : Nat) :
    MovesFrom (Spares id) (Router.advancePrepared prims ops other node link request nowMs) w := by
  refine MovesFrom.afterGet ?_
  split
  · exact MovesFrom.ofPure ()
  next entry _ =>
    have charged {w : World Env} (more : Unit → Proc Env Unit) (rest : ∀ w, MovesFrom (Spares id) (more ()) w) :
        MovesFrom (Spares id) (modify (World.chargeUpload other entry nowMs) >>= more) w :=
      MovesFrom.andThen (ofModify (Spares.chargeUpload apart entry nowMs)) (fun _ after _ => rest after)
    split
    · dsimp only
      have asked (w : World Env) : MovesFrom (Spares id) (if maxDeliveryAttempts ≤ entry.charge.attempts then pure ()
          else modify (World.requestPath ops node none) : Proc Env Unit) w := by
        split
        · exact MovesFrom.ofPure ()
        · exact ofModify (fun w => Spares.ofQuiet (Quiet.requestPath ops w _ _))
      split
      · exact MovesFrom.afterModify (.single (Spares.ofQuiet (Quiet.env w _))) (charged _ asked)
      · exact charged _ asked
    · split
      · exact ofModify (fun w => (Spares.revise apart _ w).trans (Spares.ofQuiet (Quiet.emit _ rfl)))
      · split
        · refine charged _ (fun w => ?_)
          split
          · exact MovesFrom.ofPure ()
          · exact MovesFrom.andThen (ofQuiet (Moves.attempt_quiet _ _))
              (fun _ _ _ => ofModify (fun w => Spares.ofQuiet (Quiet.act w _)))
        · exact uploadPrepared ops apart _ nowMs

theorem advanceUpload (apart : other ≠ id) (node : DestinationHash) (link : Option LinkId) (nowMs : Nat) (nowUnix : Rat) :
    MovesFrom (Spares id) (Router.advanceUpload prims ops other node link nowMs nowUnix) w := by
  refine MovesFrom.afterGet ?_
  split
  · exact MovesFrom.ofPure ()
  · split
    · exact ofModify (Spares.conclude apart .failed)
    · split
      · exact ofModify (fun w => (Spares.revise apart _ w).trans
          (Spares.ofQuiet ((Quiet.markDirty _).trans (Quiet.emit _ rfl))))
      · refine MovesFrom.andThen ?_ (fun result after _ => ?_)
        · unfold MovesFrom
          rw [Moves.exec_tryProc]
          exact ensurePreparedUpload ops apart nowUnix
        · split
          · exact advancePrepared ops apart node link _ nowMs
          · exact ofModify (fun w => (Spares.revise apart _ w).trans
              (Spares.ofQuiet ((Quiet.requestPath ops _ _ _).trans (Quiet.markDirty _))))
          · exact MovesFrom.ofThrow _

theorem propagationTick {entry : OutboundEntry} (held : w.router.outbound.get? id = some entry)
    (direct : entry.message.method ≠ .propagated) (nowUnix : Rat) :
    Spares id w (exec (Router.propagationTick prims ops nowUnix) w).2 := by
  refine Spares.ofPath (MovesFrom.andThen (ofModify (fun w => Spares.ofQuiet (Quiet.refreshOrphanedNodes ops w))) ?_)
  intro _ refreshed ran
  have first : Spares id w refreshed := by
    obtain ⟨-, rfl⟩ := Prod.mk.inj ran
    exact Spares.ofQuiet (Quiet.refreshOrphanedNodes ops w)
  refine MovesFrom.andThen (ofQuiet (Moves.tickClient_quiet ops)) (fun _ ticked ok => ?_)
  have second : Spares id refreshed ticked := by
    have path : Spares id refreshed (exec (tickClient ops) refreshed).2 :=
      Spares.ofPath (ofQuiet (Moves.tickClient_quiet ops))
    rwa [ok] at path
  have still : ticked.router.outbound.get? id = some entry := (second.entry.trans first.entry).trans held
  refine MovesFrom.afterGet ?_
  dsimp only
  split
  · exact MovesFrom.ofPure ()
  next current _ =>
    have switched : Spares id ticked (ticked.switchNode ops current (ticked.nowMs ops)) :=
      Spares.switchNode ops still direct current _
    refine MovesFrom.afterModify (.single switched) (MovesFrom.afterGet ?_)
    split
    · exact MovesFrom.ofPure ()
    · split
      · exact MovesFrom.ofPure ()
      next other due =>
        refine advanceUpload ops (fun same => direct ?_) _ _ _ nowUnix
        exact Moves.uploads_of_dueUpload due entry (same ▸ switched.entry.trans still)

end Sparing

end Leviculum.Router
