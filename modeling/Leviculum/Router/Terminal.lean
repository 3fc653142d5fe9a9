import Leviculum.Router.Spares
import Leviculum.Router.StepSpec

/-! How queued messages end: what leaves the queue and what is reported ended are one and the same, call
by call. -/

namespace Leviculum.Router

open Propagation (DestinationHash TransientId)
open Relation (ReflTransGen)
open Fallible (MovesFrom FailsAlong exec)

variable {Env : Type} {prims : Primitives} {may : Leave}

/-- One while `id` is queued. -/
def presence (id : MessageId) (w : World Env) : Nat := if (w.router.outbound.get? id).isSome then 1 else 0

/-- No end of `id`, reported or not. -/
def Kept (id : MessageId) (w w' : World Env) : Prop :=
  endings id w'.out.events = endings id w.out.events ∧ presence id w' = presence id w

theorem endings_of_arrival {id : MessageId} {events : List RouterEvent} (arrivals : ∀ event ∈ events, event.arrival = true) :
    endings id events = 0 := by
  refine List.countP_eq_zero.mpr (fun event member ends => ?_)
  have arrival := arrivals event member
  cases event with
  | messageState other state => cases arrival
  | _ => cases ends

namespace Kept

variable {id : MessageId} {w w' : World Env}

theorem ofSame (queue : w'.router.outbound = w.router.outbound) {events : List RouterEvent}
    (said : w'.out.events = w.out.events ++ events) (none : endings id events = 0) : Kept id w w' := by
  unfold Kept presence
  rw [queue, said, endings_append, none]
  exact ⟨rfl, rfl⟩

theorem ofSilence (queue : w'.router.outbound = w.router.outbound) (said : w'.out.events = w.out.events) : Kept id w w' :=
  ofSame queue (said.trans (List.append_nil _).symm) rfl

theorem ofInsert {key : MessageId} {old new : OutboundEntry} (held : w.router.outbound.get? key = some old)
    (queue : w'.router.outbound = w.router.outbound.insert key new) (said : w'.out.events = w.out.events) :
    Kept id w w' := by
  have same : (w'.router.outbound.get? id).isSome = (w.router.outbound.get? id).isSome := by
    rw [queue, OrdMap.get?_insert]
    split
    next here => rw [here, held]; rfl
    next => rfl
  unfold Kept presence
  rw [same, said]
  exact ⟨rfl, rfl⟩

theorem ofIntake (intake : Intake w w') : Kept id w w' := by
  obtain ⟨events, said, arrivals⟩ := intake.events
  exact ofSame intake.outbound said (endings_of_arrival arrivals)

end Kept

theorem Effect.settles {w w' : World Env} (effect : Effect prims may w w') (id : MessageId) :
    Kept id w w' ∨
      may.ends ∧ endings id w'.out.events = endings id w.out.events + 1 ∧ presence id w = 1 ∧ presence id w' = 0 := by
  cases effect with
  | quiet same =>
    obtain ⟨events, said, quiet⟩ := same.events
    exact .inl (.ofSame (by rw [same.router]) said (endings_of_quiet quiet))
  | write held _ _ _ router _ _ out => exact .inl (.ofInsert held (by rw [router]) (by rw [out]))
  | charge held _ _ _ router _ out => exact .inl (.ofInsert held (by rw [router]) (by rw [out]))
  | unpaid _ held _ _ _ router out => exact .inl (.ofInsert held (by rw [router]) (by rw [out]))
  | reschedule at' router _ out =>
    left
    have same : (w'.router.outbound.get? id).isSome = (w.router.outbound.get? id).isSome := by
      rw [router, OrdMap.get?_mapValues, Option.isSome_map]
    unfold Kept presence
    rw [same, out]
    exact ⟨rfl, rfl⟩
  | @conclude _ key old state allowed held terminal _ router out =>
    unfold Kept presence
    rw [router, out, endings_append, OrdMap.get?_erase]
    by_cases here : id = key
    · subst here
      right
      simp [endings, RouterEvent.ends, terminal, held, allowed]
    · left
      simp [endings, RouterEvent.ends, here, Ne.symm here]
  | inbound message time => exact .inl (.ofIntake (Intake.handleInboundMessage w message time))
  | fetch bytes message time =>
    exact .inl (.ofIntake (((Intake.insertProcessedId w _ _).trans (Intake.insertDeliveredId _ _ _)).trans
      (Intake.handleInboundMessage _ message time)))
  | foreign bytes time => exact .inl (.ofIntake (Intake.insertProcessedId w _ _))
  | ticketDelivered destination time => exact .inl (.ofSilence rfl rfl)
  | stampCost destination entry => exact .inl (.ofSilence rfl rfl)
  | rebase step time => exact .inl (.ofSilence rfl rfl)
  | clean time => exact .inl (.ofSilence rfl rfl)
  | capture held _ _ _ _ _ router out => exact .inl (.ofInsert held (by rw [router]) (by rw [out]))

theorem Deed.settles {w w' : World Env} (deed : Deed prims may w w') (id : MessageId) :
    Kept id w w' ∨
      may.ends ∧ endings id w'.out.events = endings id w.out.events + 1 ∧ presence id w = 1 ∧ presence id w' = 0 := by
  cases deed with
  | effect effect => exact effect.settles id
  | stamped held _ _ _ router out => exact .inl (.ofInsert held (by rw [router]) (by rw [out]))
  | taken => exact .inl (.ofSilence rfl rfl)
  | issued destination time secret _ => exact .inl (.ofSilence rfl rfl)
  | policy ignored _ => exact .inl (.ofSilence rfl rfl)
  | approved found => exact .inl (.ofIntake ((Intake.park w _).trans (Intake.acceptInbound _ _ _)))
  | refused found => exact .inl (.ofIntake ((Intake.park w _).trans (Intake.emit _ rfl)))
  | paper bytes message time =>
    exact .inl (.ofIntake (((Intake.insertProcessedId w _ _).trans (Intake.insertDeliveredId _ _ _)).trans
      (Intake.acceptInbound _ message time)))

theorem Deeds.tally {w w' : World Env} (deeds : Deeds prims may w w') (id : MessageId) :
    endings id w'.out.events + presence id w' = endings id w.out.events + presence id w := by
  induction deeds with
  | refl => rfl
  | tail _ last ih =>
    rcases last.settles id with ⟨said, queued⟩ | ⟨-, said, before, after⟩ <;> omega

theorem Deeds.kept {w w' : World Env} (deeds : Deeds prims may w w') (endless : ¬may.ends) (id : MessageId) :
    Kept id w w' := by
  induction deeds with
  | refl => exact ⟨rfl, rfl⟩
  | tail _ last ih =>
    rcases last.settles id with ⟨said, queued⟩ | ⟨ends, -⟩
    · exact ⟨said.trans ih.1, queued.trans ih.2⟩
    · exact absurd ends endless

/-! ### A call -/

theorem endings_finishOutput (id : MessageId) (dirty : Bool) (output : RouterOutput) :
    endings id (finishOutput dirty output).events = endings id output.events := by
  have dropped : ∀ (seen : Bool) (events : List RouterEvent),
      endings id (dropRepeatedRequests seen events) = endings id events := by
    intro seen events
    fun_induction dropRepeatedRequests seen events with
    | case1 => rfl
    | case2 rest ih => exact ih
    | case3 seen rest first ih => exact ih
    | case4 seen event rest other ih =>
      unfold endings at ih ⊢
      rw [List.countP_cons, List.countP_cons, ih]
  unfold finishOutput
  dsimp only
  split
  · rw [endings_append, dropped]
    rfl
  · exact dropped _ _

/-- Leave for everything but the end of a message. -/
def Leave.endless : Leave := ⟨True, False, True⟩

theorem handleEvent_failed {ops : NodeOps Env} {event : NodeEvent} {w : World Env} :
    FailsAlong (Effect prims .endless) (handleEvent prims ops event) w := by
  by_cases closing : event.closing = true
  · refine FailsAlong.afterGet ?_
    refine FailsAlong.andThen (Moves.attempt _ _) (fun events after _ => ?_)
    refine FailsAlong.beforeSafe (fun error after failed => ?_)
    split at failed
    · cases (Prod.mk.inj failed).1
    · exact absurd failed ((propagationHandleEvent_succeeds closing _).no_error error after)
  · exact FailsAlong.ofMoves (Moves.handleEvent ops (.inr (Bool.eq_false_iff.mpr closing)))

theorem tick_failed {ops : NodeOps Env} {w : World Env} : FailsAlong (Effect prims .endless) (tick prims ops) w := by
  refine FailsAlong.afterGet ?_
  have anchored : Effects prims .endless w (w.anchorWallClock (ops.emissionSecs w.env) (w.nowMs ops)) :=
    Effects.anchorWallClock _ _
  refine FailsAlong.andThen (MovesFrom.ofModify anchored) (fun _ after _ => ?_)
  split
  · exact FailsAlong.ofModify _
  · intro error last failed
    rcases ran : exec (propagationTick prims ops (ops.emissionSecs w.env)) after with ⟨outcome, middle⟩
    cases outcome with
    | error early =>
      rw [Fallible.exec_bind_error ran] at failed
      obtain ⟨-, rfl⟩ := Prod.mk.inj failed
      exact Fails.propagationTick ops _ early middle ran
    | ok value =>
      rw [Fallible.exec_bind_ok ran, Fallible.exec_modify] at failed
      cases (Prod.mk.inj failed).1

theorem cancel_failed {ops : NodeOps Env} {id : MessageId} {w : World Env} :
    FailsAlong (Effect prims .endless) (cancel ops id) w := by
  refine FailsAlong.afterGet ?_
  split
  · exact FailsAlong.ofMoves (MovesFrom.afterModify (Effects.quiet (Effects.dropMark id)) (MovesFrom.ofThrow _))
  · exact FailsAlong.ofModify _

theorem failed_of_reply {Value : Type} {proc : Proc Env Value} {reply : Value → Reply} {w after : World Env}
    {error : RouterError} (failed : exec (proc >>= fun value => pure (reply value)) w = (.error error, after)) :
    exec proc w = (.error error, after) := by
  rcases ran : exec proc w with ⟨outcome, middle⟩
  cases outcome with
  | error early =>
    rw [Fallible.exec_bind_error ran] at failed
    obtain ⟨same, rfl⟩ := Prod.mk.inj failed
    cases same
    rfl
  | ok value =>
    rw [Fallible.exec_bind_ok ran, Fallible.exec_pure] at failed
    cases (Prod.mk.inj failed).1

theorem Step.failed_kept {step : Step Env} {w after : World Env} {error : RouterError} 
    (plain : step.call.special = false) (failed : step.run prims w = (.error error, after)) (id : MessageId) :
    Kept id w.idle after := by
  by_cases ends : step.ends
  · obtain ⟨ops, call⟩ := step
    have path : Effects prims .endless w.idle after := by
      cases call with
      | cancel key => exact cancel_failed error after (failed_of_reply failed)
      | tick => exact tick_failed error after (failed_of_reply failed)
      | handleEvent event => exact handleEvent_failed (w := w.idle) error after (failed_of_reply failed)
      | _ => cases ends
    exact path.deeds.kept not_false id
  · have deeds : Deeds prims .endless w.idle (step.run prims w).2 := Step.deeds plain (fun _ => .inl trivial) (.inr ends) (.inl trivial)
    rw [failed] at deeds
    exact deeds.kept not_false id

/-! ### A run -/

def World.queues (w : World Env) (id : MessageId) : Prop := (w.router.outbound.get? id).isSome = true

/-- How often the caller is told of the end of `id`. -/
def Step.reported (prims : Primitives) (step : Step Env) (w : World Env) (id : MessageId) : Nat :=
  (step.returned prims w).elim 0 (fun output => endings id output.events)

def World.reported (prims : Primitives) (w : World Env) (id : MessageId) : List (Step Env) → Nat
  | [] => 0
  | step :: rest => step.reported prims w id + World.reported prims (step.run prims w).2 id rest

/-- The call hands the message of `id` over for delivery. -/
def Call.enqueues (call : Call Env) (id : MessageId) : Prop := ∃ message, call = .enqueue message ∧ message.messageId = id

theorem presence_le_one (id : MessageId) (w : World Env) : presence id w ≤ 1 := by
  unfold presence
  split <;> omega

theorem presence_eq_one {id : MessageId} {w : World Env} : presence id w = 1 ↔ w.queues id := by
  unfold presence World.queues
  split <;> simp_all

theorem Step.output_of_ends {step : Step Env} {w after : World Env} {reply : Reply} (ends : step.ends)
    (ok : step.run prims w = (.ok reply, after)) : reply = .output := by
  have output {Value : Type} {proc : Proc Env Value}
      (ok : exec (proc >>= fun _ => pure Reply.output) w.idle = (.ok reply, after)) : reply = .output := by
    rcases ran : exec proc w.idle with ⟨outcome, middle⟩
    cases outcome with
    | error early =>
      rw [Fallible.exec_bind_error ran] at ok
      cases (Prod.mk.inj ok).1
    | ok value =>
      rw [Fallible.exec_bind_ok ran, Fallible.exec_pure] at ok
      cases (Prod.mk.inj ok).1
      rfl
  obtain ⟨ops, call⟩ := step
  cases call with
  | cancel id => exact output ok
  | tick => exact output ok
  | handleEvent event => exact output ok
  | _ => cases ends

theorem Step.tally {step : Step Env} (plain : step.call.special = false) (w : World Env) (id : MessageId) :
    step.reported prims w id + presence id (step.run prims w).2 = presence id w := by
  rcases ran : step.run prims w with ⟨outcome, after⟩
  unfold Step.reported Step.returned
  rw [ran]
  cases outcome with
  | error error =>
    have kept : Kept id w.idle after := Step.failed_kept plain ran id
    exact (Nat.zero_add _).trans kept.2
  | ok reply =>
    by_cases ends : step.ends
    · obtain rfl : reply = .output := Step.output_of_ends ends ran
      have deeds : Deeds prims .full w.idle (step.run prims w).2 :=
        Step.deeds plain (fun _ => .inl trivial) (.inl trivial) (.inl trivial)
      rw [ran] at deeds
      have told : endings id after.out.events + presence id after = 0 + presence id w := deeds.tally id
      change endings id (finishOutput after.router.persistenceDirty after.out).events + presence id after = presence id w
      rw [endings_finishOutput]
      omega
    · have deeds : Deeds prims .endless w.idle (step.run prims w).2 :=
        Step.deeds plain (fun _ => .inl trivial) (.inr ends) (.inl trivial)
      rw [ran] at deeds
      obtain ⟨told, queued⟩ := deeds.kept not_false id
      have none : endings id after.out.events = 0 := told
      have nothing : (if reply.hasOutput then
          some (finishOutput after.router.persistenceDirty after.out) else Option.none).elim 0
          (fun output => endings id output.events) = 0 := by
        split
        · exact (endings_finishOutput id _ _).trans none
        · rfl
      dsimp only
      rw [nothing, Nat.zero_add]
      exact queued

theorem Step.enqueue_tally (prims : Primitives) (ops : NodeOps Env) (message : Message) (w : World Env) (id : MessageId) :
    Step.reported prims ⟨ops, .enqueue message⟩ w id = 0 ∧
      (presence id (Step.run prims ⟨ops, .enqueue message⟩ w).2 = presence id w ∨
        message.messageId = id ∧ presence id w = 0) := by
  unfold Step.reported Step.returned
  rcases Step.enqueue_run ops message w with ⟨error, ran⟩ | ⟨entry, after, ran, queued, same⟩
  · rw [ran]
    exact ⟨rfl, .inl rfl⟩
  · rw [ran]
    refine ⟨?_, ?_⟩
    · change endings id (finishOutput after.router.persistenceDirty after.out).events = 0
      rw [endings_finishOutput, queued.out]
      rfl
    · by_cases here : message.messageId = id
      · right
        have fresh := queued.fresh
        rw [same, here] at fresh
        refine ⟨here, ?_⟩
        unfold presence
        rw [show w.router.outbound.get? id = none from fresh]
        rfl
      · left
        have other : ¬id = entry.message.messageId := fun hit => here (same.symm.trans hit.symm)
        have still : after.router.outbound.get? id = w.router.outbound.get? id := by
          rw [queued.router, OrdMap.get?_insert, if_neg other]
          rfl
        unfold presence
        rw [still]

theorem Step.persist_tally (prims : Primitives) (ops : NodeOps Env) (stored : Bool) (w : World Env) (id : MessageId) :
    Step.reported prims ⟨ops, .persist stored⟩ w id = 0 ∧
      presence id (Step.run prims ⟨ops, .persist stored⟩ w).2 = presence id w := by
  unfold Step.reported
  rw [Step.returned_persist]
  rcases Step.persist_run ops stored w with ⟨error, ran⟩ | ⟨-, -, ran⟩
  · rw [ran]
    exact ⟨rfl, rfl⟩
  · rw [ran]
    exact ⟨rfl, rfl⟩

def Call.restores (call : Call Env) : Prop := ∃ snapshot, call = .restore snapshot

theorem Step.pairs (prims : Primitives) {step : Step Env} (unrestored : ¬step.call.restores) (w : World Env) (id : MessageId) :
    step.reported prims w id + presence id (step.run prims w).2 = presence id w ∨
      step.call.enqueues id ∧ step.reported prims w id = 0 ∧ presence id w = 0 := by
  by_cases special : step.call.special = true
  · obtain ⟨ops, call⟩ := step
    rcases Call.special_cases special with ⟨message, rfl⟩ | ⟨stored, rfl⟩ | ⟨snapshot, rfl⟩
    · obtain ⟨silent, same | ⟨here, absent⟩⟩ := Step.enqueue_tally prims ops message w id
      · left
        omega
      · exact .inr ⟨⟨message, rfl, here⟩, silent, absent⟩
    · obtain ⟨silent, same⟩ := Step.persist_tally prims ops stored w id
      left
      omega
    · exact absurd ⟨snapshot, rfl⟩ unrestored
  · exact .inl (Step.tally (Bool.eq_false_iff.mpr special) w id)

theorem World.reported_add (prims : Primitives) {steps : List (Step Env)} {id : MessageId}
    (unrestored : ∀ step ∈ steps, ¬step.call.restores) (unstarted : ∀ step ∈ steps, ¬step.call.enqueues id)
    (w : World Env) : w.reported prims id steps + presence id (w.after prims steps) = presence id w := by
  induction steps generalizing w with
  | nil => exact Nat.zero_add _
  | cons step rest ih =>
    have first := (Step.pairs prims (unrestored step (List.mem_cons_self ..)) w id).resolve_right
      (fun started => unstarted step (List.mem_cons_self ..) started.1)
    have later := ih (fun step member => unrestored step (List.mem_cons_of_mem _ member))
      (fun step member => unstarted step (List.mem_cons_of_mem _ member)) (step.run prims w).2
    change step.reported prims w id + World.reported prims (step.run prims w).2 id rest +
      presence id (World.after prims (step.run prims w).2 rest) = presence id w
    omega

/-- In a run without a restore a message leaves the queue in the call that reports its end, and no other
call reports one; it is queued by its start alone, and between two starts its end is reported at most once. -/
theorem message_ends_once (w : World Env) (steps : List (Step Env))
    (unrestored : ∀ step ∈ steps, ¬step.call.restores) (id : MessageId) :
    (∀ early step late, steps = early ++ step :: late →
      let before := w.after prims early
      let after := w.after prims (early ++ [step])
      (before.queues id ∧ ¬after.queues id → step.reported prims before id = 1) ∧
        (¬(before.queues id ∧ ¬after.queues id) → step.reported prims before id = 0) ∧
        (¬before.queues id ∧ after.queues id → step.call.enqueues id)) ∧
      ∀ early middle late, steps = early ++ (middle ++ late) → (∀ step ∈ middle, ¬step.call.enqueues id) →
        (w.after prims early).reported prims id middle ≤ 1 := by
  refine ⟨?_, ?_⟩
  · rintro early step late rfl
    have quiet : ¬step.call.restores := unrestored step (List.mem_append_right _ (List.mem_cons_self ..))
    have pairs := Step.pairs prims quiet (w.after prims early) id
    have before := presence_le_one id (w.after prims early)
    have after := presence_le_one id (step.run prims (w.after prims early)).2
    dsimp only
    rw [World.after_concat, ← presence_eq_one, ← presence_eq_one]
    refine ⟨fun ⟨_, _⟩ => by omega, fun _ => by omega, fun ⟨_, _⟩ => ?_⟩
    rcases pairs with same | ⟨started, -⟩
    · omega
    · exact started
  · rintro early middle late rfl unstarted
    have quiet : ∀ step ∈ middle, ¬step.call.restores :=
      fun step member => unrestored step (List.mem_append_right _ (List.mem_append_left _ member))
    have sum := World.reported_add prims quiet unstarted (w.after prims early)
    have before := presence_le_one id (w.after prims early)
    omega

/-- A message is started and cancelled. -/
theorem cancelled_message_ends_once :
    Step.reported plainPrimitives ⟨loneNode 0, .cancel (padded 32 [1])⟩
      ((loneRouter .default).after plainPrimitives [⟨loneNode 0, .enqueue (note 1 .direct)⟩]) (padded 32 [1]) = 1 := by
  have unrestored : ∀ step ∈ [⟨loneNode 0, .enqueue (note 1 .direct)⟩, (⟨loneNode 0, .cancel (padded 32 [1])⟩ : Step Unit)],
      ¬step.call.restores := by
    intro step member
    rcases List.mem_cons.mp member with rfl | member
    · exact nofun
    · rw [List.mem_singleton.mp member]
      exact nofun
  refine ((message_ends_once (loneRouter .default) _ unrestored (padded 32 [1])).1 [_] _ [] rfl).1 ⟨?_, ?_⟩
  · show _ = true
    decide
  · show ¬_ = true
    decide

end Leviculum.Router
