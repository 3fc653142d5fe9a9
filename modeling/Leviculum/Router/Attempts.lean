import Leviculum.Router.DirectMail

/-! What a delivery attempt costs. A ledger beside the router counts, for every queued message, the attempts
that were charged in a call which handed something to the node on the message's behalf. -/

namespace Leviculum.Router

open Propagation (DestinationHash TransientId)
open Relation (ReflTransGen)
open Fallible (exec)

variable {Env : Type} {prims : Primitives} {may : Leave}

/-- How often something was handed to the node on behalf of `id`. -/
def handed (id : MessageId) (actions : List Action) : Nat := actions.countP (fun action => action.onBehalfOf = some id)

theorem handed_append (id : MessageId) (early late : List Action) :
    handed id (early ++ late) = handed id early + handed id late := List.countP_append

/-! ### One call -/

/-- Attempts rise by what is handed to the node at most. -/
structure Paid (w w' : World Env) : Prop where
  forward : ∀ id, handed id w.out.actions ≤ handed id w'.out.actions
  entry : ∀ id new, w'.router.outbound.get? id = some new →
    ∃ old, w.router.outbound.get? id = some old ∧ new.message.method = old.message.method ∧
      (old.message.method ≠ .propagated →
        new.attempts + handed id w.out.actions ≤ old.attempts + handed id w'.out.actions)

namespace Paid

variable {w w' w'' : World Env}

theorem refl (w : World Env) : Paid w w :=
  ⟨fun _ => Nat.le_refl _, fun _ new held => ⟨new, held, rfl, fun _ => Nat.le_refl _⟩⟩

theorem trans (first : Paid w w') (second : Paid w' w'') : Paid w w'' where
  forward id := (first.forward id).trans (second.forward id)
  entry id new held := by
    obtain ⟨middle, here, method, later⟩ := second.entry id new held
    obtain ⟨old, there, method', earlier⟩ := first.entry id middle here
    refine ⟨old, there, method.trans method', fun direct => ?_⟩
    have early := earlier direct
    have late := later (method' ▸ direct)
    omega

theorem ofSame (queue : w'.router.outbound = w.router.outbound) {actions : List Action}
    (said : w'.out.actions = w.out.actions ++ actions) : Paid w w' := by
  have forward (id : MessageId) : handed id w.out.actions ≤ handed id w'.out.actions := by
    rw [said, handed_append]
    exact Nat.le_add_right _ _
  refine ⟨forward, fun id new held => ⟨new, queue ▸ held, rfl, fun _ => ?_⟩⟩
  exact Nat.add_le_add_left (forward id) _

theorem ofSilence (queue : w'.router.outbound = w.router.outbound) (said : w'.out.actions = w.out.actions) : Paid w w' :=
  ofSame queue (said.trans (List.append_nil _).symm)

theorem ofIntake (intake : Intake w w') : Paid w w' := ofSilence intake.outbound intake.actions

theorem ofInsert {id : MessageId} {old new : OutboundEntry} {actions : List Action}
    (held : w.router.outbound.get? id = some old) (method : new.message.method = old.message.method)
    (attempts : old.message.method ≠ .propagated → new.attempts ≤ old.attempts + handed id actions)
    (queue : w'.router.outbound = w.router.outbound.insert id new)
    (said : w'.out.actions = w.out.actions ++ actions) : Paid w w' := by
  have forward (id : MessageId) : handed id w.out.actions ≤ handed id w'.out.actions := by
    rw [said, handed_append]
    exact Nat.le_add_right _ _
  refine ⟨forward, fun other entry found => ?_⟩
  rw [queue, OrdMap.get?_insert] at found
  split at found
  next here =>
    subst here
    obtain rfl := Option.some.inj found
    refine ⟨old, held, method, fun direct => ?_⟩
    have most := attempts direct
    rw [said, handed_append]
    omega
  next => exact ⟨entry, found, rfl, fun _ => Nat.add_le_add_left (forward other) _⟩

end Paid

theorem Effect.paid {w w' : World Env} (effect : Effect prims may w w') (dear : ¬may.slip) : Paid w w' := by
  cases effect with
  | quiet same =>
    obtain ⟨actions, said⟩ := same.actions
    exact .ofSame (by rw [same.router]) said
  | write held _ message attempts router _ _ out =>
    refine .ofInsert held (by rw [message]) (fun direct => ?_) (by rw [router]) (by rw [out]; exact (List.append_nil _).symm)
    exact Nat.le_of_eq (attempts.resolve_right direct)
  | @charge _ id old new action held _ message attempts router behalf out =>
    refine .ofInsert held (by rw [message]) (fun _ => ?_) (by rw [router]) (by rw [out])
    have one : handed id [action] = 1 := by simp [handed, behalf]
    rw [attempts, one]
    exact Nat.min_le_left _ _
  | unpaid allowed => exact absurd allowed dear
  | reschedule at' router _ out =>
    refine ⟨fun _ => Nat.le_of_eq (by rw [out]), fun id new held => ?_⟩
    rw [router, OrdMap.get?_mapValues] at held
    obtain ⟨old, there, rfl⟩ := Option.map_eq_some_iff.mp held
    exact ⟨old, there, rfl, fun _ => Nat.le_of_eq (by rw [out])⟩
  | @conclude _ key old state allowed held terminal _ router out =>
    refine ⟨fun _ => Nat.le_of_eq (by rw [out]), fun id new found => ?_⟩
    rw [router, OrdMap.get?_erase] at found
    split at found
    · cases found
    · exact ⟨new, found, rfl, fun _ => Nat.le_of_eq (by rw [out])⟩
  | inbound message time => exact .ofIntake (Intake.handleInboundMessage w message time)
  | fetch bytes message time =>
    exact .ofIntake (((Intake.insertProcessedId w _ _).trans (Intake.insertDeliveredId _ _ _)).trans
      (Intake.handleInboundMessage _ message time))
  | foreign bytes time => exact .ofIntake (Intake.insertProcessedId w _ _)
  | ticketDelivered destination time => exact .ofSilence rfl rfl
  | stampCost destination entry => exact .ofSilence rfl rfl
  | rebase step time => exact .ofSilence rfl rfl
  | clean time => exact .ofSilence rfl rfl
  | capture held _ _ message attempts _ router out =>
    refine .ofInsert held (by rw [message]) (fun _ => ?_) (by rw [router]) (by rw [out]; exact (List.append_nil _).symm)
    exact Nat.le_of_eq attempts

theorem Deed.paid {w w' : World Env} (deed : Deed prims may w w') (dear : ¬may.slip) : Paid w w' := by
  cases deed with
  | effect effect => exact effect.paid dear
  | stamped held revised attempts _ router out =>
    refine .ofInsert held revised.method (fun _ => ?_) (by rw [router]) (by rw [out]; exact (List.append_nil _).symm)
    exact Nat.le_of_eq attempts
  | taken => exact .ofSilence rfl rfl
  | issued destination time secret _ => exact .ofSilence rfl rfl
  | policy ignored _ => exact .ofSilence rfl rfl
  | approved found => exact .ofIntake ((Intake.park w _).trans (Intake.acceptInbound _ _ _))
  | refused found => exact .ofSilence rfl rfl
  | paper bytes message time =>
    exact .ofIntake (((Intake.insertProcessedId w _ _).trans (Intake.insertDeliveredId _ _ _)).trans
      (Intake.acceptInbound _ message time))

theorem Deeds.paid {w w' : World Env} (deeds : Deeds prims may w w') (dear : ¬may.slip) : Paid w w' := by
  induction deeds with
  | refl => exact .refl w
  | tail _ last ih => exact ih.trans (last.paid dear)

theorem Effect.unfailed {w w' : World Env} (effect : Effect prims may w w') (holds : ¬may.fails) {id : MessageId}
    (told : .messageState id .failed ∈ w'.out.events) : .messageState id .failed ∈ w.out.events := by
  have quietly {events : List RouterEvent} (said : w'.out.events = w.out.events ++ events)
      (others : .messageState id .failed ∉ events) : .messageState id .failed ∈ w.out.events := by
    rw [said] at told
    exact (List.mem_append.mp told).resolve_right others
  have arrived (intake : Intake w w') : .messageState id .failed ∈ w.out.events := by
    obtain ⟨events, said, arrivals⟩ := intake.events
    exact quietly said (fun member => nomatch arrivals _ member)
  cases effect with
  | quiet same =>
    obtain ⟨events, said, quiet⟩ := same.events
    exact quietly said (fun member => nomatch quiet _ member)
  | write _ _ _ _ _ _ _ out => exact out ▸ told
  | charge _ _ _ _ _ _ out => exact quietly (out ▸ (List.append_nil _).symm) List.not_mem_nil
  | unpaid _ _ _ _ _ _ out => exact out ▸ told
  | reschedule at' _ _ out => exact out ▸ told
  | conclude _ _ _ gives _ out =>
    refine quietly (by rw [out]) (fun member => ?_)
    cases List.mem_singleton.mp member
    exact holds (gives rfl)
  | inbound message time => exact arrived (Intake.handleInboundMessage w message time)
  | fetch bytes message time =>
    exact arrived (((Intake.insertProcessedId w _ _).trans (Intake.insertDeliveredId _ _ _)).trans
      (Intake.handleInboundMessage _ message time))
  | foreign bytes time => exact told
  | ticketDelivered destination time => exact told
  | stampCost destination entry => exact told
  | rebase step time => exact told
  | clean time => exact told
  | capture _ _ _ _ _ _ _ out => exact out ▸ told

theorem Deed.unfailed {w w' : World Env} (deed : Deed prims may w w') (holds : ¬may.fails) {id : MessageId}
    (told : .messageState id .failed ∈ w'.out.events) : .messageState id .failed ∈ w.out.events := by
  have arrived (intake : Intake w w') : .messageState id .failed ∈ w.out.events := by
    obtain ⟨events, said, arrivals⟩ := intake.events
    rw [said] at told
    exact (List.mem_append.mp told).resolve_right (fun member => nomatch arrivals _ member)
  cases deed with
  | effect effect => exact effect.unfailed holds told
  | stamped _ _ _ _ _ out => exact out ▸ told
  | taken => exact told
  | issued destination time secret _ => exact told
  | policy ignored _ => exact told
  | approved found => exact arrived ((Intake.park w _).trans (Intake.acceptInbound _ _ _))
  | refused found => exact arrived ((Intake.park w _).trans (Intake.emit _ rfl))
  | paper bytes message time =>
    exact arrived (((Intake.insertProcessedId w _ _).trans (Intake.insertDeliveredId _ _ _)).trans
      (Intake.acceptInbound _ message time))

theorem Deeds.unfailed {w w' : World Env} (deeds : Deeds prims may w w') (holds : ¬may.fails) {id : MessageId}
    (told : .messageState id .failed ∈ w'.out.events) : .messageState id .failed ∈ w.out.events := by
  induction deeds with
  | refl => exact told
  | tail _ last ih => exact ih (last.unfailed holds told)

theorem endings_pos {id : MessageId} {events : List RouterEvent} (told : .messageState id .failed ∈ events) :
    0 < endings id events := by
  refine List.countP_pos_iff.mpr ⟨_, told, ?_⟩
  simp [RouterEvent.ends, MessageState.terminal]

theorem resumeEntries_out (ids : List MessageId) (w : World Env) : (ids.foldl World.resumeEntry w).out = w.out := by
  induction ids generalizing w with
  | nil => rfl
  | cons id rest ih => exact (ih _).trans (revise_out _ _ _)

theorem Step.failed_spent {step : Step Env} {w : World Env} (keyed : Keyed w) {id : MessageId} {entry : OutboundEntry}
    (held : w.router.outbound.get? id = some entry) (direct : entry.message.method ≠ .propagated)
    (told : .messageState id .failed ∈ (step.run prims w).2.out.events) : maxDeliveryAttempts ≤ entry.attempts := by
  by_cases special : step.call.special = true
  · obtain ⟨ops, call⟩ := step
    rcases Call.special_cases special with ⟨message, rfl⟩ | ⟨stored, rfl⟩ | ⟨snapshot, rfl⟩
    · rcases Step.enqueue_run ops message w with ⟨error, ran⟩ | ⟨started, after, ran, queued, -⟩
      · rw [ran] at told
        cases told
      · rw [ran, queued.out] at told
        cases List.mem_singleton.mp told
    · rcases Step.persist_run ops stored w with ⟨error, ran⟩ | ⟨-, -, ran⟩
      · rw [ran] at told
        cases told
      · rw [ran] at told
        cases told
    · rcases Step.restore_run ops snapshot w with ⟨-, ran⟩ | ⟨error, epochs, -, ran⟩ | ⟨found, outbound, epochs, -, decoded, -, ran⟩
      · rw [ran] at told
        cases told
      · rw [ran] at told
        cases told
      · rw [ran] at told
        have silent : (w.idle.installSnapshot found outbound epochs).out = ⟨[], []⟩ :=
          resumeEntries_out outbound.keys (w.idle.replaced outbound epochs)
        rw [silent] at told
        cases told
  · obtain ⟨ops, call⟩ := step
    by_cases ticks : call = .tick
    · subst ticks
      rw [Step.tick_run] at told
      have some := endings_pos told
      by_cases comes : PropagationServed ops prims w.idle ∧ w.idle.router.nextJobMs ≤ w.idle.nowMs ops ∧
          entry.nextAttemptMs ≤ w.idle.nowMs ops
      · obtain ⟨served, job, due⟩ := comes
        obtain ⟨-, same | spent⟩ := tick_handles ops (w := w.idle) keyed held direct served job due
        · rw [same] at some
          cases some
        · exact spent
      · obtain ⟨-, same⟩ := tick_passes ops (w := w.idle) keyed held direct comes
        rw [same] at some
        cases some
    · have deeds : Deeds prims ⟨True, True, False⟩ w.idle (Step.run prims ⟨ops, call⟩ w).2 :=
        Step.deeds (Bool.eq_false_iff.mpr special) (fun _ => .inl trivial) (.inl trivial) (.inr ticks)
      cases deeds.unfailed not_false told

/-! ### The ledger -/

/-- The router with the count of the attempts that were really made: for each queued message those of its
charged attempts in whose call something was handed to the node on its behalf. A checkpoint takes its count
along. -/
structure Ledger (Env : Type) where
  world : World Env
  made : MessageId → Nat
  saved : List (Snapshot × (MessageId → Nat))

/-- The attempts made by the end of a call: as many more as were charged in it, each with its own packet. -/
def attemptsMade (before after : World Env) (made : MessageId → Nat) (id : MessageId) : Nat :=
  match before.router.outbound.get? id, after.router.outbound.get? id with
  | some old, some new => made id + min (new.attempts - old.attempts) (handed id after.out.actions)
  | _, _ => 0

/-- What happens to a router: a call, or a new start of its process. -/
inductive Happening (Env : Type) where
  | call (step : Step Env)
  | start (config : RouterConfig) (identityHash : FixedBytes 16) (deliveryDestination : DestinationHash)
      (maxOutgoingDeliverySize : Option Nat) (env : Env)

namespace Ledger

def empty (world : World Env) : Ledger Env := ⟨world, fun _ => 0, []⟩

def taken (call : Call Env) (outcome : Except RouterError Reply) : Option Snapshot :=
  match call, outcome with
  | .restore snapshot, .ok _ => snapshot
  | _, _ => none

/-- The checkpoint a call wrote. -/
def written : Except RouterError Reply → Option Snapshot
  | .ok (.saved snapshot) => some snapshot
  | _ => none

def step (prims : Primitives) (ledger : Ledger Env) : Happening Env → Ledger Env
  | .start config identityHash deliveryDestination maxOutgoingDeliverySize env =>
    { ledger with
      world := World.new config identityHash deliveryDestination maxOutgoingDeliverySize env
      made := fun _ => 0 }
  | .call step =>
    let run := step.run prims ledger.world
    { world := run.2
      made := match taken step.call run.1 with
        | some snapshot => ((ledger.saved.find? (fun saved => saved.1 = snapshot)).map Prod.snd).getD (fun _ => 0)
        | none => attemptsMade ledger.world run.2 ledger.made
      saved := match written run.1 with
        | some snapshot => (snapshot, ledger.made) :: ledger.saved
        | none => ledger.saved }

def after (prims : Primitives) (ledger : Ledger Env) (happenings : List (Happening Env)) : Ledger Env :=
  happenings.foldl (step prims) ledger

/-- A happening in which no attempt goes for nothing: in a tick the node refuses none of the due messages when
their turn comes, and a restored checkpoint is one that was written. -/
def Fair (prims : Primitives) (ledger : Ledger Env) : Happening Env → Prop
  | .start _ _ _ _ _ => True
  | .call step =>
    (step.call = .tick → TickServed step.ops prims ledger.world.idle) ∧
      ∀ snapshot, step.call = .restore (some snapshot) → ∃ made, (snapshot, made) ∈ ledger.saved

/-- Every attempt charged to a direct or opportunistic message was made. -/
def CoversQueue (made : MessageId → Nat) (outbound : OrdMap MessageId OutboundEntry) : Prop :=
  ∀ id entry, outbound.get? id = some entry → entry.message.method ≠ .propagated → entry.attempts ≤ made id

structure Covers (ledger : Ledger Env) : Prop where
  keyed : Keyed ledger.world
  live : CoversQueue ledger.made ledger.world.router.outbound
  saved : ∀ saved ∈ ledger.saved, CoversQueue saved.2 saved.1.outbound ∧
    ∀ id entry, saved.1.outbound.get? id = some entry → entry.message.messageId = id

theorem new_covers (made : MessageId → Nat) (config : RouterConfig) (identityHash : FixedBytes 16)
    (deliveryDestination : DestinationHash) (maxOutgoingDeliverySize : Option Nat) (env : Env) :
    CoversQueue made (World.new config identityHash deliveryDestination maxOutgoingDeliverySize env).router.outbound := by
  intro id entry held
  cases held

theorem empty_covers (config : RouterConfig) (identityHash : FixedBytes 16) (deliveryDestination : DestinationHash)
    (maxOutgoingDeliverySize : Option Nat) (env : Env) :
    Covers (empty (World.new config identityHash deliveryDestination maxOutgoingDeliverySize env)) :=
  ⟨World.new_keyed _ _ _ _ _, new_covers _ _ _ _ _ _, fun _ member => nomatch member⟩

theorem covers_of_paid {before after : World Env} {made : MessageId → Nat}
    (covers : CoversQueue made before.router.outbound) (paid : Paid before.idle after) :
    CoversQueue (attemptsMade before after made) after.router.outbound := by
  intro id new held direct
  obtain ⟨old, there, method, most⟩ := paid.entry id new held
  have there : before.router.outbound.get? id = some old := there
  have covered := covers id old there (method ▸ direct)
  have none : handed id before.idle.out.actions = 0 := rfl
  have charged := most (method ▸ direct)
  unfold attemptsMade
  rw [there, held]
  dsimp only
  omega

theorem covers_of_queued {before after : World Env} {made : MessageId → Nat} {entry : OutboundEntry}
    (covers : CoversQueue made before.router.outbound) (queued : Queued before.idle after entry) :
    CoversQueue (attemptsMade before after made) after.router.outbound := by
  intro id new held direct
  have found := held
  rw [queued.router, OrdMap.get?_insert] at found
  split at found
  next here =>
    rw [← Option.some.inj found, queued.start.1]
    exact Nat.zero_le _
  next =>
    have there : before.router.outbound.get? id = some new := found
    have covered := covers id new there direct
    unfold attemptsMade
    rw [there, held]
    dsimp only
    omega

theorem covers_of_restored {w : World Env} {snapshot : Snapshot} {outbound : OrdMap MessageId OutboundEntry}
    {epochs : BuildEpochs} {made : MessageId → Nat} (covers : CoversQueue made snapshot.outbound)
    (keyed : ∀ id entry, snapshot.outbound.get? id = some entry → entry.message.messageId = id)
    (decoded : snapshot.decode prims w.router = (.ok outbound, epochs)) :
    CoversQueue made (w.installSnapshot snapshot outbound epochs).router.outbound := by
  intro id new held direct
  obtain ⟨key, old, there, own, message, attempts, -⟩ := installed_entry decoded held
  have same : key = id := by
    rw [← keyed key old there, ← own, message]
  have method : old.message.method ≠ .propagated := by
    rw [message] at direct
    exact direct
  rw [attempts, ← same]
  exact covers key old there method

theorem unmoved_covers {before after : World Env} {made : MessageId → Nat}
    (covers : CoversQueue made before.router.outbound) (queue : after.router.outbound = before.router.outbound) :
    CoversQueue (attemptsMade before after made) after.router.outbound := by
  intro id new held direct
  have there : before.router.outbound.get? id = some new := queue ▸ held
  have covered := covers id new there direct
  unfold attemptsMade
  rw [there, held]
  dsimp only
  omega

theorem call_covers {w : World Env} {made : MessageId → Nat} (covers : CoversQueue made w.router.outbound) (step : Step Env)
    (served : step.call = .tick → TickServed step.ops prims w.idle) :
    CoversQueue (attemptsMade w (step.run prims w).2 made) (step.run prims w).2.router.outbound ∨
      ∃ snapshot outbound epochs, step.call = .restore (some snapshot) ∧
        snapshot.decode prims w.router = (.ok outbound, epochs) ∧
        step.run prims w = (.ok .done, w.idle.installSnapshot snapshot outbound epochs) := by
  by_cases special : step.call.special = true
  · obtain ⟨ops, call⟩ := step
    rcases Call.special_cases special with ⟨message, rfl⟩ | ⟨stored, rfl⟩ | ⟨snapshot, rfl⟩
    · left
      rcases Step.enqueue_run ops message w with ⟨error, ran⟩ | ⟨started, after, ran, queued, -⟩
      · rw [ran]
        exact unmoved_covers covers rfl
      · rw [ran]
        exact covers_of_queued covers queued
    · left
      rcases Step.persist_run ops stored w with ⟨error, ran⟩ | ⟨-, -, ran⟩
      · rw [ran]
        exact unmoved_covers covers rfl
      · rw [ran]
        exact unmoved_covers covers rfl
    · rcases Step.restore_run ops snapshot w with ⟨-, ran⟩ | ⟨error, epochs, -, ran⟩ |
        ⟨found, outbound, epochs, rfl, decoded, -, ran⟩
      · left
        rw [ran]
        exact unmoved_covers covers rfl
      · left
        rw [ran]
        exact unmoved_covers covers rfl
      · exact .inr ⟨found, outbound, epochs, rfl, decoded, ran⟩
  · left
    have deeds : Deeds prims ⟨False, True, True⟩ w.idle (step.run prims w).2 :=
      Step.deeds (Bool.eq_false_iff.mpr special) (fun ticks => .inr (served ticks)) (.inl trivial) (.inl trivial)
    exact covers_of_paid covers (deeds.paid not_false)

theorem taken_eq_some {call : Call Env} {outcome : Except RouterError Reply} {snapshot : Snapshot}
    (took : taken call outcome = some snapshot) : call = .restore (some snapshot) ∧ ∃ reply, outcome = .ok reply := by
  unfold taken at took
  split at took
  next reply => exact ⟨by rw [took], reply, rfl⟩
  next => cases took

theorem reply_of_ok {Value : Type} {proc : Proc Env Value} {reply : Value → Reply} {w after : World Env} {given : Reply}
    (ok : exec (proc >>= fun value => pure (reply value)) w = (.ok given, after)) : ∃ value, given = reply value := by
  rcases ran : exec proc w with ⟨outcome, middle⟩
  cases outcome with
  | error early =>
    rw [Fallible.exec_bind_error ran] at ok
    cases (Prod.mk.inj ok).1
  | ok value =>
    rw [Fallible.exec_bind_ok ran, Fallible.exec_pure] at ok
    cases (Prod.mk.inj ok).1
    exact ⟨value, rfl⟩

theorem Step.persists_of_saved {step : Step Env} {w : World Env} {snapshot : Snapshot}
    (wrote : written (step.run prims w).1 = some snapshot) : ∃ stored, step.call = .persist stored := by
  rcases ran : step.run prims w with ⟨outcome, after⟩
  rw [ran] at wrote
  obtain rfl : outcome = .ok (.saved snapshot) := by
    unfold written at wrote
    split at wrote
    next found => exact Option.some.inj wrote ▸ found
    next => cases wrote
  obtain ⟨ops, call⟩ := step
  cases call with
  | persist stored => exact ⟨stored, rfl⟩
  | _ =>
    obtain ⟨value, other⟩ := reply_of_ok ran
    cases other

theorem written_eq_some {step : Step Env} {w : World Env} {snapshot : Snapshot}
    (wrote : written (step.run prims w).1 = some snapshot) :
    snapshot.outbound = w.router.outbound ∧
      ∀ id entry, snapshot.outbound.get? id = some entry → entry.message.messageId = id := by
  obtain ⟨stored, call⟩ : ∃ stored, step.call = .persist stored := Step.persists_of_saved wrote
  obtain ⟨ops, call'⟩ := step
  cases call
  rcases Step.persist_run ops stored w with ⟨error, ran⟩ | ⟨valid, -, ran⟩
  · rw [ran] at wrote
    cases wrote
  · rw [ran] at wrote
    cases wrote
    refine ⟨rfl, fun id entry held => ?_⟩
    have savable : entrySavable prims id entry = true := (LxmfRouter.valid_spec valid).2 id entry held
    simp only [entrySavable, decide_eq_true_eq] at savable
    exact savable.1.symm

theorem step_covers {ledger : Ledger Env} (covers : ledger.Covers) {happening : Happening Env}
    (fair : ledger.Fair prims happening) : (ledger.step prims happening).Covers := by
  cases happening with
  | start config identityHash deliveryDestination maxOutgoingDeliverySize env =>
    exact ⟨World.new_keyed _ _ _ _ _, new_covers _ _ _ _ _ _, covers.saved⟩
  | call step =>
    refine ⟨step.keyed prims covers.keyed, ?_, ?_⟩
    · unfold Ledger.step
      dsimp only
      split
      next snapshot took =>
        obtain ⟨call, reply, ok⟩ := taken_eq_some took
        obtain ⟨made, member⟩ := fair.2 snapshot call
        obtain ⟨ops, call'⟩ := step
        cases call
        rcases Step.restore_run ops (some snapshot) ledger.world with ⟨absent, -⟩ | ⟨error, epochs, -, ran⟩ |
          ⟨found, outbound, epochs, same, decoded, -, ran⟩
        · cases absent
        · rw [ran] at ok
          cases ok
        · cases same
          obtain ⟨kept, there⟩ : ∃ kept, ledger.saved.find? (fun saved => saved.1 = snapshot) = some kept :=
            Option.isSome_iff_exists.mp (List.find?_isSome.mpr ⟨_, member, by simp⟩)
          have own : kept.1 = snapshot := by simpa using List.find?_some there
          obtain ⟨covered, keyed⟩ := covers.saved kept (List.mem_of_find?_eq_some there)
          rw [own] at covered keyed
          rw [ran, there]
          exact covers_of_restored (w := ledger.world.idle) covered keyed decoded
      next other =>
        rcases call_covers covers.live step fair.1 with live | ⟨snapshot, outbound, epochs, call, -, ran⟩
        · exact live
        · rw [call, ran] at other
          cases other
    · unfold Ledger.step
      dsimp only
      split
      next snapshot wrote =>
        obtain ⟨queue, keyed⟩ := written_eq_some wrote
        intro saved member
        rcases List.mem_cons.mp member with rfl | old
        · refine ⟨?_, keyed⟩
          dsimp only
          rw [queue]
          exact covers.live
        · exact covers.saved saved old
      next => exact covers.saved

/-- A run in which no attempt goes for nothing. -/
def AllFair (prims : Primitives) (ledger : Ledger Env) : List (Happening Env) → Prop
  | [] => True
  | happening :: rest => ledger.Fair prims happening ∧ AllFair prims (ledger.step prims happening) rest

theorem after_covers {ledger : Ledger Env} (covers : ledger.Covers) {happenings : List (Happening Env)}
    (fair : ledger.AllFair prims happenings) : (ledger.after prims happenings).Covers := by
  induction happenings generalizing ledger with
  | nil => exact covers
  | cons happening rest ih => exact ih (step_covers covers fair.1) fair.2

end Ledger

/-- In every run in which no attempt goes for nothing, each attempt charged to a queued direct or opportunistic
message was made, and one reported failed has had all its attempts made. -/
theorem failed_after_attempts_made (config : RouterConfig) (identityHash : FixedBytes 16)
    (deliveryDestination : DestinationHash) (maxOutgoingDeliverySize : Option Nat) (env : Env)
    (happenings : List (Happening Env)) :
    let start := Ledger.empty (World.new config identityHash deliveryDestination maxOutgoingDeliverySize env)
    let ledger := start.after prims happenings
    start.AllFair prims happenings →
      ∀ id entry, ledger.world.router.outbound.get? id = some entry → entry.message.method ≠ .propagated →
        entry.attempts ≤ ledger.made id ∧
          ∀ step : Step Env, .messageState id .failed ∈ (step.run prims ledger.world).2.out.events →
            maxDeliveryAttempts ≤ ledger.made id := by
  intro start ledger fair id entry held direct
  have covers : ledger.Covers := Ledger.after_covers (Ledger.empty_covers _ _ _ _ _) fair
  have made : entry.attempts ≤ ledger.made id := covers.live id entry held direct
  refine ⟨made, fun step told => ?_⟩
  exact (Step.failed_spent covers.keyed held direct told).trans made

/-- A node that knows everybody, has a path to everybody and takes whatever it is asked for. -/
def openNode (nowMs : UInt64) : NodeOps Unit :=
  { loneNode nowMs with
    hasPath := fun _ _ => true
    knowsIdentity := fun _ _ => true
    connect := fun _ _ => (some (padded 16 [4]), ())
    sendSinglePacket := fun _ _ => (.ok (), ())
    sendPacketOnLink := fun _ _ _ => (.ok (), ())
    sendResource := fun _ _ _ => (.ok (), ())
    resourceSendParams := fun _ _ => .ok () }

/-- Every queued message has a carrier, and none is too large for its recipient. -/
def Sendable (prims : Primitives) (w : World Env) : Prop :=
  w.router.maxOutgoingDeliverySize = none ∧
    ∀ id entry, w.router.outbound.get? id = some entry → ∃ carrier, representation prims entry.message = .ok carrier

theorem Sendable.kept {w w' : World Env} (sendable : Sendable prims w) (descends : Descends w w') : Sendable prims w' := by
  obtain ⟨unlimited, carried⟩ := sendable
  have limit : w'.router.maxOutgoingDeliverySize = w.router.maxOutgoingDeliverySize :=
    congrArg (fun fixtures => fixtures.2.2.2.1) descends.fixtures
  refine ⟨limit.trans unlimited, fun id new held => ?_⟩
  obtain ⟨old, before, -, same⟩ := descends.entry id new held
  rw [same]
  exact carried id old before

section OpenNode

variable {now : UInt64} {w : World Unit}

theorem openNode_serves (sendable : Sendable prims w) {id : MessageId} {entry : OutboundEntry}
    (held : w.router.outbound.get? id = some entry) : Served (openNode now) prims id entry.message w := by
  obtain ⟨unlimited, carried⟩ := sendable
  obtain ⟨carrier, carried⟩ := carried id entry held
  have linkable : Linkable (openNode now) entry.message.destinationHash () := fun _ => ⟨rfl, fun _ => rfl⟩
  unfold Served
  split
  · exact fun _ => linkable
  · refine ⟨by rw [unlimited]; rfl, ?_⟩
    unfold Carried
    rw [carried]
    cases carrier with
    | opportunisticPacket => rfl
    | directPacket => exact linkable
    | directResource => exact linkable

theorem openNode_allServed (sendable : Sendable prims w) (nowMs : Nat) (nowUnix : Rat) (ids : List MessageId) :
    AllServed (openNode now) prims nowMs nowUnix ids w := by
  induction ids generalizing w with
  | nil => trivial
  | cons id rest ih =>
    have first : Effects prims .full w (w.processDue prims (openNode now) nowMs nowUnix id) :=
      Effects.processDue (openNode now) ⟨trivial, trivial⟩ nowMs (.inl trivial)
    exact ⟨fun entry held _ => openNode_serves sendable held, ih (sendable.kept first.descends)⟩

theorem openNode_tickServed (sendable : Sendable prims w) : TickServed (openNode now) prims w := by
  intro middle ok _
  have before : Effects prims .full w (exec (propagationPart (openNode now) prims w) (w.anchored (openNode now))).2 :=
    propagationPart_effects (openNode now) w
  rw [ok] at before
  have started : Effects prims .full middle (middle.started (w.nowMs (openNode now))) := Effects.setJob _
  exact openNode_allServed ((sendable.kept before.descends).kept started.descends) _ _ _

def openTicks (times : List UInt64) : List (Happening Unit) := times.map (fun now => .call ⟨openNode now, .tick⟩)

theorem openTicks_fair {ledger : Ledger Unit} (sendable : Sendable prims ledger.world) (times : List UInt64) :
    ledger.AllFair prims (openTicks times) := by
  induction times generalizing ledger with
  | nil => trivial
  | cons now rest ih =>
    have ticked : Effects prims .full ledger.world.idle (exec (tick prims (openNode now)) ledger.world.idle).2 :=
      Moves.tick (openNode now) ⟨trivial, trivial⟩ (.inl trivial)
    rw [← Step.tick_run] at ticked
    have sendable : Sendable prims ledger.world.idle := ⟨sendable.1, sendable.2⟩
    exact ⟨⟨fun _ => openNode_tickServed sendable, nofun⟩, ih (sendable.kept ticked.descends)⟩

end OpenNode

/-- A message is started, and at each of five ticks a link to its recipient is asked for. -/
def linksAsked : List (Happening Unit) :=
  .call ⟨loneNode 0, .enqueue (note 1 .direct)⟩ :: openTicks [0, 10000, 20000, 30000, 40000]

theorem linksAsked_fair :
    (Ledger.empty (World.new .default (padded 16 [1]) (padded 16 [2]) none ())).AllFair plainPrimitives linksAsked := by
  refine ⟨⟨nofun, nofun⟩, openTicks_fair ⟨by decide, fun id entry held => ⟨.directPacket, ?_⟩⟩ _⟩
  have carried : ∀ e ∈ ((Ledger.empty (World.new .default (padded 16 [1]) (padded 16 [2]) none ())).step plainPrimitives
      (.call ⟨loneNode 0, .enqueue (note 1 .direct)⟩)).world.router.outbound.values,
      representation plainPrimitives e.message = .ok .directPacket := by decide
  exact carried entry (OrdMap.mem_values.mpr ⟨id, held⟩)

/-- No link comes up, and the message is reported failed after five attempts that were made. -/
theorem link_attempts_made :
    let ledger := (Ledger.empty (World.new .default (padded 16 [1]) (padded 16 [2]) none ())).after plainPrimitives linksAsked
    .messageState (padded 32 [1]) .failed ∈ (Step.run plainPrimitives ⟨openNode 50000, .tick⟩ ledger.world).2.out.events ∧
      maxDeliveryAttempts ≤ ledger.made (padded 32 [1]) := by
  intro ledger
  have spent := failed_after_attempts_made .default (padded 16 [1]) (padded 16 [2]) none () linksAsked linksAsked_fair
    (padded 32 [1])
  have same : Ledger.after plainPrimitives (.empty (World.new .default (padded 16 [1]) (padded 16 [2]) none ())) linksAsked =
      ledger := rfl
  rw [same] at spent
  have told : .messageState (padded 32 [1]) .failed ∈
      (Step.run plainPrimitives ⟨openNode 50000, .tick⟩ ledger.world).2.out.events := by decide +kernel
  have queued : (ledger.world.router.outbound.get? (padded 32 [1])).map (fun entry => entry.message.method) =
      some .direct := by decide +kernel
  obtain ⟨entry, held, method⟩ := Option.map_eq_some_iff.mp queued
  have direct : entry.message.method ≠ .propagated := by
    rw [method]
    exact nofun
  exact ⟨told, (spent entry held direct).2 _ told⟩

/-- A node with a link to the recipient on which another transfer is under way. -/
def usedLinkNode (nowMs : UInt64) : NodeOps Unit :=
  { loneNode nowMs with
    activeDirectLink := fun _ _ => (some (padded 16 [4]), ())
    sendResource := fun _ _ _ => (.error .transferInProgress, ()) }

def longNote : Message := { note 1 .direct with content := List.replicate 500 0 }

/-- It is started, and finds the link in use at each of five ticks. -/
def usedLinkTicks : List (Happening Unit) :=
  .call ⟨loneNode 0, .enqueue longNote⟩ ::
    [0, 10000, 20000, 30000, 40000].map (fun now => .call ⟨usedLinkNode now, .tick⟩)

/-- It is given up with nothing ever handed to the node for it. -/
theorem used_link_fails_message :
    let ledger := (Ledger.empty (loneRouter .default)).after plainPrimitives usedLinkTicks
    representation plainPrimitives longNote = .ok .directResource ∧
      .messageState (padded 32 [1]) .failed ∈
        (Step.run plainPrimitives ⟨usedLinkNode 50000, .tick⟩ ledger.world).2.out.events ∧
      ledger.made (padded 32 [1]) = 0 := by
  decide +kernel

end Leviculum.Router
