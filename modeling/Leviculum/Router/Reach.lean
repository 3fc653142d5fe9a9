import Leviculum.Router.Job
import Leviculum.Router.StepSpec

/-! What a restored queue is made of, and what holds of the queue in every reachable state. -/

namespace Leviculum.Router

open Propagation (DestinationHash TransientId)

variable {Env : Type} {prims : Primitives} {may : Leave}

/-! ### A restored queue -/

/-- An entry taken from a snapshot: the message packed again, under its own id and with a fresh epoch. -/
structure Decoded (prims : Primitives) (old new : OutboundEntry) (before after : BuildEpochs) : Prop where
  message : new.message = { old.message with packed := some (old.message.pack prims) }
  attempts : new.attempts = old.attempts
  propagation : new.propagation = old.propagation
  epoch : ∃ minted, before.minted ≤ minted ∧ minted < after.minted ∧ new.buildEpoch = UInt64.ofNat minted

theorem Decoded.later {old new : OutboundEntry} {early before after late : BuildEpochs}
    (decoded : Decoded prims old new before after) (start : early.minted ≤ before.minted)
    (finish : after.minted ≤ late.minted) : Decoded prims old new early late := by
  obtain ⟨message, attempts, propagation, minted, above, below, epoch⟩ := decoded
  exact ⟨message, attempts, propagation, minted, start.trans above, Nat.lt_of_lt_of_le below finish, epoch⟩

theorem Snapshot.decoded_forward {entries : List (MessageId × OutboundEntry)} {sofar : OrdMap MessageId OutboundEntry}
    {before after : BuildEpochs} {result : Except RouterError (OrdMap MessageId OutboundEntry)}
    (decoded : Snapshot.decodeOutbound prims entries sofar before = (result, after)) : before.minted ≤ after.minted := by
  have moved : before.minted ≤ (Snapshot.decodeOutbound prims entries sofar before).2.minted :=
    Snapshot.decodeOutbound_forward entries sofar before
  rwa [decoded] at moved

theorem Snapshot.mem_decodeOutbound {entries : List (MessageId × OutboundEntry)} {sofar out : OrdMap MessageId OutboundEntry}
    {before after : BuildEpochs} (ok : Snapshot.decodeOutbound prims entries sofar before = (.ok out, after))
    {id : MessageId} {new : OutboundEntry} (held : out.get? id = some new) :
    sofar.get? id = some new ∨
      ∃ key old, (key, old) ∈ entries ∧ new.message.messageId = id ∧ old.message.method ≠ .paper ∧
        (old.message.method ≠ .propagated → old.propagation = none) ∧
        old.propagation.all (envelopeFits prims new.message) = true ∧ Decoded prims old new before after := by
  induction entries generalizing sofar before with
  | nil =>
    cases ok
    exact .inl held
  | cons e rest ih =>
    unfold Snapshot.decodeOutbound at ok
    dsimp only at ok
    split at ok
    · cases (Prod.mk.inj ok).1
    next fit =>
      split at ok
      · cases (Prod.mk.inj ok).1
      · have forward : before.advance.minted ≤ after.minted := Snapshot.decoded_forward ok
        rcases ih ok with found | ⟨key, old, member, own, postable, plain, fits, decoded⟩
        · rw [OrdMap.get?_insert] at found
          split at found
          next here =>
            obtain rfl := Option.some.inj found
            obtain ⟨postable, plain, fits⟩ := not_or.mp fit |>.imp_right not_or.mp
            refine .inr ⟨e.1, e.2, List.mem_cons_self .., here.symm, postable, fun direct => ?_, ?_, rfl, rfl, rfl, before.minted,
              Nat.le_refl _, forward, rfl⟩
            · exact Option.not_isSome_iff_eq_none.mp (fun some => plain ⟨direct, some⟩)
            · cases prepared : e.2.propagation with
              | none => rfl
              | some prepared => simpa [prepared] using fits
          next => exact .inl found
        · exact .inr ⟨key, old, List.mem_cons_of_mem _ member, own, postable, plain, fits,
            decoded.later (Nat.le_succ _) (Nat.le_refl _)⟩

/-- Resuming an entry keeps all of it but its time, its state and its share. -/
structure Resumed (old new : OutboundEntry) (before after : BuildEpochs) : Prop where
  revised : Revised old new before after
  message : new.message = old.message
  attempts : new.attempts = old.attempts
  propagation : new.propagation = old.propagation

theorem Resumed.trans {old middle new : OutboundEntry} {before during after : BuildEpochs}
    (first : Resumed old middle before during) (second : Resumed middle new during after) : Resumed old new before after :=
  ⟨first.revised.trans second.revised, second.message.trans first.message, second.attempts.trans first.attempts,
    second.propagation.trans first.propagation⟩

theorem Resumed.idle (entry : OutboundEntry) {before after : BuildEpochs} (forward : before.minted ≤ after.minted) :
    Resumed entry entry before after := ⟨Revised.idle entry forward, rfl, rfl, rfl⟩

theorem setState_propagation (old : OutboundEntry) (state : MessageState) (epochs : BuildEpochs) :
    (old.setState state epochs).1.propagation = old.propagation := by
  unfold OutboundEntry.setState
  split <;> rfl

theorem Resumed.setState (old : OutboundEntry) (epochs : BuildEpochs) :
    Resumed old { (old.setState .outbound epochs).1 with nextAttemptMs := 0, progress := .started } epochs
      (old.setState .outbound epochs).2 :=
  ⟨Effects.revised_setState .outbound 0 .started old epochs, Effects.setState_message old .outbound epochs,
    Effects.setState_attempts old .outbound epochs, setState_propagation old .outbound epochs⟩

theorem resumeEntry_get? {w : World Env} {id other : MessageId} {new : OutboundEntry}
    (held : (w.resumeEntry other).router.outbound.get? id = some new) :
    w.router.buildEpochs.minted ≤ (w.resumeEntry other).router.buildEpochs.minted ∧
      ∃ old, w.router.outbound.get? id = some old ∧
        Resumed old new w.router.buildEpochs (w.resumeEntry other).router.buildEpochs := by
  unfold World.resumeEntry World.revise at held ⊢
  split at held
  next absent =>
    exact ⟨Nat.le_refl _, new, held, Resumed.idle new (Nat.le_refl _)⟩
  next entry here =>
    have forward := (Revised.setState entry .outbound w.router.buildEpochs).forward
    refine ⟨forward, ?_⟩
    dsimp only at held ⊢
    rw [OrdMap.get?_insert] at held
    split at held
    next same =>
      obtain rfl := Option.some.inj held
      exact ⟨entry, same ▸ here, Resumed.setState entry w.router.buildEpochs⟩
    next => exact ⟨new, held, Resumed.idle new forward⟩

theorem resumed_of_get? {ids : List MessageId} {w : World Env} {id : MessageId} {new : OutboundEntry}
    (held : (ids.foldl World.resumeEntry w).router.outbound.get? id = some new) :
    w.router.buildEpochs.minted ≤ (ids.foldl World.resumeEntry w).router.buildEpochs.minted ∧
    ∃ old, w.router.outbound.get? id = some old ∧
      Resumed old new w.router.buildEpochs (ids.foldl World.resumeEntry w).router.buildEpochs := by
  induction ids generalizing w with
  | nil => exact ⟨Nat.le_refl _, new, held, Resumed.idle new (Nat.le_refl _)⟩
  | cons other rest ih =>
    obtain ⟨forward, middle, here, later⟩ := ih held
    obtain ⟨forward', old, there, earlier⟩ := resumeEntry_get? here
    exact ⟨forward'.trans forward, old, there, earlier.trans later⟩

/-- The live state with the queue of a snapshot in its place. -/
def World.replaced (outbound : OrdMap MessageId OutboundEntry) (epochs : BuildEpochs) (w : World Env) : World Env :=
  { w with
    router.outbound := outbound
    router.buildEpochs := epochs
    router.restores := w.router.restores + 1
    router.pendingBuilds := []
    router.buildsOutstanding := ∅
    router.preemptivePathRequests := ∅ }

/-- A restored entry was queued when the snapshot was taken: the same message with the same attempts and the
same envelope, under its own id. -/
theorem installed_entry {snapshot : Snapshot} {outbound : OrdMap MessageId OutboundEntry} {epochs : BuildEpochs}
    {w : World Env} (decoded : snapshot.decode prims w.router = (.ok outbound, epochs)) {id : MessageId}
    {new : OutboundEntry} (held : (w.installSnapshot snapshot outbound epochs).router.outbound.get? id = some new) :
    ∃ key old, snapshot.outbound.get? key = some old ∧ new.message.messageId = id ∧
      new.message = { old.message with packed := some (old.message.pack prims) } ∧ new.attempts = old.attempts ∧
      new.propagation = old.propagation ∧ old.message.method ≠ .paper ∧
      (old.message.method ≠ .propagated → old.propagation = none) ∧
      old.propagation.all (envelopeFits prims new.message) = true ∧
      ∃ minted, w.router.buildEpochs.minted ≤ minted ∧
        minted < (w.installSnapshot snapshot outbound epochs).router.buildEpochs.minted ∧
        new.buildEpoch = UInt64.ofNat minted := by
  have queue : (w.installSnapshot snapshot outbound epochs).router.outbound =
      (outbound.keys.foldl World.resumeEntry (w.replaced outbound epochs)).router.outbound := rfl
  have counter : (w.installSnapshot snapshot outbound epochs).router.buildEpochs =
      (outbound.keys.foldl World.resumeEntry (w.replaced outbound epochs)).router.buildEpochs := rfl
  rw [queue] at held
  rw [counter]
  obtain ⟨forward, middle, here, resumed⟩ := resumed_of_get? held
  have here : outbound.get? id = some middle := here
  have forward : epochs.minted ≤
      (outbound.keys.foldl World.resumeEntry (w.replaced outbound epochs)).router.buildEpochs.minted := forward
  unfold Snapshot.decode at decoded
  split at decoded
  · cases (Prod.mk.inj decoded).1
  · split at decoded
    · cases (Prod.mk.inj decoded).1
    next found during ok =>
      split at decoded
      · obtain ⟨same, rfl⟩ := Prod.mk.inj decoded
        obtain rfl := Except.ok.inj same
        rcases Snapshot.mem_decodeOutbound ok here with absent | ⟨key, old, member, own, postable, plain, fits, read⟩
        · cases absent
        · refine ⟨key, old, OrdMap.get?_eq_some.mpr member, ?_, ?_, ?_, ?_, postable, plain, ?_, ?_⟩
          · rw [resumed.message, own]
          · rw [resumed.message, read.message]
          · rw [resumed.attempts, read.attempts]
          · rw [resumed.propagation, read.propagation]
          · rw [resumed.message]
            exact fits
          · rcases resumed.revised.kept with ⟨same, -⟩ | ⟨minted, above, below, epoch⟩
            · obtain ⟨minted, above, below, epoch⟩ := read.epoch
              exact ⟨minted, above, Nat.lt_of_lt_of_le below forward, same.trans epoch⟩
            · have start : w.router.buildEpochs.minted ≤ during.minted := Snapshot.decoded_forward ok
              exact ⟨minted, start.trans above, below, epoch⟩
      · cases (Prod.mk.inj decoded).1

/-! ### A state that may be saved -/

theorem ok_of_bind {Error Value Result : Type} {first : Except Error Value} {next : Value → Except Error Result}
    {result : Result} (ok : (first >>= next) = .ok result) : ∃ value, first = .ok value ∧ next value = .ok result := by
  cases first with
  | error error => cases ok
  | ok value => exact ⟨value, rfl, ok⟩

theorem boundedCount_ok {count limit : Nat} {value : Unit} (ok : boundedCount count limit = .ok value) :
    count ≤ limit ∧ count < 2 ^ 32 := by
  unfold boundedCount at ok
  split at ok
  · cases ok
  next within => omega

structure LxmfRouter.WithinLimits (router : LxmfRouter) : Prop where
  outbound : router.outbound.size ≤ router.config.maxOutbound ∧ router.outbound.size < 2 ^ 32
  delivered : router.deliveredIds.size ≤ router.config.maxDeliveredIds ∧ router.deliveredIds.size < 2 ^ 32
  processed : router.processedIds.size ≤ router.config.maxProcessedIds ∧ router.processedIds.size < 2 ^ 32
  costs : router.outboundStampCosts.size ≤ router.config.maxStampCosts ∧ router.outboundStampCosts.size < 2 ^ 32
  ignored : router.ignored.card ≤ router.config.maxPolicyEntries ∧ router.ignored.card < 2 ^ 32
  tickets : router.tickets.entryCount ≤ router.config.maxTickets ∧ router.tickets.entryCount < 2 ^ 32

theorem LxmfRouter.valid_spec {router : LxmfRouter} (valid : router.validatePersistenceLimits prims = .ok ()) :
    router.WithinLimits ∧ ∀ id entry, router.outbound.get? id = some entry → entrySavable prims id entry = true := by
  unfold LxmfRouter.validatePersistenceLimits at valid
  obtain ⟨_, outbound, valid⟩ := ok_of_bind valid
  obtain ⟨_, delivered, valid⟩ := ok_of_bind valid
  obtain ⟨_, processed, valid⟩ := ok_of_bind valid
  obtain ⟨_, costs, valid⟩ := ok_of_bind valid
  obtain ⟨_, ignored, valid⟩ := ok_of_bind valid
  obtain ⟨_, tickets, valid⟩ := ok_of_bind valid
  refine ⟨⟨boundedCount_ok outbound, boundedCount_ok delivered, boundedCount_ok processed, boundedCount_ok costs,
    boundedCount_ok ignored, boundedCount_ok tickets⟩, fun id entry held => ?_⟩
  split at valid
  next all => exact List.all_eq_true.mp all (id, entry) (OrdMap.get?_eq_some.mp held)
  next => cases valid

/-! ### Every message under its own id -/

theorem Deed.keyed {w w' : World Env} (deed : Deed prims may w w') (keyed : Keyed w) : Keyed w' := by
  have unmoved (same : w'.router.outbound = w.router.outbound) : Keyed w' := by
    unfold Keyed
    rw [same]
    exact keyed
  cases deed with
  | effect effect => exact Keyed.kept keyed effect.descends
  | stamped held revised _ _ router _ =>
    intro id entry found
    rw [router, OrdMap.get?_insert] at found
    split at found
    next here =>
      obtain rfl := Option.some.inj found
      rw [revised.id, keyed _ _ held, here]
    next => exact keyed id entry found
  | taken => exact unmoved rfl
  | issued destination time secret room => exact unmoved rfl
  | policy ignored room => exact unmoved rfl
  | approved found => exact unmoved ((Intake.park w _).trans (Intake.acceptInbound _ _ _)).outbound
  | refused found => exact unmoved rfl
  | paper bytes message time =>
    exact unmoved (((Intake.insertProcessedId w _ _).trans (Intake.insertDeliveredId _ _ _)).trans
      (Intake.acceptInbound _ message time)).outbound

theorem Deeds.keyed {w w' : World Env} (deeds : Deeds prims may w w') (keyed : Keyed w) : Keyed w' := by
  induction deeds with
  | refl => exact keyed
  | tail _ last ih => exact last.keyed ih

theorem Step.keyed (prims : Primitives) (step : Step Env) {w : World Env} (keyed : Keyed w) :
    Keyed (step.run prims w).2 := by
  by_cases special : step.call.special = true
  · obtain ⟨ops, call⟩ := step
    rcases Call.special_cases special with ⟨message, rfl⟩ | ⟨stored, rfl⟩ | ⟨snapshot, rfl⟩
    · rcases Step.enqueue_run ops message w with ⟨error, ran⟩ | ⟨entry, after, ran, queued, -⟩
      · rw [ran]
        exact keyed
      · rw [ran]
        intro id found held
        rw [queued.router, OrdMap.get?_insert] at held
        split at held
        next here => rw [← Option.some.inj held, here]
        next => exact keyed id found held
    · rcases Step.persist_run ops stored w with ⟨error, ran⟩ | ⟨-, -, ran⟩
      · rw [ran]
        exact keyed
      · rw [ran]
        exact keyed
    · rcases Step.restore_run ops snapshot w with ⟨-, ran⟩ | ⟨error, epochs, -, ran⟩ | ⟨found, outbound, epochs, -, decoded, -, ran⟩
      · rw [ran]
        exact keyed
      · rw [ran]
        exact keyed
      · rw [ran]
        intro id entry held
        obtain ⟨_, _, _, own, -⟩ := installed_entry (w := w.idle) decoded held
        exact own
  · have deeds : Deeds prims .full w.idle (step.run prims w).2 :=
      Step.deeds (Bool.eq_false_iff.mpr special) (fun _ => .inl trivial) (.inl trivial) (.inl trivial)
    exact deeds.keyed keyed

theorem World.keyed_after (prims : Primitives) {w : World Env} (keyed : Keyed w) (steps : List (Step Env)) :
    Keyed (w.after prims steps) := by
  induction steps generalizing w with
  | nil => exact keyed
  | cons step rest ih => exact ih (step.keyed prims keyed)

theorem World.new_keyed (config : RouterConfig) (identityHash : FixedBytes 16) (deliveryDestination : DestinationHash)
    (maxOutgoingDeliverySize : Option Nat) (env : Env) :
    Keyed (World.new config identityHash deliveryDestination maxOutgoingDeliverySize env) := by
  intro id entry held
  cases held

end Leviculum.Router
