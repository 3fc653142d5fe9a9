import Leviculum.Router.Moves

/-! What a call can do to the queue: every entry it leaves comes from one it found, rewritten under the
rules of the build epoch. -/

namespace Leviculum.Router

open Propagation (DestinationHash TransientId)
open Relation (ReflTransGen)

variable {Env : Type} {prims : Primitives} {may : Leave}

def RouterEvent.arrival : RouterEvent → Bool
  | .messageReceived _ | .duplicate _ | .invalidSignature _ | .invalidStamp _ | .inboundStampPending _ => true
  | _ => false

/-- An inbound message touches the records, the tickets and the messages waiting for validation. -/
structure Intake (w w' : World Env) : Prop where
  router : w'.router = { w.router with
    deliveredIds := w'.router.deliveredIds
    processedIds := w'.router.processedIds
    tickets := w'.router.tickets
    pendingInboundStamps := w'.router.pendingInboundStamps
    persistenceDirty := w'.router.persistenceDirty }
  env : w'.env = w.env
  events : ∃ events, w'.out.events = w.out.events ++ events ∧ ∀ event ∈ events, event.arrival = true
  actions : w'.out.actions = w.out.actions

namespace Intake

variable {w w' w'' : World Env}

theorem refl (w : World Env) : Intake w w := ⟨rfl, rfl, ⟨[], (List.append_nil _).symm, nofun⟩, rfl⟩

theorem trans (first : Intake w w') (second : Intake w' w'') : Intake w w'' where
  router := by rw [second.router, first.router]
  env := second.env.trans first.env
  events := by
    obtain ⟨early, before, arrivals⟩ := first.events
    obtain ⟨late, after, arrivals'⟩ := second.events
    refine ⟨early ++ late, by rw [after, before, List.append_assoc], ?_⟩
    intro event member
    exact (List.mem_append.mp member).elim (arrivals event) (arrivals' event)
  actions := second.actions.trans first.actions

theorem emit (w : World Env) {event : RouterEvent} (arrival : event.arrival = true) : Intake w (w.emit event) :=
  ⟨rfl, rfl, ⟨[event], rfl, fun _ member => List.mem_singleton.mp member ▸ arrival⟩, rfl⟩

theorem insertDeliveredId (w : World Env) (id : MessageId) (time : Rat) : Intake w (w.insertDeliveredId id time) :=
  ⟨rfl, rfl, ⟨[], (List.append_nil _).symm, nofun⟩, rfl⟩

theorem insertProcessedId (w : World Env) (id : MessageId) (time : Rat) : Intake w (w.insertProcessedId id time) :=
  ⟨rfl, rfl, ⟨[], (List.append_nil _).symm, nofun⟩, rfl⟩

theorem park (w : World Env) (waiting : List (Message × Rat)) :
    Intake w { w with router.pendingInboundStamps := waiting } :=
  ⟨rfl, rfl, ⟨[], (List.append_nil _).symm, nofun⟩, rfl⟩

theorem rememberVerifiedTicket (w : World Env) (message : Message) (time : Rat) :
    Intake w (w.rememberVerifiedTicket prims message time) := by
  unfold World.rememberVerifiedTicket
  split
  · exact refl w
  · split
    · exact refl w
    · dsimp only
      split
      · exact refl w
      · exact ⟨rfl, rfl, ⟨[], (List.append_nil _).symm, nofun⟩, rfl⟩

theorem acceptInbound (w : World Env) (message : Message) (time : Rat) : Intake w (w.acceptInbound message time) := by
  unfold World.acceptInbound
  split
  · exact refl w
  · split
    · exact emit w rfl
    · split
      · exact emit w rfl
      · exact (insertDeliveredId w _ _).trans (emit _ rfl)

theorem handleInboundMessage (w : World Env) (message : Message) (time : Rat) :
    Intake w (w.handleInboundMessage prims message time) := by
  have told : Intake w (w.rememberVerifiedTicket prims message time) := rememberVerifiedTicket w message time
  unfold World.handleInboundMessage
  dsimp only
  revert told
  generalize w.rememberVerifiedTicket prims message time = world
  intro told
  refine told.trans ?_
  split
  · split
    · exact acceptInbound world message time
    · split
      · exact acceptInbound world message time
      · split
        · exact emit world rfl
        · split
          · exact emit world rfl
          · exact (park world _).trans (emit _ rfl)
  · exact acceptInbound world message time

theorem outbound (intake : Intake w w') : w'.router.outbound = w.router.outbound := by rw [intake.router]

theorem buildEpochs (intake : Intake w w') : w'.router.buildEpochs = w.router.buildEpochs := by rw [intake.router]

theorem config (intake : Intake w w') : w'.router.config = w.router.config := by rw [intake.router]

end Intake

theorem Revised.idle (entry : OutboundEntry) {before after : BuildEpochs} (forward : before.minted ≤ after.minted) :
    Revised entry entry before after := ⟨forward, .inl ⟨rfl, rfl⟩, rfl, rfl, rfl⟩

/-- What no effect touches. -/
def LxmfRouter.fixtures (router : LxmfRouter) : RouterConfig × FixedBytes 16 × DestinationHash × Option Nat × Nat :=
  (router.config, router.identityHash, router.deliveryDestination, router.maxOutgoingDeliverySize, router.restores)

/-- What a call leaves queued under an id was queued under it before, the same message. -/
structure Descends (w w' : World Env) : Prop where
  forward : w.router.buildEpochs.minted ≤ w'.router.buildEpochs.minted
  fixtures : w'.router.fixtures = w.router.fixtures
  entry : ∀ id new, w'.router.outbound.get? id = some new →
    ∃ old, w.router.outbound.get? id = some old ∧ Revised old new w.router.buildEpochs w'.router.buildEpochs ∧
      new.message = old.message

namespace Descends

variable {w w' w'' : World Env}

theorem refl (w : World Env) : Descends w w :=
  ⟨Nat.le_refl _, rfl, fun _ new held => ⟨new, held, Revised.refl _ _, rfl⟩⟩

theorem trans (first : Descends w w') (second : Descends w' w'') : Descends w w'' where
  forward := first.forward.trans second.forward
  fixtures := second.fixtures.trans first.fixtures
  entry id new held := by
    obtain ⟨middle, here, later, same⟩ := second.entry id new held
    obtain ⟨old, there, earlier, same'⟩ := first.entry id middle here
    exact ⟨old, there, earlier.trans later, same.trans same'⟩

theorem ofSame (fixtures : w'.router.fixtures = w.router.fixtures)
    (outbound : w'.router.outbound = w.router.outbound)
    (forward : w.router.buildEpochs.minted ≤ w'.router.buildEpochs.minted) : Descends w w' :=
  ⟨forward, fixtures, fun _ new held => ⟨new, outbound ▸ held, Revised.idle new forward, rfl⟩⟩

theorem ofInsert {id : MessageId} {old new : OutboundEntry} (held : w.router.outbound.get? id = some old)
    (revised : Revised old new w.router.buildEpochs w'.router.buildEpochs) (message : new.message = old.message)
    (fixtures : w'.router.fixtures = w.router.fixtures)
    (outbound : w'.router.outbound = w.router.outbound.insert id new) : Descends w w' where
  forward := revised.forward
  fixtures
  entry other entry found := by
    rw [outbound, OrdMap.get?_insert] at found
    split at found
    next same =>
      obtain rfl := Option.some.inj found
      exact ⟨old, same ▸ held, revised, message⟩
    next => exact ⟨entry, found, Revised.idle entry revised.forward, rfl⟩

theorem ofIntake (intake : Intake w w') : Descends w w' :=
  ofSame (by rw [intake.router]; rfl) intake.outbound (Nat.le_of_eq (by rw [intake.buildEpochs]))

end Descends

theorem Effect.descends {w w' : World Env} (effect : Effect prims may w w') : Descends w w' := by
  cases effect with
  | quiet same => exact .ofSame (by rw [same.router]; rfl) (by rw [same.router]) same.epochs
  | write held revised message _ router _ _ _ =>
    exact .ofInsert held revised message (by rw [router]; rfl) (by rw [router])
  | charge held revised message _ router _ _ =>
    exact .ofInsert held revised message (by rw [router]; rfl) (by rw [router])
  | unpaid _ held revised message _ router _ =>
    exact .ofInsert held revised message (by rw [router]; rfl) (by rw [router])
  | reschedule at' router _ _ =>
    have epochs : w'.router.buildEpochs = w.router.buildEpochs := by rw [router]
    refine ⟨Nat.le_of_eq (by rw [epochs]), by rw [router]; rfl, ?_⟩
    intro id new found
    rw [router, OrdMap.get?_mapValues] at found
    obtain ⟨old, held, rfl⟩ := Option.map_eq_some_iff.mp found
    rw [epochs]
    exact ⟨old, held, Revised.bookkeeping old _ _ _ _, rfl⟩
  | conclude _ held terminal _ router _ =>
    have epochs : w'.router.buildEpochs = w.router.buildEpochs := by rw [router]
    refine ⟨Nat.le_of_eq (by rw [epochs]), by rw [router]; rfl, ?_⟩
    intro id new found
    rw [router, OrdMap.get?_erase] at found
    split at found
    · cases found
    · rw [epochs]
      exact ⟨new, found, Revised.refl _ _, rfl⟩
  | inbound message time => exact .ofIntake (Intake.handleInboundMessage w message time)
  | fetch bytes message time =>
    exact .ofIntake (((Intake.insertProcessedId w _ _).trans (Intake.insertDeliveredId _ _ _)).trans
      (Intake.handleInboundMessage _ message time))
  | foreign bytes time => exact .ofIntake (Intake.insertProcessedId w _ _)
  | ticketDelivered destination time => exact .ofSame rfl rfl (Nat.le_refl _)
  | stampCost destination entry => exact .ofSame rfl rfl (Nat.le_refl _)
  | rebase step time => exact .ofSame rfl rfl (Nat.le_refl _)
  | clean time => exact .ofSame rfl rfl (Nat.le_refl _)
  | capture held _ revised message _ _ router _ =>
    exact .ofInsert held revised message (by rw [router]; rfl) (by rw [router])

theorem Effects.descends {w w' : World Env} (effects : Effects prims may w w') : Descends w w' := by
  induction effects with
  | refl => exact .refl w
  | tail _ last ih => exact ih.trans last.descends

end Leviculum.Router
