import Leviculum.Router.StepSpec

/-! The mark of a stale checkpoint: whatever changes the durable part of the router sets it, and while it
is set every output asks to be saved, once. -/

namespace Leviculum.Router

open Propagation (DestinationHash TransientId)
open Relation (ReflTransGen)
open Fallible (exec)

section Bounded

variable {K V : Type} [LinearOrder K]

theorem makeRoom_eq {seen : V → Rat} {cap : Nat} {map : OrdMap K V} {key : K}
    (still : ¬(map.contains key = false ∧ cap ≤ map.size ∧ (oldestEntry seen map.entries).isSome)) :
    makeRoom seen cap map key = map := by
  unfold makeRoom
  split
  next full =>
    split
    next oldest found => exact absurd ⟨full.1, full.2, by rw [found]; rfl⟩ still
    next => rfl
  next => rfl

theorem insertBounded_eq [DecidableEq V] {seen : V → Rat} {cap : Nat} {map : OrdMap K V} {key : K} {value : V}
    (still : boundedChanges seen cap map key value = false) : insertBounded seen cap map key value = map := by
  unfold insertBounded
  split
  · rfl
  next positive =>
    unfold boundedChanges at still
    rw [decide_eq_false_iff_not, not_and_or, not_or] at still
    obtain ⟨roomy, same⟩ := still.resolve_left (fun zero => zero positive)
    rw [makeRoom_eq roomy] at same ⊢
    exact OrdMap.insert_of_get? (not_not.mp same)

end Bounded

namespace TicketStore

theorem inboundCount_filter_le (lists : List (List Ticket)) (keep : Ticket → Bool) :
    ((lists.map (List.filter keep)).map List.length).sum ≤ (lists.map List.length).sum := by
  induction lists with
  | nil => exact Nat.le_refl _
  | cons first rest ih =>
    simp only [List.map_cons, List.sum_cons]
    exact Nat.add_le_add (List.length_filter_le _ _) ih

theorem filter_eq_of_count {lists : List (List Ticket)} {keep : Ticket → Bool}
    (same : ((lists.map (List.filter keep)).map List.length).sum = (lists.map List.length).sum) :
    ∀ tickets ∈ lists, tickets.filter keep = tickets := by
  induction lists with
  | nil => exact nofun
  | cons first rest ih =>
    simp only [List.map_cons, List.sum_cons] at same
    have below := List.length_filter_le keep first
    have later := inboundCount_filter_le rest keep
    intro tickets member
    rcases List.mem_cons.mp member with rfl | there
    · exact List.filter_sublist.eq_of_length (by omega)
    · exact ih (by omega) tickets there

theorem issue_spec (store : TicketStore) (destination : DestinationHash) (nowUnix : Rat) (secret : FixedBytes 16) :
    (store.issue destination nowUnix secret).2 = store ∨
      (store.issue destination nowUnix secret).2.entryCount = store.entryCount + 1 := by
  unfold issue
  split
  · exact .inl rfl
  · split
    · exact .inl rfl
    · right
      have sums := OrdMap.sum_insert List.length store.inbound destination
        (store.issuedTo destination ++ [⟨nowUnix + ticketExpiry, secret⟩])
      have share : ((store.inbound.get? destination).map List.length).getD 0 = (store.issuedTo destination).length := by
        unfold issuedTo
        cases store.inbound.get? destination <;> rfl
      rw [share, List.length_append, List.length_singleton] at sums
      simp only [entryCount, inboundCount]
      omega

theorem cleaned_eq {store : TicketStore} {nowUnix : Rat} (still : store.cleanChanges nowUnix = false) :
    store.cleaned nowUnix = store := by
  simp only [cleanChanges, decide_eq_false_iff_not, not_or, not_not] at still
  obtain ⟨outbound, inbound, count⟩ := still
  have kept : (store.cleaned nowUnix).outbound = store.outbound := OrdMap.retain_eq_of_size outbound.symm
  have whole : (store.cleaned nowUnix).inbound = store.inbound.mapValues
      (fun _ tickets => tickets.filter (fun ticket => nowUnix < ticket.expiresUnix + ticketGrace)) :=
    OrdMap.retain_eq_of_size (inbound.symm.trans (OrdMap.size_mapValues _ _).symm)
  have lists : ∀ tickets ∈ store.inbound.values,
      tickets.filter (fun ticket => nowUnix < ticket.expiresUnix + ticketGrace) = tickets := by
    refine filter_eq_of_count ?_
    rw [← OrdMap.values_mapValues, ← whole]
    exact count.symm
  have same : (store.cleaned nowUnix).inbound = store.inbound := by
    rw [whole]
    exact OrdMap.mapValues_eq (fun key tickets held => lists tickets (OrdMap.mem_values.mpr ⟨key, held⟩))
  calc store.cleaned nowUnix
      = ⟨(store.cleaned nowUnix).inbound, (store.cleaned nowUnix).outbound, store.lastDeliveries⟩ := rfl
    _ = store := by rw [kept, same]

end TicketStore

/-- The part of the state that outlives a restart, but for the times the queue is scheduled by. -/
structure Durable where
  outbound : MessageId → Option (Message × MessageState × Nat × Progress × Option OutboundPropagation)
  deliveredIds : OrdMap MessageId Rat
  processedIds : OrdMap MessageId Rat
  outboundStampCosts : OrdMap DestinationHash StampCostEntry
  tickets : TicketStore
  ignored : Finset DestinationHash

def LxmfRouter.durable (router : LxmfRouter) : Durable where
  outbound id := (router.outbound.get? id).map OutboundEntry.durable
  deliveredIds := router.deliveredIds
  processedIds := router.processedIds
  outboundStampCosts := router.outboundStampCosts
  tickets := router.tickets
  ignored := router.ignored

variable {Env : Type} {prims : Primitives} {may : Leave}

/-- A step of the router that does not change the durable part in silence. -/
structure Marked (w w' : World Env) : Prop where
  stays : w.router.persistenceDirty = true → w'.router.persistenceDirty = true
  told : w'.router.persistenceDirty = true ∨ w'.router.durable = w.router.durable

namespace Marked

variable {w w' w'' : World Env}

theorem refl (w : World Env) : Marked w w := ⟨id, .inr rfl⟩

theorem trans (first : Marked w w') (second : Marked w' w'') : Marked w w'' where
  stays dirty := second.stays (first.stays dirty)
  told := by
    rcases second.told with dirty | same
    · exact .inl dirty
    · exact first.told.imp second.stays same.trans

theorem ofDirty (dirty : w'.router.persistenceDirty = true) : Marked w w' := ⟨fun _ => dirty, .inl dirty⟩

theorem ofTold {changed : Bool} (mark : w'.router.persistenceDirty = (w.router.persistenceDirty || changed))
    (same : changed = false → w'.router.durable = w.router.durable) : Marked w w' where
  stays dirty := by rw [mark, dirty, Bool.true_or]
  told := by
    cases changed with
    | true => exact .inl (by rw [mark, Bool.or_true])
    | false => exact .inr (same rfl)

theorem insertDeliveredId (w : World Env) (id : MessageId) (time : Rat) : Marked w (w.insertDeliveredId id time) := by
  refine ofTold rfl (fun still => ?_)
  simp only [World.insertDeliveredId, LxmfRouter.durable, insertBounded_eq still]

theorem insertProcessedId (w : World Env) (id : MessageId) (time : Rat) : Marked w (w.insertProcessedId id time) := by
  refine ofTold rfl (fun still => ?_)
  simp only [World.insertProcessedId, LxmfRouter.durable, insertBounded_eq still]

theorem insertStampCost (w : World Env) (destination : DestinationHash) (entry : StampCostEntry) :
    Marked w (w.insertStampCost destination entry) := by
  refine ofTold rfl (fun still => ?_)
  simp only [World.insertStampCost, LxmfRouter.durable, insertBounded_eq still]

theorem emit (w : World Env) (event : RouterEvent) : Marked w (w.emit event) := ⟨id, .inr rfl⟩

theorem acceptInbound (w : World Env) (message : Message) (time : Rat) : Marked w (w.acceptInbound message time) := by
  unfold World.acceptInbound
  split
  · exact refl w
  · split
    · exact emit w _
    · split
      · exact emit w _
      · exact (insertDeliveredId w _ _).trans (emit _ _)

theorem rememberVerifiedTicket (w : World Env) (message : Message) (time : Rat) :
    Marked w (w.rememberVerifiedTicket prims message time) := by
  unfold World.rememberVerifiedTicket
  split
  · exact refl w
  · split
    next => exact refl w
    next ticket _ =>
      dsimp only
      split
      · exact refl w
      · refine ofTold rfl (fun still => ?_)
        have same : (w.router.tickets.remember message.sourceHash ticket time).2 = w.router.tickets := by
          unfold TicketStore.remember at still ⊢
          split at still
          next expired => rw [if_pos expired]
          next live =>
            rw [if_neg live]
            have held : w.router.tickets.outbound.get? message.sourceHash = some ticket := by simpa using still
            rw [OrdMap.insert_of_get? held]
        simp only [LxmfRouter.durable, same]

theorem handleInboundMessage (w : World Env) (message : Message) (time : Rat) :
    Marked w (w.handleInboundMessage prims message time) := by
  have told : Marked w (w.rememberVerifiedTicket prims message time) := rememberVerifiedTicket w message time
  unfold World.handleInboundMessage
  dsimp only
  revert told
  generalize w.rememberVerifiedTicket prims message time = world
  intro told
  refine told.trans ?_
  split
  · split
    · exact acceptInbound world message time
    · split
      · exact acceptInbound world message time
      · split
        · exact emit world _
        · split
          · exact emit world _
          · exact ⟨id, .inr rfl⟩
  · exact acceptInbound world message time

theorem ofQueue (stays : w.router.persistenceDirty = true → w'.router.persistenceDirty = true)
    (router : w'.router.durable = { w.router.durable with outbound := w'.router.durable.outbound })
    (queue : ∀ id, (w'.router.outbound.get? id).map OutboundEntry.durable =
      (w.router.outbound.get? id).map OutboundEntry.durable) : Marked w w' := by
  refine ⟨stays, .inr (router.trans ?_)⟩
  have same : w'.router.durable.outbound = w.router.durable.outbound := funext queue
  rw [same]

end Marked

theorem Effect.marked {w w' : World Env} (effect : Effect prims may w w') : Marked w w' := by
  cases effect with
  | quiet same => exact ⟨same.dirty, .inr (by rw [same.router]; rfl)⟩
  | write held revised _ _ router dirty saved _ =>
    rcases saved with marked | same
    · exact .ofDirty marked
    · refine .ofQueue dirty (by rw [router]; rfl) (fun id => ?_)
      rw [router, OrdMap.get?_insert]
      split
      next here => rw [here, held, Option.map_some, Option.map_some, same]
      next => rfl
  | charge _ _ _ _ router _ _ => exact .ofDirty (by rw [router])
  | unpaid _ _ _ _ _ router _ => exact .ofDirty (by rw [router])
  | reschedule at' router dirty _ =>
    refine .ofQueue dirty (by rw [router]; rfl) (fun id => ?_)
    rw [router, OrdMap.get?_mapValues, Option.map_map]
    rfl
  | conclude _ _ _ _ router _ => exact .ofDirty (by rw [router])
  | inbound message time => exact Marked.handleInboundMessage w message time
  | fetch bytes message time =>
    exact ((Marked.insertProcessedId w _ _).trans (Marked.insertDeliveredId _ _ _)).trans
      (Marked.handleInboundMessage _ message time)
  | foreign bytes time => exact Marked.insertProcessedId w _ _
  | ticketDelivered destination time => exact .ofDirty rfl
  | stampCost destination entry => exact Marked.insertStampCost w _ _
  | rebase step time =>
    refine .ofTold rfl (fun still => ?_)
    simp only [decide_eq_false_iff_not, not_or, not_not] at still
    obtain ⟨delivered, processed, costs⟩ := still
    have blank : ∀ {K V : Type} [LinearOrder K] (map : OrdMap K V) (f : K → V → V), map.size = 0 → map.mapValues f = map :=
      fun map f empty => OrdMap.mapValues_eq (fun key value held => by
        rw [OrdMap.get?_of_size_zero empty] at held
        cases held)
    simp only [World.rebaseAgeing, LxmfRouter.durable, blank _ _ delivered, blank _ _ processed, blank _ _ costs]
  | clean time =>
    refine .ofTold rfl (fun still => ?_)
    simp only [decide_eq_false_iff_not, not_or, not_not, Bool.not_eq_true] at still
    obtain ⟨costs, delivered, processed, tickets⟩ := still
    simp only [World.clean, LxmfRouter.durable, OrdMap.retain_eq_of_size costs.symm,
      OrdMap.retain_eq_of_size delivered.symm, OrdMap.retain_eq_of_size processed.symm, TicketStore.cleaned_eq tickets]
  | capture _ _ _ _ _ _ router _ => exact .ofDirty (by rw [router])

theorem Deed.marked {w w' : World Env} (deed : Deed prims may w w') : Marked w w' := by
  cases deed with
  | effect effect => exact effect.marked
  | stamped _ _ _ _ router _ => exact .ofDirty (by rw [router])
  | taken => exact ⟨id, .inr rfl⟩
  | issued destination time secret _ =>
    refine .ofTold rfl (fun still => ?_)
    simp only [decide_eq_false_iff_not, not_not] at still
    rcases w.router.tickets.issue_spec destination time secret with same | more
    · simp only [LxmfRouter.durable, World.markDirtyIf, same]
    · omega
  | policy ignored _ => exact .ofDirty rfl
  | approved found =>
    have unparked : ∀ waiting, Marked w { w with router.pendingInboundStamps := waiting } :=
      fun _ => ⟨id, .inr rfl⟩
    exact (unparked _).trans (Marked.acceptInbound _ _ _)
  | refused found => exact ⟨id, .inr rfl⟩
  | paper bytes message time =>
    exact ((Marked.insertProcessedId w _ _).trans (Marked.insertDeliveredId _ _ _)).trans (Marked.acceptInbound _ _ _)

theorem Deeds.marked {w w' : World Env} (deeds : Deeds prims may w w') : Marked w w' := by
  induction deeds with
  | refl => exact .refl w
  | tail _ last ih => exact ih.trans last.marked

/-! ### Runs -/

/-- The call wrote a checkpoint or took one over. -/
def Step.saves (prims : Primitives) (step : Step Env) (w : World Env) : Bool :=
  match step.call, (step.run prims w).1 with
  | .persist _, .ok _ => true
  | .restore (some _), .ok _ => true
  | _, _ => false

theorem Step.marked {step : Step Env} {w : World Env} (unsaved : step.saves prims w = false) :
    Marked w (step.run prims w).2 := by
  have still : Marked w w.idle := ⟨id, .inr rfl⟩
  cases plain : step.call.special with
  | false =>
    have deeds : Deeds prims .full w.idle (step.run prims w).2 := Step.deeds plain (fun _ => .inl trivial) (.inl trivial) (.inl trivial)
    exact still.trans deeds.marked
  | true =>
    obtain ⟨ops, call⟩ := step
    rcases Call.special_cases plain with ⟨message, rfl⟩ | ⟨stored, rfl⟩ | ⟨snapshot, rfl⟩
    · rcases Step.enqueue_run ops message w with ⟨error, ran⟩ | ⟨entry, w', ran, queued, -⟩
      · rw [ran]
        exact still
      · rw [ran]
        exact .ofDirty (by rw [queued.router])
    · rcases Step.persist_run ops stored w with ⟨error, ran⟩ | ⟨-, -, ran⟩
      · rw [ran]
        exact still
      · unfold Step.saves at unsaved
        rw [ran] at unsaved
        cases unsaved
    · rcases Step.restore_run ops snapshot w with ⟨-, ran⟩ | ⟨error, epochs, -, ran⟩ | ⟨found, _, _, rfl, _, _, ran⟩
      · rw [ran]
        exact still
      · rw [ran]
        exact ⟨id, .inr rfl⟩
      · unfold Step.saves at unsaved
        rw [ran] at unsaved
        cases unsaved

/-- A world with the durable part that was last saved or restored. -/
structure Tracked (Env : Type) where
  saved : Durable
  world : World Env

def Tracked.step (prims : Primitives) (tracked : Tracked Env) (step : Step Env) : Tracked Env where
  saved := if step.saves prims tracked.world then (step.run prims tracked.world).2.router.durable else tracked.saved
  world := (step.run prims tracked.world).2

/-- A run, with what was last saved or restored; of a new router, its empty state. -/
def World.tracked (prims : Primitives) (world : World Env) (steps : List (Step Env)) : Tracked Env :=
  steps.foldl (Tracked.step prims) ⟨world.router.durable, world⟩

def Silent (prims : Primitives) : World Env → List (Step Env) → Prop
  | _, [] => True
  | w, step :: rest =>
    step.returned prims w = none ∧ step.saves prims w = false ∧ Silent prims (step.run prims w).2 rest

theorem Tracked.step_told {tracked : Tracked Env} (step : Step Env)
    (told : tracked.world.router.durable ≠ tracked.saved → tracked.world.router.persistenceDirty = true) :
    (tracked.step prims step).world.router.durable ≠ (tracked.step prims step).saved →
      (tracked.step prims step).world.router.persistenceDirty = true := by
  intro changed
  unfold Tracked.step at changed ⊢
  dsimp only at changed ⊢
  cases saves : step.saves prims tracked.world with
  | true =>
    rw [saves, if_pos rfl] at changed
    exact absurd rfl changed
  | false =>
    rw [saves, if_neg Bool.false_ne_true] at changed
    have marked : Marked tracked.world (step.run prims tracked.world).2 := Step.marked saves
    rcases marked.told with dirty | same
    · exact dirty
    · exact marked.stays (told (same ▸ changed))

theorem World.tracked_told (world : World Env) (steps : List (Step Env)) :
    (world.tracked prims steps).world.router.durable ≠ (world.tracked prims steps).saved →
      (world.tracked prims steps).world.router.persistenceDirty = true := by
  unfold World.tracked
  induction steps using List.reverseRecOn with
  | nil => exact fun changed => absurd rfl changed
  | append_singleton steps step ih =>
    rw [List.foldl_append]
    exact Tracked.step_told step ih

theorem Silent.dirty {w : World Env} {steps : List (Step Env)} (silent : Silent prims w steps)
    (dirty : w.router.persistenceDirty = true) : (w.after prims steps).router.persistenceDirty = true := by
  induction steps generalizing w with
  | nil => exact dirty
  | cons step rest ih =>
    obtain ⟨-, unsaved, silent⟩ := silent
    exact ih silent ((Step.marked unsaved).stays dirty)

theorem finishOutput_count (output : RouterOutput) :
    (finishOutput true output).events.count .persistenceRequested = 1 := by
  unfold finishOutput
  dsimp only
  have most : (dropRepeatedRequests false output.events).count .persistenceRequested ≤ 1 :=
    count_dropRepeatedRequests false output.events
  split
  next absent => rw [List.count_append, List.count_eq_zero.mpr absent.2, List.count_singleton_self]
  next present =>
    have member : .persistenceRequested ∈ dropRepeatedRequests false output.events :=
      not_not.mp (fun absent => present ⟨rfl, absent⟩)
    exact Nat.le_antisymm most (List.count_pos_iff.mpr member)

theorem returned_count {step : Step Env} {w : World Env} {output : RouterOutput}
    (dirty : w.router.persistenceDirty = true) (returned : step.returned prims w = some output) :
    output.events.count .persistenceRequested = 1 := by
  have unsaved : step.saves prims w = false := by
    obtain ⟨ops, call⟩ := step
    cases call with
    | persist stored => rw [Step.returned_persist] at returned; cases returned
    | restore snapshot => rw [Step.returned_restore] at returned; cases returned
    | _ => rfl
  have after : (step.run prims w).2.router.persistenceDirty = true := (Step.marked unsaved).stays dirty
  unfold Step.returned at returned
  split at returned
  · split at returned
    · rw [after] at returned
      obtain rfl := Option.some.inj returned
      exact finishOutput_count _
    · cases returned
  · cases returned

/-- In every run, while the durable part differs from what was last saved or restored the mark is set, and
the next output, whatever calls fail or say nothing before it, carries one request to be saved. -/
theorem durable_change_requests_persistence (config : RouterConfig) (identityHash : FixedBytes 16)
    (deliveryDestination : DestinationHash) (maxOutgoingDeliverySize : Option Nat) (env : Env) (steps : List (Step Env)) :
    let tracked := (World.new config identityHash deliveryDestination maxOutgoingDeliverySize env).tracked prims steps
    tracked.world.router.durable ≠ tracked.saved →
      tracked.world.router.persistenceDirty = true ∧
        ∀ (between : List (Step Env)) (last : Step Env) (output : RouterOutput), Silent prims tracked.world between →
          last.returned prims (tracked.world.after prims between) = some output →
            output.events.count .persistenceRequested = 1 := by
  intro tracked changed
  have dirty : tracked.world.router.persistenceDirty = true := World.tracked_told _ steps changed
  refine ⟨dirty, ?_⟩
  intro between last output silent returned
  exact returned_count (silent.dirty dirty) returned

/-- A source is ignored, which returns nothing; the enqueue after it asks for both to be saved. -/
theorem ignored_source_requests_persistence :
    let tracked := (loneRouter .default).tracked plainPrimitives [⟨loneNode 5, .ignore (padded 16 [9])⟩]
    tracked.world.router.durable ≠ tracked.saved ∧ tracked.world.router.persistenceDirty = true ∧
      ∀ output, Step.returned plainPrimitives ⟨loneNode 5, .enqueue (note 1 .direct)⟩ tracked.world = some output →
        output.events.count .persistenceRequested = 1 := by
  intro tracked
  have changed : tracked.world.router.durable ≠ tracked.saved := by
    intro same
    have ignored : tracked.world.router.durable.ignored = tracked.saved.ignored := congrArg Durable.ignored same
    revert ignored
    decide
  obtain ⟨dirty, asks⟩ := durable_change_requests_persistence .default (padded 16 [1]) (padded 16 [2]) none ()
    [⟨loneNode 5, .ignore (padded 16 [9])⟩] changed
  exact ⟨changed, dirty, fun output returned => asks [] _ output trivial returned⟩

end Leviculum.Router
