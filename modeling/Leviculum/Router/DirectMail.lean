import Leviculum.Router.TickPropagation

/-! Direct and opportunistic mail in a tick: when the node grants what the propagation part asks, the job comes
to every due message, and otherwise it comes to none. -/

namespace Leviculum.Router

open Propagation (DestinationHash TransientId)
open Fallible (exec)

variable {Env : Type} {prims : Primitives} (ops : NodeOps Env)

theorem tick_ok {w after : World Env} (ok : exec (propagationPart ops prims w) (w.anchored ops) = (.ok (), after)) :
    exec (tick prims ops) w = (.ok (), after.dueJob ops prims (w.nowMs ops) (ops.emissionSecs w.env)) := by
  rw [exec_tick, Fallible.exec_bind_ok ok, Fallible.exec_modify]

theorem tick_error {w after : World Env} {error : RouterError}
    (failed : exec (propagationPart ops prims w) (w.anchored ops) = (.error error, after)) :
    exec (tick prims ops) w = (.error error, after) := by
  rw [exec_tick, Fallible.exec_bind_error failed]

theorem propagationPart_spares {w : World Env} {id : MessageId} {entry : OutboundEntry}
    (held : w.router.outbound.get? id = some entry) (direct : entry.message.method ≠ .propagated) :
    Spares id w (exec (propagationPart ops prims w) (w.anchored ops)).2 := by
  have first : Spares id w (w.anchored ops) := Spares.anchorWallClock _ _ w
  unfold propagationPart
  split
  · exact first
  · exact first.trans (Sparing.propagationTick ops (first.entry.trans held) direct _)

theorem propagationPart_effects (w : World Env) :
    Effects prims .full w (exec (propagationPart ops prims w) (w.anchored ops)).2 := by
  have anchored : Effects prims .full w (w.anchored ops) := Effects.anchorWallClock _ _
  exact anchored.trans (Moves.propagationPart ops ⟨trivial, trivial⟩)

theorem propagationPart_keyed {w : World Env} (keyed : Keyed w) :
    Keyed (exec (propagationPart ops prims w) (w.anchored ops)).2 := keyed.kept (propagationPart_effects ops w).descends

theorem Step.tick_run (w : World Env) : (Step.run prims ⟨ops, .tick⟩ w).2 = (exec (tick prims ops) w.idle).2 := by
  change (exec (tick prims ops >>= fun _ => pure Reply.output) w.idle).2 = _
  rcases ran : exec (tick prims ops) w.idle with ⟨outcome, after⟩
  cases outcome with
  | error error => rw [Fallible.exec_bind_error ran]
  | ok value =>
    rw [Fallible.exec_bind_ok ran]
    rfl

section Tick

variable {w : World Env} {id : MessageId} {entry : OutboundEntry}

theorem tick_handles (keyed : Keyed w) (held : w.router.outbound.get? id = some entry)
    (direct : entry.message.method ≠ .propagated) (served : PropagationServed ops prims w)
    (job : w.router.nextJobMs ≤ w.nowMs ops) (due : entry.nextAttemptMs ≤ w.nowMs ops) :
    Handled (w.nowMs ops) id (exec (tick prims ops) w).2 ∧
      (endings id (exec (tick prims ops) w).2.out.events = endings id w.out.events ∨
        maxDeliveryAttempts ≤ entry.attempts) := by
  have spares : Spares id w (exec (propagationPart ops prims w) (w.anchored ops)).2 :=
    propagationPart_spares ops held direct
  have keyed' : Keyed (exec (propagationPart ops prims w) (w.anchored ops)).2 := propagationPart_keyed ops keyed
  rcases ran : exec (propagationPart ops prims w) (w.anchored ops) with ⟨outcome, middle⟩
  obtain rfl : outcome = .ok () := by
    obtain ⟨value, ok⟩ := (propagationPart_succeeds_iff ops w).mpr served
    rwa [ran] at ok
  rw [ran] at spares keyed'
  rw [tick_ok ops ran]
  unfold World.dueJob
  rw [if_neg (by rw [spares.job]; exact Nat.not_lt.mpr job)]
  have here : middle.router.outbound.get? id = some entry := spares.entry.trans held
  have member : id ∈ World.dueMessages middle.router (w.nowMs ops) := mem_dueMessages.mpr ⟨entry, here, direct, due⟩
  obtain ⟨handled, ends⟩ := runJob_own ops keyed' member here (ops.emissionSecs w.env)
  exact ⟨handled, ends.imp_left (fun same => same.trans spares.ends)⟩

theorem tick_passes (keyed : Keyed w) (held : w.router.outbound.get? id = some entry)
    (direct : entry.message.method ≠ .propagated)
    (idle : ¬(PropagationServed ops prims w ∧ w.router.nextJobMs ≤ w.nowMs ops ∧ entry.nextAttemptMs ≤ w.nowMs ops)) :
    (exec (tick prims ops) w).2.router.outbound.get? id = some entry ∧
      endings id (exec (tick prims ops) w).2.out.events = endings id w.out.events := by
  have spares : Spares id w (exec (propagationPart ops prims w) (w.anchored ops)).2 :=
    propagationPart_spares ops held direct
  have keyed' : Keyed (exec (propagationPart ops prims w) (w.anchored ops)).2 := propagationPart_keyed ops keyed
  rcases ran : exec (propagationPart ops prims w) (w.anchored ops) with ⟨outcome, middle⟩
  rw [ran] at spares keyed'
  have here : middle.router.outbound.get? id = some entry := spares.entry.trans held
  cases outcome with
  | error error =>
    rw [tick_error ops ran]
    exact ⟨here, spares.ends⟩
  | ok value =>
    have served : PropagationServed ops prims w := (propagationPart_succeeds_iff ops w).mp ⟨value, by rw [ran]⟩
    rw [tick_ok ops ran]
    unfold World.dueJob
    split
    · exact ⟨here, spares.ends⟩
    next job =>
      have absent : id ∉ World.dueMessages middle.router (w.nowMs ops) := by
        intro member
        obtain ⟨found, there, -, due⟩ := mem_dueMessages.mp member
        obtain rfl := Option.some.inj (here.symm.trans there)
        exact idle ⟨served, by rw [← spares.job]; exact Nat.le_of_not_lt job, due⟩
      obtain ⟨same, ends⟩ : _ ∧ endings id (middle.runJob prims ops _ _).out.events = _ := runJob_other ops keyed' absent (ops.emissionSecs w.env)
      exact ⟨same.trans here, ends.trans spares.ends⟩

end Tick

/-- The last time the clock can show. -/
def lastMs : Nat := 2 ^ 64 - 1

theorem nowMs_le (w : World Env) : w.nowMs ops ≤ lastMs := Nat.le_sub_one_of_lt (ops.nowMs w.env).toNat_lt

theorem satAdd_le_iff {now wait : Nat} (positive : 0 < wait) (most : now ≤ lastMs) :
    satAdd now wait ≤ now ↔ now = lastMs := by
  unfold satAdd lastMs at *
  omega

theorem retryWaits_positive {wait : Nat} (known : wait ∈ retryWaits) : 0 < wait := by
  revert wait
  decide

/-- Whenever the job is due, it comes to every due direct and opportunistic message exactly when the node
grants what the propagation part of the same tick asks, or the due ones all wait for the last time the clock
can show. -/
theorem direct_mail_handled_iff (config : RouterConfig) (identityHash : FixedBytes 16)
    (deliveryDestination : DestinationHash) (maxOutgoingDeliverySize : Option Nat) (env : Env) (steps : List (Step Env))
    (ops : NodeOps Env) :
    let w := (World.new config identityHash deliveryDestination maxOutgoingDeliverySize env).after prims steps
    w.router.nextJobMs ≤ w.nowMs ops →
      ((∀ id ∈ World.dueMessages w.router (w.nowMs ops), Handled (w.nowMs ops) id (Step.run prims ⟨ops, .tick⟩ w).2) ↔
        PropagationServed ops prims w.idle ∨
          ∀ id ∈ World.dueMessages w.router (w.nowMs ops), ∀ entry, w.router.outbound.get? id = some entry →
            entry.nextAttemptMs = lastMs) := by
  intro w job
  have keyed : Keyed w.idle := World.keyed_after prims (World.new_keyed _ _ _ _ _) steps
  rw [Step.tick_run]
  constructor
  · intro handled
    by_cases served : PropagationServed ops prims w.idle
    · exact .inl served
    · right
      intro id member entry held
      obtain ⟨found, here, direct, due⟩ := mem_dueMessages.mp member
      obtain rfl := Option.some.inj (held.symm.trans here)
      obtain ⟨same, -⟩ := tick_passes ops keyed held direct (fun all => served all.1)
      obtain ⟨wait, known, time⟩ := handled id member entry same
      have past : satAdd (w.nowMs ops) wait ≤ w.nowMs ops := time ▸ due
      have last : w.nowMs ops = lastMs := (satAdd_le_iff (retryWaits_positive known) (nowMs_le ops w)).mp past
      rw [time, last]
      unfold satAdd lastMs
      omega
  · rintro (served | late) id member
    · obtain ⟨entry, held, direct, due⟩ := mem_dueMessages.mp member
      exact (tick_handles ops keyed held direct served job due).1
    · obtain ⟨entry, held, direct, due⟩ := mem_dueMessages.mp member
      have time : entry.nextAttemptMs = lastMs := late id member entry held
      by_cases served : PropagationServed ops prims w.idle
      · exact (tick_handles ops keyed held direct served job due).1
      · intro new found
        obtain ⟨same, -⟩ := tick_passes ops keyed held direct (fun all => served all.1)
        obtain rfl := Option.some.inj (found.symm.trans same)
        refine ⟨processingIntervalMs, by decide, ?_⟩
        have most := nowMs_le ops w
        rw [time] at due
        rw [time]
        unfold satAdd lastMs at *
        omega

/-- A mailbox round waits for a path, and a direct message is queued. -/
def waitingRound : List (Step Unit) :=
  [⟨loneNode 0, .enablePropagationClient (padded 16 [1]) ⟨false, 1000, 60000⟩⟩,
    ⟨loneNode 0, .setOutboundPropagationNode (some (padded 16 [7]))⟩,
    ⟨{ loneNode 0 with ensureLink := fun _ _ => (.ok (), ()) }, .requestMessagesFromPropagationNode none⟩,
    ⟨loneNode 0, .enqueue (note 1 .direct)⟩]

/-- A node with a path to everybody and room for a link. -/
def roomyNode (nowMs : UInt64) : NodeOps Unit :=
  { loneNode nowMs with
    hasPath := fun _ _ => true
    ensureLink := fun _ _ => (.ok (), ()) }

/-- The path turns up and the link is granted: the due direct message is handled beside it. -/
theorem due_message_handled_beside_round :
    Handled 5000 (padded 32 [1])
      (Step.run plainPrimitives ⟨roomyNode 5000, .tick⟩ ((loneRouter .default).after plainPrimitives waitingRound)).2 := by
  have served : PropagationServed (roomyNode 5000) plainPrimitives
      ((loneRouter .default).after plainPrimitives waitingRound).idle := by decide
  exact (direct_mail_handled_iff .default (padded 16 [1]) (padded 16 [2]) none () waitingRound (roomyNode 5000)
    (by decide)).mpr (.inl served) (padded 32 [1]) (by decide)

/-- The node of the mailbox client: reached by a path, but without room for a link to it. -/
def crowdedNode (nowMs : UInt64) : NodeOps Unit :=
  { loneNode nowMs with
    hasPath := fun _ _ => true
    ensureLink := fun _ _ => (.error .linkUnavailable, ()) }

/-- The path turns up, the link is refused, and the due direct message stays where it is. -/
theorem refused_link_stops_direct_mail :
    let w := (loneRouter .default).after plainPrimitives waitingRound
    w.router.nextJobMs ≤ w.nowMs (crowdedNode 5000) ∧
      padded 32 [1] ∈ World.dueMessages w.router (w.nowMs (crowdedNode 5000)) ∧
      ¬Handled (w.nowMs (crowdedNode 5000)) (padded 32 [1])
        (Step.run plainPrimitives ⟨crowdedNode 5000, .tick⟩ w).2 := by
  intro w
  refine ⟨by decide, by decide, fun handled => ?_⟩
  have still : ((Step.run plainPrimitives ⟨crowdedNode 5000, .tick⟩ w).2.router.outbound.get? (padded 32 [1])).map
      OutboundEntry.nextAttemptMs = some 0 := by decide
  obtain ⟨entry, held, time⟩ := Option.map_eq_some_iff.mp still
  obtain ⟨wait, -, waits⟩ := handled entry held
  have now : w.nowMs (crowdedNode 5000) = 5000 := by decide
  rw [time, now] at waits
  unfold satAdd at waits
  omega

end Leviculum.Router
