import Leviculum.Router.MovesDue
import Leviculum.Router.Spares

/-! The outbound job, message by message: one due message is given up or gets another time, whatever the
node answers, and the others are left alone meanwhile. -/

namespace Leviculum.Router

open Propagation (DestinationHash TransientId)

variable {Env : Type} {prims : Primitives} (ops : NodeOps Env)

def Keyed (w : World Env) : Prop := ∀ id entry, w.router.outbound.get? id = some entry → entry.message.messageId = id

/-- The waits after which a message is looked at again. -/
def retryWaits : List Nat := [processingIntervalMs, deliveryRetryWaitMs, pathRequestWaitMs]

/-- The message of `id`, if it is still queued, waits from `nowMs` on. -/
def Handled (nowMs : Nat) (id : MessageId) (w : World Env) : Prop :=
  ∀ entry, w.router.outbound.get? id = some entry → ∃ wait ∈ retryWaits, entry.nextAttemptMs = satAdd nowMs wait

/-- The message of `id` stays queued and waits from `nowMs` on. -/
structure Rescheduled (nowMs : Nat) (id : MessageId) (w w' : World Env) : Prop where
  handled : Handled nowMs id w'
  ends : endings id w'.out.events = endings id w.out.events

theorem send_events {limit : Option Nat} {message : Message} {env : Env} {events : List LxmfNodeEvent}
    (ok : (send prims ops limit message env).1 = .ok events) :
    ∀ event ∈ events, (∃ method, event = .submitted message.messageId method) ∨
      ∃ chosen len, event = .deliveryMethodFallback message.messageId message.method chosen len := by
  have linked (chosen : DeliveryMethod) (len : Nat) :
      ∀ event ∈ fallbackEvents message chosen len ++ [.submitted message.messageId .direct],
        (∃ method, event = .submitted message.messageId method) ∨
          ∃ chosen len, event = .deliveryMethodFallback message.messageId message.method chosen len := by
    intro event member
    rcases List.mem_append.mp member with notice | submitted
    · unfold fallbackEvents at notice
      split at notice
      · cases notice
      · exact .inr ⟨chosen, len, List.mem_singleton.mp notice⟩
    · exact .inl ⟨.direct, List.mem_singleton.mp submitted⟩
  unfold send at ok
  dsimp only at ok
  split at ok
  · cases ok
  · split at ok
    · cases ok
    · split at ok
      · cases ok
      · cases ok
        exact fun event member => .inl ⟨.opportunistic, List.mem_singleton.mp member⟩
    · split at ok
      · cases ok
      · split at ok
        · cases ok
        · cases ok
          exact linked _ _
    · split at ok
      · cases ok
      · split at ok
        · cases ok
        · cases ok
          exact linked _ _

/-! ### Another message -/

namespace Spares

variable {id other : MessageId} {w w' : World Env}

theorem handleSubmission (apart : other ≠ id) {events : List LxmfNodeEvent}
    (about : ∀ event ∈ events, (∃ method, event = .submitted other method) ∨
      ∃ requested chosen len, event = .deliveryMethodFallback other requested chosen len) (nowMs : Nat) (nowUnix : Rat)
    (w : World Env) : Spares id w (w.handleNodeEvents prims events nowMs nowUnix) := by
  induction events generalizing w with
  | nil => exact refl w
  | cons event rest ih =>
    have first : Spares id w (w.handleNodeEvent prims event nowMs nowUnix) := by
      rcases about event (List.mem_cons_self ..) with ⟨method, rfl⟩ | ⟨requested, chosen, len, rfl⟩
      · cases method with
        | opportunistic => exact (revise apart _ w).trans (ofQuiet (Quiet.markDirtyIf _ _))
        | direct => exact refl w
        | propagated => exact refl w
        | paper => exact refl w
      · exact ofQuiet (Quiet.emit w rfl)
    exact first.trans (ih (fun event member => about event (List.mem_cons_of_mem _ member)) _)

theorem linkDue (apart : other ≠ id) (destination : DestinationHash) (nowMs : Nat) (w : World Env) :
    Spares id w (w.linkDue ops other destination nowMs) := by
  unfold World.linkDue
  split
  next env _ =>
    exact (ofQuiet ((Quiet.env w env).trans (Quiet.act _ _))).trans (revise apart _ _)
  next env _ =>
    exact (ofQuiet ((Quiet.env w env).trans (Quiet.act _ _))).trans (revise apart _ _)
  next env _ => exact (ofQuiet (Quiet.env w env)).trans (revise apart _ _)
  next env _ => exact (ofQuiet (Quiet.env w env)).trans (revise apart _ _)
  next error env _ => exact (ofQuiet (Quiet.env w env)).trans (revise apart _ _)

theorem refuseDue (apart : other ≠ id) (destination : DestinationHash) (error : LxmfNodeError) (nowMs : Nat)
    (w : World Env) : Spares id w (w.refuseDue ops other destination error nowMs) := by
  unfold World.refuseDue
  split
  · exact linkDue ops apart destination nowMs w
  · exact revise apart _ w

theorem captureDue (apart : other ≠ id) (link : LinkId) (nowMs : Nat) (w : World Env) :
    Spares id w (w.captureDue other link nowMs) := by
  unfold World.captureDue
  dsimp only
  generalize written : w.revise other _ = world
  have spared : Spares id w world := written ▸ revise apart _ w
  split
  · exact spared
  · exact spared.trans ⟨rfl, rfl, (ofQuiet (Quiet.emit world rfl)).ends⟩

theorem submitDue (apart : other ≠ id) {entry : OutboundEntry} {events : List LxmfNodeEvent}
    (about : ∀ event ∈ events, (∃ method, event = .submitted other method) ∨
      ∃ requested chosen len, event = .deliveryMethodFallback other requested chosen len) (nowMs : Nat) (nowUnix : Rat)
    (w : World Env) : Spares id w (w.submitDue prims other entry events nowMs nowUnix) := by
  have reported : Spares id w (if entry.state = .sending then w else w.emit (.messageState other .sending)) := by
    split
    · exact refl w
    · exact ofQuiet (Quiet.emit w rfl)
  exact ((reported.trans (revise apart _ _)).trans (ofQuiet (Quiet.act _ _))).trans
    (handleSubmission apart about nowMs nowUnix _)

theorem deliverDue (apart : other ≠ id) {entry : OutboundEntry} (own : entry.message.messageId = other) (nowMs : Nat)
    (nowUnix : Rat) (w : World Env) : Spares id w (w.deliverDue prims ops other entry nowMs nowUnix) := by
  unfold World.deliverDue
  split
  · split
    · exact revise apart _ w
    · split
      next link env _ => exact (ofQuiet (Quiet.env w env)).trans (captureDue apart link nowMs _)
      next error env _ => exact (ofQuiet (Quiet.env w env)).trans (refuseDue ops apart _ error nowMs _)
  · split
    next events env sent =>
      refine (ofQuiet (Quiet.env w env)).trans (submitDue apart ?_ nowMs nowUnix _)
      intro event member
      rcases send_events ops (congrArg Prod.fst sent) event member with ⟨method, rfl⟩ | ⟨chosen, len, rfl⟩
      · exact .inl ⟨method, by rw [own]⟩
      · exact .inr ⟨_, chosen, len, by rw [own]⟩
    next error env _ => exact (ofQuiet (Quiet.env w env)).trans (refuseDue ops apart _ error nowMs _)

theorem pathDue (apart : other ≠ id) (destination : DestinationHash) (nowMs : Nat) (w : World Env) :
    Spares id w (w.pathDue ops other destination nowMs) :=
  (ofQuiet (Quiet.requestPath ops w _ _)).trans (revise apart _ _)

theorem opportunisticDue (apart : other ≠ id) {entry : OutboundEntry} (own : entry.message.messageId = other) (nowMs : Nat)
    (nowUnix : Rat) (w : World Env) : Spares id w (w.opportunisticDue prims ops other entry nowMs nowUnix) := by
  unfold World.opportunisticDue
  dsimp only
  split
  · exact (ofQuiet ((Quiet.requestPath ops w _ _).trans (Quiet.volatile _ _ _ _))).trans (revise apart _ _)
  · split
    · exact pathDue ops apart _ nowMs w
    · split
      · exact (ofQuiet (Quiet.env w _)).trans (pathDue ops apart _ nowMs _)
      · exact deliverDue ops apart own nowMs nowUnix w

theorem processDue (keyed : Keyed w) (apart : other ≠ id) (nowMs : Nat) (nowUnix : Rat) :
    Spares id w (w.processDue prims ops nowMs nowUnix other) := by
  unfold World.processDue
  split
  · exact refl w
  next entry held =>
    dsimp only
    refine (ofQuiet (Quiet.markDirty w)).trans ?_
    split
    · exact revise apart _ _
    · split
      · exact (ofQuiet ((Quiet.mintEpochFor _ entry .failed).trans (Effects.forgetPathRequest other))).trans
          (conclude apart .failed _)
      · split
        · exact (ofQuiet (Quiet.emit _ rfl)).trans (revise apart _ _)
        · split
          · exact opportunisticDue ops apart (keyed other entry held) nowMs nowUnix _
          · exact deliverDue ops apart (keyed other entry held) nowMs nowUnix _

end Spares

/-! ### The message itself -/

section Own

variable {id : MessageId} {w w' : World Env} {entry : OutboundEntry} {nowMs : Nat}

theorem revise_held (held : w.router.outbound.get? id = some entry)
    (write : OutboundEntry → BuildEpochs → OutboundEntry × BuildEpochs) :
    (w.revise id write).router.outbound.get? id = some (write entry w.router.buildEpochs).1 := by
  unfold World.revise
  rw [held]
  exact (OrdMap.get?_insert _ _ _ _).trans (if_pos rfl)

theorem revise_out (id : MessageId) (write : OutboundEntry → BuildEpochs → OutboundEntry × BuildEpochs) (w : World Env) :
    (w.revise id write).out = w.out := by
  unfold World.revise
  split <;> rfl

theorem revise_times (other : MessageId) (write : OutboundEntry → BuildEpochs → OutboundEntry × BuildEpochs)
    (keeps : ∀ old epochs, (write old epochs).1.nextAttemptMs = old.nextAttemptMs) (new : OutboundEntry)
    (held : (w.revise other write).router.outbound.get? id = some new) :
    ∃ old, w.router.outbound.get? id = some old ∧ new.nextAttemptMs = old.nextAttemptMs := by
  by_cases same : other = id
  · subst same
    cases before : w.router.outbound.get? other with
    | none =>
      unfold World.revise at held
      rw [before] at held
      exact absurd (before.symm.trans held) nofun
    | some old =>
      rw [revise_held before, Option.some.injEq] at held
      exact ⟨old, rfl, held ▸ keeps old _⟩
  · exact ⟨new, (Spares.revise same write w).entry.symm.trans held, rfl⟩

theorem setState_time (old : OutboundEntry) (state : MessageState) (epochs : BuildEpochs) :
    (old.setState state epochs).1.nextAttemptMs = old.nextAttemptMs := by
  unfold OutboundEntry.setState
  split <;> rfl

namespace Rescheduled

theorem after (quiet : Quiet w w') {w'' : World Env} (rescheduled : Rescheduled nowMs id w' w'') :
    Rescheduled nowMs id w w'' := ⟨rescheduled.handled, rescheduled.ends.trans (Spares.ofQuiet quiet).ends⟩

theorem revise (write : OutboundEntry → BuildEpochs → OutboundEntry × BuildEpochs)
    {wait : Nat} (known : wait ∈ retryWaits) (waits : ∀ old epochs, (write old epochs).1.nextAttemptMs = satAdd nowMs wait) :
    Rescheduled nowMs id w (w.revise id write) where
  handled new held := by
    cases before : w.router.outbound.get? id with
    | none =>
      unfold World.revise at held
      rw [before] at held
      exact absurd (before.symm.trans held) nofun
    | some old =>
      rw [revise_held before, Option.some.injEq] at held
      exact ⟨wait, known, held ▸ waits old _⟩
  ends := by rw [revise_out]

theorem before (rescheduled : Rescheduled nowMs id w w') {w'' : World Env}
    (times : ∀ new, w''.router.outbound.get? id = some new →
      ∃ old, w'.router.outbound.get? id = some old ∧ new.nextAttemptMs = old.nextAttemptMs)
    (ends : endings id w''.out.events = endings id w'.out.events) : Rescheduled nowMs id w w'' where
  handled new held := by
    obtain ⟨old, here, same⟩ := times new held
    rw [same]
    exact rescheduled.handled old here
  ends := ends.trans rescheduled.ends

theorem quietly (rescheduled : Rescheduled nowMs id w w') {w'' : World Env} (quiet : Quiet w' w'') :
    Rescheduled nowMs id w w'' := by
  refine rescheduled.before (fun new held => ⟨new, ?_, rfl⟩) (Spares.ofQuiet quiet).ends
  exact (Spares.ofQuiet quiet).entry.symm.trans held

theorem linkDue (destination : DestinationHash) : Rescheduled nowMs id w (w.linkDue ops id destination nowMs) := by
  unfold World.linkDue
  split
  next env _ => exact after ((Quiet.env w env).trans (Quiet.act _ _)) (revise _ (by decide) (fun _ _ => rfl))
  next env _ => exact after ((Quiet.env w env).trans (Quiet.act _ _)) (revise _ (by decide) (fun _ _ => rfl))
  next env _ => exact after (Quiet.env w env) (revise _ (by decide) (fun _ _ => rfl))
  next env _ => exact after (Quiet.env w env) (revise _ (by decide) (fun _ _ => rfl))
  next error env _ => exact after (Quiet.env w env) (revise _ (by decide) (fun _ _ => rfl))

theorem refuseDue (destination : DestinationHash) (error : LxmfNodeError) :
    Rescheduled nowMs id w (w.refuseDue ops id destination error nowMs) := by
  unfold World.refuseDue
  split
  · exact linkDue ops destination
  · exact revise _ (by decide) (fun _ _ => rfl)

theorem captureDue (link : LinkId) : Rescheduled nowMs id w (w.captureDue id link nowMs) := by
  unfold World.captureDue
  dsimp only
  generalize written : w.revise id _ = world
  have rescheduled : Rescheduled nowMs id w world := written ▸ revise _ (by decide) (fun _ _ => rfl)
  split
  · exact rescheduled
  · exact rescheduled.before (fun new held => ⟨new, held, rfl⟩) (Spares.ofQuiet (Quiet.emit world rfl)).ends

theorem handleSubmission {other : MessageId} {events : List LxmfNodeEvent}
    (about : ∀ event ∈ events, (∃ method, event = .submitted other method) ∨
      ∃ requested chosen len, event = .deliveryMethodFallback other requested chosen len) (nowUnix : Rat)
    (rescheduled : Rescheduled nowMs id w w') :
    Rescheduled nowMs id w (w'.handleNodeEvents prims events nowMs nowUnix) := by
  induction events generalizing w' with
  | nil => exact rescheduled
  | cons event rest ih =>
    refine ih (fun event member => about event (List.mem_cons_of_mem _ member)) ?_
    rcases about event (List.mem_cons_self ..) with ⟨method, rfl⟩ | ⟨requested, chosen, len, rfl⟩
    · cases method with
      | opportunistic =>
        have silent : ((w'.revise other (fun entry epochs => entry.setState .sent epochs)).markDirtyIf
            ((w'.router.outbound.get? other).any (fun entry => entry.state ≠ .sent))).out = w'.out := revise_out _ _ _
        exact rescheduled.before (revise_times other _ (fun old epochs => setState_time old .sent epochs))
          (congrArg (fun out => endings id out.events) silent)
      | direct => exact rescheduled
      | propagated => exact rescheduled
      | paper => exact rescheduled
    · exact rescheduled.quietly (Quiet.emit w' rfl)

theorem submitDue {events : List LxmfNodeEvent} (about : ∀ event ∈ events, (∃ method, event = .submitted id method) ∨
      ∃ requested chosen len, event = .deliveryMethodFallback id requested chosen len) (nowUnix : Rat) :
    Rescheduled nowMs id w (w.submitDue prims id entry events nowMs nowUnix) := by
  have reported : Quiet w (if entry.state = .sending then w else w.emit (.messageState id .sending)) := by
    split
    · exact Quiet.refl w
    · exact Quiet.emit w rfl
  refine handleSubmission about nowUnix ?_
  exact (after reported (revise _ (by decide) (fun _ _ => rfl))).quietly (Quiet.act _ _)

theorem deliverDue (own : entry.message.messageId = id) (nowUnix : Rat) :
    Rescheduled nowMs id w (w.deliverDue prims ops id entry nowMs nowUnix) := by
  unfold World.deliverDue
  split
  · split
    · exact revise _ (by decide) (fun _ _ => rfl)
    · split
      next link env _ => exact after (Quiet.env w env) (captureDue link)
      next error env _ => exact after (Quiet.env w env) (refuseDue ops _ error)
  · split
    next events env sent =>
      refine after (Quiet.env w env) (submitDue ?_ nowUnix)
      intro event member
      rcases send_events ops (congrArg Prod.fst sent) event member with ⟨method, rfl⟩ | ⟨chosen, len, rfl⟩
      · exact .inl ⟨method, by rw [own]⟩
      · exact .inr ⟨_, chosen, len, by rw [own]⟩
    next error env _ => exact after (Quiet.env w env) (refuseDue ops _ error)

theorem pathDue (destination : DestinationHash) : Rescheduled nowMs id w (w.pathDue ops id destination nowMs) :=
  after (Quiet.requestPath ops w _ _) (revise _ (by decide) (fun _ _ => rfl))

theorem opportunisticDue (own : entry.message.messageId = id) (nowUnix : Rat) :
    Rescheduled nowMs id w (w.opportunisticDue prims ops id entry nowMs nowUnix) := by
  unfold World.opportunisticDue
  dsimp only
  split
  · exact after ((Quiet.requestPath ops w _ _).trans (Quiet.volatile _ _ _ _)) (revise _ (by decide) (fun _ _ => rfl))
  · split
    · exact pathDue ops _
    · split
      · exact after (Quiet.env w _) (pathDue ops _)
      · exact deliverDue ops own nowUnix

end Rescheduled

theorem processDue_own (keyed : Keyed w) (held : w.router.outbound.get? id = some entry) (nowUnix : Rat) :
    Rescheduled nowMs id w (w.processDue prims ops nowMs nowUnix id) ∨
      maxDeliveryAttempts ≤ entry.attempts ∧ (w.processDue prims ops nowMs nowUnix id).router.outbound.get? id = none := by
  unfold World.processDue
  rw [held]
  dsimp only
  split
  · exact .inl (.after (Quiet.markDirty w) (.revise _ (by decide) (fun _ _ => rfl)))
  · split
    next spent =>
      refine .inr ⟨spent, ?_⟩
      change (w.router.outbound.erase id).get? id = none
      rw [OrdMap.get?_erase, if_pos rfl]
    · left
      refine .after (Quiet.markDirty w) ?_
      split
      · exact .after (Quiet.emit _ rfl) (.revise _ (by decide) (fun _ _ => rfl))
      · split
        · exact .opportunisticDue ops (keyed id entry held) nowUnix
        · exact .deliverDue ops (keyed id entry held) nowUnix

end Own

/-! ### The loop -/

section Loop

variable {id : MessageId} {w : World Env} {entry : OutboundEntry} {ids : List MessageId} {nowMs : Nat}

theorem Keyed.kept {w w' : World Env} (keyed : Keyed w) (descends : Descends w w') : Keyed w' := by
  intro id entry held
  obtain ⟨old, before, -, same⟩ := descends.entry id entry held
  rw [same]
  exact keyed id old before

theorem Keyed.processDue (keyed : Keyed w) (nowMs : Nat) (nowUnix : Rat) (id : MessageId) :
    Keyed (w.processDue prims ops nowMs nowUnix id) := by
  have path : Effects prims .full w (w.processDue prims ops nowMs nowUnix id) :=
    Effects.processDue ops ⟨trivial, trivial⟩ nowMs (.inl trivial)
  exact keyed.kept path.descends

theorem processAll_other (keyed : Keyed w) (absent : id ∉ ids) (nowUnix : Rat) :
    Spares id w (ids.foldl (World.processDue prims ops nowMs nowUnix) w) := by
  induction ids generalizing w with
  | nil => exact .refl w
  | cons other rest ih =>
    obtain ⟨apart, later⟩ := not_or.mp (fun hit => absent (List.mem_cons.mpr hit))
    have first : Spares id w (w.processDue prims ops nowMs nowUnix other) := .processDue ops keyed (Ne.symm apart) nowMs nowUnix
    exact first.trans (ih (keyed.processDue ops nowMs nowUnix other) later)

theorem processAll_own (keyed : Keyed w) (once : ids.Nodup) (member : id ∈ ids)
    (held : w.router.outbound.get? id = some entry) (nowUnix : Rat) :
    Handled nowMs id (ids.foldl (World.processDue prims ops nowMs nowUnix) w) ∧
      (endings id (ids.foldl (World.processDue prims ops nowMs nowUnix) w).out.events = endings id w.out.events ∨
        maxDeliveryAttempts ≤ entry.attempts) := by
  induction ids generalizing w with
  | nil => cases member
  | cons other rest ih =>
    obtain ⟨absent, once⟩ := List.nodup_cons.mp once
    have keyed' : Keyed (w.processDue prims ops nowMs nowUnix other) := keyed.processDue ops nowMs nowUnix other
    rw [List.foldl_cons]
    by_cases here : other = id
    · subst here
      have later : Spares other _ (rest.foldl (World.processDue prims ops nowMs nowUnix) _) :=
        processAll_other ops keyed' absent nowUnix
      rcases processDue_own ops keyed held nowUnix with rescheduled | ⟨spent, gone⟩
      · refine ⟨fun new found => rescheduled.handled new (later.entry.symm.trans found), .inl ?_⟩
        exact later.ends.trans rescheduled.ends
      · refine ⟨fun new found => ?_, .inr spent⟩
        rw [later.entry, gone] at found
        cases found
    · have first : Spares id w (w.processDue prims ops nowMs nowUnix other) := .processDue ops keyed here nowMs nowUnix
      have inside : id ∈ rest := (List.mem_cons.mp member).resolve_left (Ne.symm here)
      obtain ⟨handled, ends⟩ := ih keyed' once inside (first.entry.trans held)
      exact ⟨handled, ends.imp_left (fun same => same.trans first.ends)⟩

theorem dueMessages_nodup (router : LxmfRouter) (nowMs : Nat) : (World.dueMessages router nowMs).Nodup := by
  unfold World.dueMessages
  have sorted := List.perm_insertionSort World.WrittenBefore (router.outbound.entries.filter
    (fun e => e.2.message.method ≠ .propagated ∧ e.2.nextAttemptMs ≤ nowMs))
  refine (sorted.map Prod.fst).nodup_iff.mpr ?_
  exact List.Nodup.sublist (List.Sublist.map _ List.filter_sublist) router.outbound.nodup

theorem Keyed.started (keyed : Keyed w) (nowMs : Nat) : Keyed (w.started nowMs) := by
  unfold Keyed
  rw [World.started_outbound]
  exact keyed

theorem runJob_other (keyed : Keyed w) (waiting : id ∉ World.dueMessages w.router nowMs) (nowUnix : Rat) :
    (w.runJob prims ops nowMs nowUnix).router.outbound.get? id = w.router.outbound.get? id ∧
      endings id (w.runJob prims ops nowMs nowUnix).out.events = endings id w.out.events := by
  have spares : Spares id (w.started nowMs) ((World.dueMessages w.router nowMs).foldl
      (World.processDue prims ops nowMs nowUnix) (w.started nowMs)) :=
    processAll_other ops (keyed.started nowMs) waiting nowUnix
  rw [runJob_eq, dueMessages_started, ← World.started_outbound nowMs w]
  exact ⟨spares.entry, spares.ends⟩

theorem runJob_own (keyed : Keyed w) (due : id ∈ World.dueMessages w.router nowMs)
    (held : w.router.outbound.get? id = some entry) (nowUnix : Rat) :
    Handled nowMs id (w.runJob prims ops nowMs nowUnix) ∧
      (endings id (w.runJob prims ops nowMs nowUnix).out.events = endings id w.out.events ∨
        maxDeliveryAttempts ≤ entry.attempts) := by
  rw [← World.started_outbound nowMs w] at held
  rw [runJob_eq, dueMessages_started]
  exact processAll_own ops (keyed.started nowMs) (dueMessages_nodup w.router nowMs) due held nowUnix

end Loop

end Leviculum.Router
