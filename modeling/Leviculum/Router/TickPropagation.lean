import Leviculum.Router.Reach

/-! What the propagation part of a tick asks of the node. It goes well exactly when the node grants what is
asked for the waiting mailbox client and for the due upload. -/

namespace Leviculum.Router

open Propagation (DestinationHash TransientId)
open Fallible (Succeeds exec)

variable {Env : Type} {prims : Primitives} (ops : NodeOps Env)

/-- A question whose answer can stop the tick. -/
inductive Ask where
  | nothing
  | ensureLink (node : DestinationHash)
  | uploadSendParams (link : LinkId) (id : MessageId) (length : Nat)
  | submitUpload (link : LinkId) (id : MessageId) (upload : PropagationUpload)

/-- The answers that let the tick go on. An upload may well be refused: because of another transfer, or by
the link. -/
def Ask.Granted (env : Env) : Ask → Prop
  | .nothing => True
  | .ensureLink node => (ops.ensureLink node env).1 = .ok ()
  | .uploadSendParams link id length =>
    ops.uploadSendParams link id length env ∈
      [.ok (), .error .uploadInProgress, .error (.resource .transferInProgress)]
  | .submitUpload link id upload =>
    (ops.submitUpload link id upload env).1 ∉
      [.error .invalidDestination, .error .destination, .error .unknownNode, .error .request]

instance (env : Env) (ask : Ask) : Decidable (ask.Granted ops env) :=
  match ask with
  | .nothing => inferInstanceAs (Decidable True)
  | .ensureLink node => inferInstanceAs (Decidable ((ops.ensureLink node env).1 = .ok ()))
  | .uploadSendParams link id length =>
    inferInstanceAs (Decidable (ops.uploadSendParams link id length env ∈ _))
  | .submitUpload link id upload => inferInstanceAs (Decidable ((ops.submitUpload link id upload env).1 ∉ _))

/-! ### The questions, from the state before the tick -/

/-- The node after it was asked once more for the known nodes it lost. -/
def orphansAsked (env : Env) : Env :=
  ((ops.knownNodes env).filter (fun known => ops.isOrphaned env known.destination)).foldl
    (fun env known => ops.forgetKnownNode known.destination (ops.requestPath known.destination env)) env

/-- A client that waits for a path asks for a link when there is one. -/
def clientAsk (runtime : PropagationRuntime) (env : Env) : Ask :=
  match runtime.outboundNode with
  | none => .nothing
  | some node => if runtime.client.state = .pathRequested ∧ ops.hasPath env node then .ensureLink node else .nothing

def clientAsked (runtime : PropagationRuntime) (env : Env) : Env :=
  match runtime.outboundNode with
  | none => env
  | some node =>
    if runtime.client.state ≠ .pathRequested then env
    else if ops.hasPath env node then (ops.ensureLink node env).2
    else if runtime.client.pathDeadlineMs.any (· ≤ (ops.nowMs env).toNat) then ops.cancel node env
    else if runtime.client.nextPathRequestMs.any (· ≤ (ops.nowMs env).toNat) then ops.requestPath node env
    else env

/-- Whether a mailbox round runs after the client's turn: one that waits for a path goes on until its time
is over. -/
def roundRuns (runtime : PropagationRuntime) (env : Env) : Bool :=
  if runtime.client.state = .pathRequested then
    runtime.outboundNode.any (ops.hasPath env) || !runtime.client.pathDeadlineMs.any (· ≤ (ops.nowMs env).toNat)
  else syncIsActive runtime.client.state

/-- The envelope of a queued message, when it has its stamp for the selected node. -/
def readyUpload (w : World Env) (entry : OutboundEntry) : Option PropagationUpload :=
  match entry.propagation with
  | some ⟨timebase, unstampedLxmf, _, some cost, some stamp⟩ =>
    if selectedStampCost ops w = some cost then some ⟨timebase, unstampedLxmf, stamp⟩ else none
  | _ => none

/-- What is asked for a stamped upload: a link, or to take it over the link there is. -/
def stampedAsk (prims : Primitives) (router : LxmfRouter) (id : MessageId) (entry : OutboundEntry)
    (upload : PropagationUpload) (node : DestinationHash) : Option LinkId → Ask
  | none => if maxDeliveryAttempts ≤ entry.charge.attempts then .nothing else .ensureLink node
  | some link =>
    if router.config.deferResourceBuilds ∧ linkPacketMaxContent < (upload.encode prims).length then
      if id ∈ router.buildsOutstanding then .nothing else .uploadSendParams link id (upload.encode prims).length
    else .submitUpload link id upload

/-- What is asked for a due upload, if it has attempts left and waits for no stamp. -/
def entryAsk (prims : Primitives) (nowUnix : Rat) (w : World Env) (id : MessageId) (entry : OutboundEntry)
    (node : DestinationHash) (link : Option LinkId) : Ask :=
  if maxDeliveryAttempts ≤ entry.attempts then .nothing
  else if entry.message.stamp.isNone ∧
      (w.router.outboundStampCostAt entry.message.destinationHash nowUnix).isSome then .nothing
  else
    match readyUpload ops w entry with
    | none => .nothing
    | some upload => stampedAsk prims w.router id entry upload node link

/-- What is asked for the upload that is due at `nowMs`, if no other is under way. -/
def dueAsk (prims : Primitives) (nowUnix : Rat) (w : World Env) (node : DestinationHash) (nowMs : Nat) : Ask :=
  if (ops.activeLink w.env node).any (fun link => (ops.activeUpload w.env link).isSome) then .nothing
  else
    match dueUpload w.router nowMs with
    | none => .nothing
    | some id =>
      match w.router.outbound.get? id with
      | none => .nothing
      | some entry => entryAsk ops prims nowUnix w id entry node (ops.activeLink w.env node)

/-- What is asked for the due upload. A router that leaves its node asks for nothing: its uploads wait for new
stamps then. -/
def uploadAsk (prims : Primitives) (nowUnix : Rat) (runs : Bool) (w : World Env) : Ask :=
  match w.outboundNode with
  | none => .nothing
  | some node =>
    if ((ops.hopsTo w.env node).isNone ∧ runs = false) ∧ (alternativeNode ops w node).isSome then .nothing
    else dueAsk ops prims nowUnix w node (w.nowMs ops)

/-- The node grants what the propagation part of a tick asks of it. -/
def PropagationServed (prims : Primitives) (w : World Env) : Prop :=
  ∀ runtime, w.router.propagation = some runtime →
    let env := orphansAsked ops w.env
    (clientAsk ops runtime env).Granted ops env ∧
      (uploadAsk ops prims (ops.emissionSecs w.env) (roundRuns ops runtime env)
        { w.anchored ops with env := clientAsked ops runtime env }).Granted ops (clientAsked ops runtime env)

instance (prims : Primitives) (w : World Env) : Decidable (PropagationServed ops prims w) :=
  Option.decidableForallMem w.router.propagation

/-! ### The due upload -/

section Upload

variable {ops} {w : World Env} {id : MessageId} {entry : OutboundEntry} {node : DestinationHash} {link : Option LinkId}

theorem deferUpload_succeeds_iff (link : LinkId) (upload : PropagationUpload) (nowMs : Nat) :
    Succeeds (deferUpload prims ops id link upload nowMs) w ↔
      (id ∉ w.router.buildsOutstanding →
        (Ask.uploadSendParams link id (upload.encode prims).length).Granted ops w.env) := by
  unfold deferUpload
  dsimp only [Ask.Granted]
  rw [Succeeds.get_bind_iff]
  split
  next outstanding => exact iff_of_true (Succeeds.ofModify _) (fun fresh => absurd outstanding fresh)
  next fresh =>
    rw [forall_prop_of_true fresh]
    split
    next answer => exact iff_of_true (Succeeds.ofModify _) (by rw [answer]; exact List.mem_cons_self ..)
    next answer => exact iff_of_true (Succeeds.ofModify _) (by rw [answer]; decide)
    next answer => exact iff_of_true (Succeeds.ofModify _) (by rw [answer]; decide)
    next error free idle answer =>
      refine iff_of_false (Succeeds.not_throw _) ?_
      rw [answer]
      simp only [List.mem_cons, reduceCtorEq, Except.error.injEq, List.not_mem_nil, or_false, false_or, not_or]
      exact ⟨free, idle⟩

theorem submitUpload_succeeds_iff (link : LinkId) (upload : PropagationUpload) (nowMs : Nat) :
    Succeeds (submitUpload ops id link upload nowMs) w ↔ (Ask.submitUpload link id upload).Granted ops w.env := by
  unfold submitUpload perform
  dsimp only [Ask.Granted]
  rw [Succeeds.bind_iff (Fallible.exec_modifyGet _ _)]
  cases (ops.submitUpload link id upload w.env).1 with
  | ok value => exact iff_of_true (Succeeds.ofModify _) (by simp)
  | error error =>
    cases error with
    | linkUnavailable => exact iff_of_true (Succeeds.ofModify _) (by decide)
    | uploadInProgress => exact iff_of_true (Succeeds.ofModify _) (by decide)
    | resource error => cases error <;> exact iff_of_true (Succeeds.ofModify _) (by decide)
    | send error => cases error <;> exact iff_of_true (Succeeds.ofModify _) (by simp)
    | invalidDestination => exact iff_of_false (Succeeds.not_throw _) (by decide)
    | destination => exact iff_of_false (Succeeds.not_throw _) (by decide)
    | unknownNode => exact iff_of_false (Succeeds.not_throw _) (by decide)
    | request => exact iff_of_false (Succeeds.not_throw _) (by decide)

theorem attempt_succeeds_iff {Value Error : Type} {wrap : Error → RouterError}
    {operation : Env → Except Error Value × Env} {write : World Env → World Env} :
    Succeeds (attempt wrap operation >>= fun _ => modify write) w ↔ ∃ value, (operation w.env).1 = .ok value := by
  have ran := exec_attempt wrap operation w
  cases answer : (operation w.env).1 with
  | error error =>
    rw [answer] at ran
    exact iff_of_false (Succeeds.not_bind ran _) nofun
  | ok value =>
    rw [answer] at ran
    exact iff_of_true ((Succeeds.bind_iff ran).mpr (Succeeds.ofModify _)) ⟨value, rfl⟩

theorem advancePrepared_waits {prepared : OutboundPropagation} (held : w.router.outbound.get? id = some entry)
    (envelope : entry.propagation = some prepared) (lacks : prepared.targetCost = none ∨ prepared.stamp = none)
    (nowMs : Nat) : Succeeds (advancePrepared prims ops id node link (stampRequest id prepared) nowMs) w := by
  unfold advancePrepared
  rw [Succeeds.get_bind_iff, held]
  dsimp only
  rw [envelope]
  cases cost : prepared.targetCost with
  | none =>
    rw [Option.bind_some, cost, if_pos Option.isNone_none]
    have charged : ∀ w : World Env, Succeeds (modify (World.chargeUpload id entry nowMs) >>= fun _ =>
        if maxDeliveryAttempts ≤ entry.charge.attempts then pure () else modify (World.requestPath ops node none) : Proc Env Unit) w := by
      intro w
      rw [Succeeds.modify_bind_iff]
      split
      · exact Succeeds.ofPure ()
      · exact Succeeds.ofModify _
    split
    · exact Succeeds.modify_bind_iff.mpr (charged _)
    · exact charged w
  | some targetCost =>
    have bare : prepared.stamp = none := lacks.resolve_left (by rw [cost]; exact nofun)
    have request : stampRequest id prepared = some ⟨id, prepared.transientId, targetCost⟩ := by
      unfold stampRequest
      rw [bare, cost]
    rw [Option.bind_some, cost, if_neg nofun, request]
    exact Succeeds.ofModify _

theorem advancePrepared_stamped {prepared : OutboundPropagation} {cost : UInt8} {stamp : FixedBytes 32}
    (held : w.router.outbound.get? id = some entry) (envelope : entry.propagation = some prepared)
    (priced : prepared.targetCost = some cost) (stamped : prepared.stamp = some stamp) (nowMs : Nat) :
    Succeeds (advancePrepared prims ops id node link (stampRequest id prepared) nowMs) w ↔
      (stampedAsk prims w.router id entry ⟨prepared.timebase, prepared.unstampedLxmf, stamp⟩ node link).Granted ops
        w.env := by
  have request : stampRequest id prepared = none := by
    unfold stampRequest
    rw [stamped]
  unfold advancePrepared stampedAsk
  rw [Succeeds.get_bind_iff, held]
  dsimp only
  rw [envelope, Option.bind_some, priced, if_neg nofun, request]
  dsimp only
  cases link with
  | none =>
    dsimp only
    rw [Succeeds.modify_bind_iff]
    split
    next => exact iff_of_true (Succeeds.ofPure ()) trivial
    next left =>
      have same : (w.chargeUpload id entry nowMs).env = w.env := by
        unfold World.chargeUpload
        rw [if_neg left]
        unfold World.revise
        split <;> rfl
      rw [attempt_succeeds_iff, same]
      exact ⟨fun ⟨_, ok⟩ => ok, fun ok => ⟨(), ok⟩⟩
  | some link =>
    dsimp only
    unfold uploadPrepared
    rw [Succeeds.get_bind_iff, held, Option.bind_some, envelope]
    dsimp only
    rw [stamped]
    dsimp only
    split
    next =>
      rw [deferUpload_succeeds_iff]
      split
      next outstanding => exact iff_of_true (fun fresh => absurd outstanding fresh) trivial
      next fresh => exact forall_prop_of_true fresh
    next => exact submitUpload_succeeds_iff link _ nowMs

theorem revise_same (held : w.router.outbound.get? id = some entry)
    {write : OutboundEntry → BuildEpochs → OutboundEntry × BuildEpochs}
    (same : write entry w.router.buildEpochs = (entry, w.router.buildEpochs)) : w.revise id write = w := by
  unfold World.revise
  rw [held]
  dsimp only
  rw [same, OrdMap.insert_of_get? held]

theorem setPropagation_propagation (entry : OutboundEntry) (envelope : Option OutboundPropagation) (epochs : BuildEpochs) :
    (entry.setPropagation envelope epochs).1.propagation = envelope := by
  unfold OutboundEntry.setPropagation
  split
  next same => exact same
  next => rfl

theorem retargetPropagation_propagation {prepared : OutboundPropagation} (envelope : entry.propagation = some prepared)
    {cost : Option UInt8} (other : prepared.targetCost ≠ cost) (epochs : BuildEpochs) :
    (entry.retargetPropagation cost epochs).1.propagation =
      some { prepared with targetCost := cost, stamp := none } := by
  unfold OutboundEntry.retargetPropagation
  rw [envelope]
  dsimp only
  rw [if_neg other]

/-- Preparing an upload is refused by the node, or leaves one to be stamped, or finds it stamped for the
selected node. -/
theorem ensurePreparedUpload_cases (prims : Primitives) (held : w.router.outbound.get? id = some entry)
    (propagated : entry.message.method = .propagated) (nowUnix : Rat) :
    (readyUpload ops w entry = none ∧
      ∃ error after, exec (ensurePreparedUpload prims ops id nowUnix) w = (.error (.node error), after)) ∨
    (readyUpload ops w entry = none ∧ ∃ prepared after new,
      exec (ensurePreparedUpload prims ops id nowUnix) w = (.ok (stampRequest id prepared), after) ∧
        after.router.outbound.get? id = some new ∧ new.propagation = some prepared ∧
        (prepared.targetCost = none ∨ prepared.stamp = none)) ∨
    ∃ prepared cost stamp, entry.propagation = some prepared ∧ prepared.targetCost = some cost ∧
      prepared.stamp = some stamp ∧
      readyUpload ops w entry = some ⟨prepared.timebase, prepared.unstampedLxmf, stamp⟩ ∧
      exec (ensurePreparedUpload prims ops id nowUnix) w = (.ok (stampRequest id prepared), w) := by
  unfold ensurePreparedUpload
  rw [Fallible.exec_get_bind, held]
  dsimp only
  rw [if_neg (not_not_intro propagated)]
  unfold readyUpload
  cases envelope : entry.propagation with
  | none =>
    dsimp only
    have ran := exec_attempt (fun error => RouterError.node (.send error)) (ops.encryptForDestination
      entry.message.destinationHash ((entry.message.pack prims).drop Propagation.destinationLength)) w
    generalize ops.encryptForDestination entry.message.destinationHash
      ((entry.message.pack prims).drop Propagation.destinationLength) w.env = answer at ran
    obtain ⟨outcome, env⟩ := answer
    cases outcome with
    | error error =>
      rw [Fallible.exec_bind_error ran]
      exact .inl ⟨rfl, .send error, _, rfl⟩
    | ok encrypted =>
      rw [Fallible.exec_bind_ok ran, Fallible.exec_modify_bind, Fallible.exec_pure]
      refine .inr (.inl ⟨rfl, _, _, _, rfl, revise_held (w := { w with env }) held _, ?_, .inr rfl⟩)
      exact setPropagation_propagation entry _ _
  | some prepared =>
    obtain ⟨timebase, unstampedLxmf, transientId, targetCost, stamp⟩ := prepared
    dsimp only
    rw [Fallible.exec_modify_bind, Fallible.exec_pure]
    by_cases same : targetCost = selectedStampCost ops w
    · have unchanged : decide (targetCost ≠ selectedStampCost ops w) = false := decide_eq_false (not_not_intro same)
      have kept : w.revise id (fun entry epochs => entry.retargetPropagation (selectedStampCost ops w) epochs) = w := by
        refine revise_same held ?_
        unfold OutboundEntry.retargetPropagation
        rw [envelope]
        dsimp only
        rw [if_pos same]
      have clean : w.markDirtyIf false = w := by
        unfold World.markDirtyIf
        rw [Bool.or_false]
      rw [unchanged, kept, clean, if_neg nofun]
      cases targetCost with
      | none => exact .inr (.inl ⟨rfl, _, w, entry, rfl, held, envelope, .inl rfl⟩)
      | some cost =>
        cases stamp with
        | none => exact .inr (.inl ⟨rfl, _, w, entry, rfl, held, envelope, .inr rfl⟩)
        | some stamp => exact .inr (.inr ⟨_, cost, stamp, rfl, rfl, rfl, if_pos same.symm, rfl⟩)
    · have unready : readyUpload ops w entry = none := by
        unfold readyUpload
        rw [envelope]
        split
        next cost _ found =>
          cases found
          exact if_neg (Ne.symm same)
        next => rfl
      unfold readyUpload at unready
      rw [envelope] at unready
      rw [decide_eq_true same, if_pos rfl]
      refine .inr (.inl ⟨unready, _, _, _, rfl, revise_held held _, ?_, .inr rfl⟩)
      exact retargetPropagation_propagation envelope same _

theorem advanceUpload_succeeds_iff (held : w.router.outbound.get? id = some entry)
    (propagated : entry.message.method = .propagated) (nowMs : Nat) (nowUnix : Rat) :
    Succeeds (advanceUpload prims ops id node link nowMs nowUnix) w ↔
      (entryAsk ops prims nowUnix w id entry node link).Granted ops w.env := by
  unfold advanceUpload entryAsk
  rw [Succeeds.get_bind_iff, held]
  dsimp only
  split
  next => exact iff_of_true (Succeeds.ofModify _) trivial
  next =>
    split
    next cost pending =>
      have waits : entry.message.stamp.isNone ∧
          (w.router.outboundStampCostAt entry.message.destinationHash nowUnix).isSome := by
        split at pending
        next bare => exact ⟨bare, by rw [pending]; rfl⟩
        next => cases pending
      rw [if_pos waits]
      exact iff_of_true (Succeeds.ofModify _) trivial
    next free =>
      have goes : ¬(entry.message.stamp.isNone ∧
          (w.router.outboundStampCostAt entry.message.destinationHash nowUnix).isSome) := by
        rintro ⟨bare, some⟩
        rw [if_pos bare] at free
        rw [free] at some
        cases some
      rw [if_neg goes, Succeeds.bind_iff (Moves.exec_tryProc _ _)]
      rcases ensurePreparedUpload_cases prims held propagated nowUnix with ⟨unready, error, after, ran⟩ |
        ⟨unready, prepared, after, new, ran, there, envelope, lacks⟩ | ⟨prepared, cost, stamp, envelope, priced, stamped, ready, ran⟩
      · rw [ran, unready]
        exact iff_of_true (Succeeds.ofModify _) trivial
      · rw [ran, unready]
        exact iff_of_true (advancePrepared_waits there envelope lacks nowMs) trivial
      · rw [ran, ready]
        exact advancePrepared_stamped held envelope priced stamped nowMs

/-- The upload of `id`, if it is queued, has no stamp cost to go by. -/
def Unpriced (id : MessageId) (w : World Env) : Prop :=
  ∀ entry, w.router.outbound.get? id = some entry → entry.message.method = .propagated →
    entry.propagation.bind OutboundPropagation.targetCost = none

theorem retargetPropagation_none (entry : OutboundEntry) (epochs : BuildEpochs) :
    (entry.retargetPropagation none epochs).1.propagation.bind OutboundPropagation.targetCost = none := by
  unfold OutboundEntry.retargetPropagation
  split
  next bare =>
    dsimp only
    rw [bare]
    rfl
  next prepared envelope =>
    split
    next same =>
      dsimp only
      rw [envelope]
      exact same
    next => rfl

theorem Unpriced.retargetUpload {other : MessageId} (unpriced : other = id ∨ Unpriced id w) (nowMs : Nat) :
    Unpriced id (w.retargetUpload nowMs other) := by
  intro new found propagated
  unfold World.retargetUpload at found
  split at found
  next uploads =>
    by_cases same : other = id
    · subst same
      obtain ⟨entry, held, -⟩ := (Option.any_eq_true _ _).mp uploads
      rw [revise_held held] at found
      obtain rfl := Option.some.inj found
      dsimp only
      rw [setState_propagation]
      exact retargetPropagation_none entry _
    · have spared := (Spares.revise same (fun entry epochs =>
        let retargeted := entry.retargetPropagation none epochs
        let written := retargeted.1.setState .outbound retargeted.2
        ({ written.1 with nextAttemptMs := nowMs }, written.2)) w).entry
      exact unpriced.resolve_left same new (spared ▸ found) propagated
  next others =>
    by_cases same : other = id
    · subst same
      rw [found] at others
      exact absurd (decide_eq_true propagated) others
    · exact unpriced.resolve_left same new found propagated

theorem Unpriced.retargetAll {ids : List MessageId} (unpriced : id ∈ ids ∨ Unpriced id w) (nowMs : Nat) :
    Unpriced id (ids.foldl (World.retargetUpload nowMs) w) := by
  induction ids generalizing w with
  | nil => exact unpriced.resolve_left List.not_mem_nil
  | cons other rest ih =>
    refine ih ?_
    rcases unpriced with member | before
    · rcases List.mem_cons.mp member with rfl | later
      · exact .inr (Unpriced.retargetUpload (.inl rfl) nowMs)
      · exact .inl later
    · exact .inr (Unpriced.retargetUpload (.inr before) nowMs)

theorem Unpriced.retargetUploads (id : MessageId) (nowMs : Nat) (w : World Env) : Unpriced id (w.retargetUploads nowMs) := by
  refine Unpriced.retargetAll ?_ nowMs
  by_cases member : id ∈ w.router.outbound.keys
  · exact .inl member
  · exact .inr (fun entry held => absurd (OrdMap.mem_keys.mpr ⟨entry, held⟩) member)

theorem readyUpload_unpriced (unpriced : entry.propagation.bind OutboundPropagation.targetCost = none) :
    readyUpload ops w entry = none := by
  unfold readyUpload
  split
  next envelope =>
    rw [envelope] at unpriced
    cases unpriced
  next => rfl

theorem dueAsk_granted_iff (node : DestinationHash) (nowMs : Nat) (nowUnix : Rat) :
    Succeeds (if (ops.activeLink w.env node).any (fun link => (ops.activeUpload w.env link).isSome) then pure ()
      else
        match dueUpload w.router nowMs with
        | none => pure ()
        | some id => advanceUpload prims ops id node (ops.activeLink w.env node) nowMs nowUnix) w ↔
      (dueAsk ops prims nowUnix w node nowMs).Granted ops w.env := by
  unfold dueAsk
  split
  next => exact iff_of_true (Succeeds.ofPure ()) trivial
  next =>
    split
    next => exact iff_of_true (Succeeds.ofPure ()) trivial
    next id due =>
      obtain ⟨e, found, rfl⟩ := Option.map_eq_some_iff.mp due
      have held : w.router.outbound.get? e.1 = some e.2 := OrdMap.get?_eq_some.mpr (List.mem_of_find?_eq_some found)
      have propagated : e.2.message.method = .propagated := Moves.uploads_of_dueUpload due e.2 held
      rw [held]
      exact advanceUpload_succeeds_iff held propagated nowMs nowUnix

theorem dueAsk_unpriced (unpriced : ∀ id, Unpriced id w) (node : DestinationHash) (nowMs : Nat) (nowUnix : Rat) :
    (dueAsk ops prims nowUnix w node nowMs).Granted ops w.env := by
  unfold dueAsk
  split
  next => trivial
  next =>
    split
    next => trivial
    next id due =>
      split
      next => trivial
      next entry held =>
        unfold entryAsk
        rw [readyUpload_unpriced (unpriced id entry held (Moves.uploads_of_dueUpload due entry held))]
        split
        · trivial
        · split <;> trivial

theorem tickOutbound_succeeds_iff (nowUnix : Rat) :
    Succeeds (tickOutbound prims ops nowUnix) w ↔
      (uploadAsk ops prims nowUnix (w.clientState.any syncIsActive) w).Granted ops w.env := by
  unfold tickOutbound uploadAsk
  rw [Succeeds.get_bind_iff]
  dsimp only
  cases selected : w.outboundNode with
  | none => exact iff_of_true (Succeeds.ofPure ()) trivial
  | some node =>
    dsimp only
    rw [Succeeds.modify_bind_iff, Succeeds.get_bind_iff]
    refine (dueAsk_granted_iff _ _ nowUnix).trans ?_
    have stays (same : w.switchNode ops node (w.nowMs ops) = w) :
        (dueAsk ops prims nowUnix (w.switchNode ops node (w.nowMs ops))
          ((w.switchNode ops node (w.nowMs ops)).outboundNode.getD node) (w.nowMs ops)).Granted ops
          (w.switchNode ops node (w.nowMs ops)).env ↔
        (dueAsk ops prims nowUnix w node (w.nowMs ops)).Granted ops w.env := by
      rw [same, selected, Option.getD_some]
    split
    next leaves =>
      refine iff_of_true (dueAsk_unpriced (fun id => ?_) _ _ nowUnix) trivial
      obtain ⟨alternative, found⟩ := Option.isSome_iff_exists.mp leaves.2
      unfold World.switchNode
      rw [if_pos leaves.1, found]
      exact Unpriced.retargetUploads id _ _
    next stay =>
      refine stays ?_
      unfold World.switchNode
      split
      next lost =>
        split
        next => rfl
        next found => exact absurd ⟨lost, by rw [found]; rfl⟩ stay
      next => rfl

end Upload

/-! ### The mailbox client -/

/-- Of the router only the client's own state is written. -/
structure ClientWrite (w w' : World Env) : Prop where
  router : w'.router = { w.router with propagation := w'.router.propagation }
  node : w'.outboundNode = w.outboundNode

namespace ClientWrite

variable {w w' w'' : World Env}

theorem ofSame (same : w'.router = w.router) : ClientWrite w w' where
  router := by rw [same]
  node := by
    unfold World.outboundNode
    rw [same]

theorem trans (first : ClientWrite w w') (second : ClientWrite w' w'') : ClientWrite w w'' where
  router := by rw [second.router, first.router]
  node := second.node.trans first.node

theorem setClient (write : MailboxSync → MailboxSync) (w : World Env) : ClientWrite w (w.setClient write) where
  router := rfl
  node := by
    unfold World.outboundNode World.setClient World.setRuntime
    cases w.router.propagation <;> rfl

theorem ofClient (write : MailboxSync → MailboxSync) (same : w'.router = (w.setClient write).router) : ClientWrite w w' :=
  (setClient write w).trans (ofSame same)

end ClientWrite

theorem emitSyncStatus_eq (w : World Env) : w.emitSyncStatus.router = w.router ∧ w.emitSyncStatus.env = w.env := by
  unfold World.emitSyncStatus
  split <;> exact ⟨rfl, rfl⟩

theorem setClient_propagation {w : World Env} {runtime : PropagationRuntime} (enabled : w.router.propagation = some runtime)
    (write : MailboxSync → MailboxSync) :
    (w.setClient write).router.propagation = some { runtime with client := write runtime.client } := by
  unfold World.setClient World.setRuntime
  dsimp only
  rw [enabled]
  rfl

theorem setClientState_spec {w : World Env} {runtime : PropagationRuntime} (enabled : w.router.propagation = some runtime)
    (state : PropagationClientState) :
    ClientWrite w (w.setClientState state) ∧ (w.setClientState state).env = w.env ∧
      (w.setClientState state).clientState = some state := by
  have last : ∀ {started : World Env} {runtime : PropagationRuntime}, started.router.propagation = some runtime →
      let moved := if started.clientState = some state then started
        else (started.setClient (fun client => { client with state })).emitSyncStatus
      ClientWrite started moved ∧ moved.env = started.env ∧ moved.clientState = some state := by
    intro started runtime held
    dsimp only
    split
    next same => exact ⟨.ofSame rfl, rfl, same⟩
    next =>
      obtain ⟨router, env⟩ := emitSyncStatus_eq (started.setClient (fun client => { client with state }))
      refine ⟨(ClientWrite.setClient _ _).trans (.ofSame router), env, ?_⟩
      unfold World.clientState
      rw [router, setClient_propagation held]
      rfl
  unfold World.setClientState
  split
  · obtain ⟨write, rest⟩ := last (setClient_propagation enabled
      (fun client => { client with progress := 0, pathDeadlineMs := none }))
    exact ⟨(ClientWrite.setClient _ w).trans write, rest⟩
  · exact last enabled

/-- What the client's turn leaves: the node as it was asked, and whether the round runs. -/
structure ClientTurn (runtime : PropagationRuntime) (w after : World Env) : Prop where
  write : ClientWrite w after
  env : after.env = clientAsked ops runtime w.env
  runs : after.outboundNode.isSome → after.clientState.any syncIsActive = roundRuns ops runtime w.env

section Turn

variable {ops} {w : World Env} {runtime : PropagationRuntime} {node : DestinationHash}

theorem tickClient_linking (enabled : w.router.propagation = some runtime) (waits : runtime.client.state = .pathRequested)
    (selected : runtime.outboundNode = some node) (path : ops.hasPath w.env node = true) :
    let asked := ops.ensureLink node w.env
    (∃ error after, asked.1 = .error error ∧ exec (tickClient ops) w = (.error (.propagationTransport error), after)) ∨
      asked.1 = .ok () ∧ ∃ after, exec (tickClient ops) w = (.ok (), after) ∧ ClientTurn ops runtime w after := by
  dsimp only
  unfold tickClient
  rw [Fallible.exec_get_bind, enabled]
  dsimp only
  rw [if_neg (not_not_intro waits), selected]
  dsimp only
  rw [if_pos path, Fallible.exec_modify_bind]
  obtain ⟨write, env, state⟩ := setClientState_spec (setClient_propagation enabled
    (fun client => { client with pathDeadlineMs := none, pathEndedMs := some (w.nowMs ops) })) .linkEstablishing
  generalize World.setClientState _ _ = started at write env state
  have ran := exec_attempt RouterError.propagationTransport (ops.ensureLink node) started
  have unchanged : started.env = w.env := env
  rw [unchanged] at ran
  cases answer : (ops.ensureLink node w.env).1 with
  | error error =>
    rw [answer] at ran
    rw [Fallible.exec_bind_error ran]
    exact .inl ⟨error, _, rfl, rfl⟩
  | ok value =>
    rw [answer] at ran
    rw [Fallible.exec_bind_ok ran, Fallible.exec_modify]
    refine .inr ⟨rfl, _, rfl, ?_, ?_, fun _ => ?_⟩
    · exact ((ClientWrite.setClient _ w).trans write).trans (.ofSame rfl)
    · unfold clientAsked
      rw [selected]
      dsimp only
      rw [if_neg (not_not_intro waits), if_pos path]
      rfl
    · have active : started.clientState.any syncIsActive = true := by
        rw [state]
        rfl
      unfold roundRuns
      rw [if_pos waits, selected, Option.any_some, path, Bool.true_or]
      exact active

/-- There is no path yet: the client gives up, asks once more or waits on. -/
theorem tickClient_waiting (enabled : w.router.propagation = some runtime) (waits : runtime.client.state = .pathRequested)
    (selected : runtime.outboundNode = some node) (pathless : ops.hasPath w.env node = false) :
    ∃ after, exec (tickClient ops) w = (.ok (), after) ∧ ClientTurn ops runtime w after := by
  have state : w.clientState.any syncIsActive = true := by
    unfold World.clientState
    rw [enabled, Option.map_some, waits]
    rfl
  have runs : roundRuns ops runtime w.env = !runtime.client.pathDeadlineMs.any (· ≤ w.nowMs ops) := by
    unfold roundRuns World.nowMs
    rw [if_pos waits, selected, Option.any_some, pathless, Bool.false_or]
  have asked : clientAsked ops runtime w.env =
      if runtime.client.pathDeadlineMs.any (· ≤ w.nowMs ops) then ops.cancel node w.env
      else if runtime.client.nextPathRequestMs.any (· ≤ w.nowMs ops) then ops.requestPath node w.env else w.env := by
    unfold clientAsked World.nowMs
    rw [selected]
    dsimp only
    rw [if_neg (not_not_intro waits), if_neg (by rw [pathless]; exact nofun)]
  unfold tickClient
  rw [Fallible.exec_get_bind, enabled]
  dsimp only
  rw [if_neg (not_not_intro waits), selected]
  dsimp only
  rw [if_neg (by rw [pathless]; exact nofun)]
  split
  next spent =>
    rw [Fallible.exec_modify]
    refine ⟨_, rfl, ?_⟩
    have cancelled := setClient_propagation enabled
      (fun client => { client with pathDeadlineMs := none, pathEndedMs := some (w.nowMs ops) })
    obtain ⟨write, env, state⟩ := setClientState_spec (w := ({ w.setClient (fun client =>
      { client with pathDeadlineMs := none, pathEndedMs := some (w.nowMs ops) }) with
      env := ops.cancel node w.env } : World Env).act (.cancelLink node)) cancelled .noPath
    refine ⟨ClientWrite.trans ?_ write, ?_, fun _ => ?_⟩
    · exact .ofClient (fun client => { client with pathDeadlineMs := none, pathEndedMs := some (w.nowMs ops) }) rfl
    · rw [asked, if_pos spent]
      exact env
    · rw [runs, spent, state]
      rfl
  next early =>
    have going : roundRuns ops runtime w.env = true := by
      rw [runs, Bool.eq_false_of_not_eq_true early]
      rfl
    split
    next again =>
      rw [Fallible.exec_modify]
      refine ⟨_, rfl, .ofClient (fun client =>
        { client with
          pathRequests := client.pathRequests + 1
          nextPathRequestMs := some (satAdd (w.nowMs ops) pathRequestWaitMs) }) rfl, ?_, fun _ => ?_⟩
      · rw [asked, if_neg early, if_pos again]
        rfl
      · rw [going, ← state]
        unfold World.clientState World.setClient World.setRuntime World.requestPath World.act
        dsimp only
        rw [enabled]
        rfl
    next quiet =>
      rw [Fallible.exec_pure]
      refine ⟨w, rfl, .ofSame rfl, ?_, fun _ => ?_⟩
      · rw [asked, if_neg early, if_neg quiet]
      · rw [going, state]

theorem tickClient_idle (enabled : w.router.propagation = some runtime) (idle : runtime.client.state ≠ .pathRequested) :
    exec (tickClient ops) w = (.ok (), w) ∧ ClientTurn ops runtime w w := by
  unfold tickClient
  rw [Fallible.exec_get_bind, enabled]
  dsimp only
  rw [if_pos idle, Fallible.exec_pure]
  refine ⟨rfl, .ofSame rfl, ?_, fun _ => ?_⟩
  · unfold clientAsked
    split
    · rfl
    · rw [if_pos idle]
  · unfold roundRuns World.clientState
    rw [if_neg idle, enabled]
    rfl

theorem tickClient_lost (enabled : w.router.propagation = some runtime) (waits : runtime.client.state = .pathRequested)
    (lost : runtime.outboundNode = none) :
    ∃ after, exec (tickClient ops) w = (.ok (), after) ∧ ClientTurn ops runtime w after := by
  unfold tickClient
  rw [Fallible.exec_get_bind, enabled]
  dsimp only
  rw [if_neg (not_not_intro waits), lost]
  obtain ⟨write, env, -⟩ := setClientState_spec enabled .failed
  refine ⟨_, rfl, write, ?_, fun found => ?_⟩
  · unfold clientAsked
    rw [lost]
    exact env
  · have absent : w.outboundNode = none := by
      unfold World.outboundNode
      rw [enabled]
      exact lost
    rw [write.node, absent] at found
    cases found

variable (ops) in
theorem tickClient_cases (enabled : w.router.propagation = some runtime) :
    (¬(clientAsk ops runtime w.env).Granted ops w.env ∧ ∃ error after, exec (tickClient ops) w = (.error error, after)) ∨
      (clientAsk ops runtime w.env).Granted ops w.env ∧
        ∃ after, exec (tickClient ops) w = (.ok (), after) ∧ ClientTurn ops runtime w after := by
  unfold clientAsk
  cases selected : runtime.outboundNode with
  | none =>
    refine .inr ⟨trivial, ?_⟩
    by_cases waits : runtime.client.state = .pathRequested
    · exact tickClient_lost enabled waits selected
    · exact ⟨w, tickClient_idle enabled waits⟩
  | some node =>
    dsimp only
    split
    next linking =>
      rcases tickClient_linking enabled linking.1 selected linking.2 with ⟨error, after, refused, ran⟩ | ⟨granted, turn⟩
      · refine .inl ⟨fun granted => ?_, _, after, ran⟩
        cases refused.symm.trans granted
      · exact .inr ⟨granted, turn⟩
    next other =>
      refine .inr ⟨trivial, ?_⟩
      by_cases waits : runtime.client.state = .pathRequested
      · exact tickClient_waiting enabled waits selected (Bool.eq_false_of_not_eq_true (fun path => other ⟨waits, path⟩))
      · exact ⟨w, tickClient_idle enabled waits⟩

end Turn

/-! ### The whole part -/

theorem foldl_orphans (lost : List KnownPropagationNode) (w : World Env) :
    ∃ out, lost.foldl (fun (world : World Env) known =>
      let world := world.requestPath ops known.destination none
      { world with env := ops.forgetKnownNode known.destination world.env }) w =
        { w with
          env := lost.foldl (fun env known => ops.forgetKnownNode known.destination (ops.requestPath known.destination env)) w.env
          out } := by
  induction lost generalizing w with
  | nil => exact ⟨w.out, rfl⟩
  | cons known rest ih =>
    obtain ⟨out, same⟩ := ih ({ w.requestPath ops known.destination none with
      env := ops.forgetKnownNode known.destination (w.requestPath ops known.destination none).env })
    exact ⟨out, same⟩

theorem refreshOrphanedNodes_eq (w : World Env) :
    ∃ out, w.refreshOrphanedNodes ops = { w with env := orphansAsked ops w.env, out } := foldl_orphans ops _ w

theorem uploadAsk_turn {runtime : PropagationRuntime} {w after : World Env} (turn : ClientTurn ops runtime w after)
    (nowUnix : Rat) :
    uploadAsk ops prims nowUnix (after.clientState.any syncIsActive) after =
      uploadAsk ops prims nowUnix (roundRuns ops runtime w.env) { w with env := clientAsked ops runtime w.env } := by
  obtain ⟨⟨same, node⟩, env, runs⟩ := turn
  have node : ({ w with env := after.env } : World Env).outboundNode = after.outboundNode := node.symm
  have clientless : ∀ runs, uploadAsk ops prims nowUnix runs after =
      uploadAsk ops prims nowUnix runs { w with env := after.env } := by
    intro runs
    obtain ⟨router, env, out⟩ := after
    dsimp only at same
    unfold uploadAsk dueAsk entryAsk readyUpload selectedStampCost stampedAsk
    rw [node, same]
    rfl
  rw [← env, ← clientless]
  cases selected : after.outboundNode with
  | none =>
    unfold uploadAsk
    rw [selected]
  | some destination => rw [runs (by rw [selected]; rfl)]

theorem anchored_same (w : World Env) :
    (w.anchored ops).env = w.env ∧ (w.anchored ops).router.propagation = w.router.propagation := by
  unfold World.anchored World.anchorWallClock
  dsimp only
  split
  · exact ⟨rfl, rfl⟩
  · split <;> exact ⟨rfl, rfl⟩

theorem propagationPart_succeeds_iff (w : World Env) :
    Succeeds (propagationPart ops prims w) (w.anchored ops) ↔ PropagationServed ops prims w := by
  obtain ⟨sameEnv, sameRuntime⟩ := anchored_same ops w
  unfold propagationPart PropagationServed
  cases enabled : w.router.propagation with
  | none =>
    rw [if_pos Option.isNone_none]
    exact iff_of_true (Succeeds.ofPure ()) (fun _ absent => nomatch absent)
  | some runtime =>
    rw [if_neg (by exact nofun)]
    simp only [Option.some.injEq, forall_eq']
    obtain ⟨out, refreshed⟩ := refreshOrphanedNodes_eq ops (w.anchored ops)
    rw [sameEnv] at refreshed
    unfold propagationTick
    rw [Succeeds.modify_bind_iff, refreshed]
    have enabled' : ({ w.anchored ops with env := orphansAsked ops w.env, out } : World Env).router.propagation =
        some runtime := sameRuntime.trans enabled
    rcases tickClient_cases ops enabled' with ⟨refused, error, after, ran⟩ | ⟨granted, after, ran, turn⟩
    · exact iff_of_false (Succeeds.not_bind ran _) (fun both => refused both.1)
    · rw [Succeeds.bind_iff ran, tickOutbound_succeeds_iff, uploadAsk_turn ops turn, turn.env]
      exact ⟨fun upload => ⟨granted, upload⟩, And.right⟩

end Leviculum.Router
