import Leviculum.Transport.Replay
import Leviculum.Lib.OrdMap
import Mathlib.Data.List.Induction

/-! Announces an ingress burst holds back: one copy for each destination, released when the burst has calmed. -/

namespace Leviculum.Transport.HeldAnnounce

/-- The copies held on one interface. -/
abbrev Queue := OrdMap TruncatedHash Announce

/-- `hold_announce`: of two copies of a destination the one with fewer hops stays, the newer one at a tie.
Whether it was stored, and the queue. -/
def holdAnnounce (maxHeldAnnounces : Nat) (queue : Queue) (dest : TruncatedHash) (a : Announce) : Bool × Queue :=
  if queue.size ≥ maxHeldAnnounces ∧ !queue.contains dest then (false, queue)
  else
    match queue.get? dest with
    | some existing => if a.hops > existing.hops then (true, queue) else (true, queue.insert dest a)
    | none => (true, queue.insert dest a)

/-- The held copy with the fewest hops, the first of those; never one at the hop limit. -/
def select (queue : Queue) : Option (TruncatedHash × Announce) :=
  queue.entries.foldl (fun best held =>
    if held.2.hops < (best.map (fun b => b.2.hops)).getD pathfinderMaxHops then some held else best) none

inductive Event where
  | hold (dest : TruncatedHash) (a : Announce)
  /-- The release timer has run out and the burst has calmed. -/
  | release

def step (maxHeldAnnounces : Nat) (queue : Queue) : Event → Queue
  | .hold dest a => (holdAnnounce maxHeldAnnounces queue dest a).2
  | .release =>
    match select queue with
    | none => queue
    | some (dest, _) => queue.erase dest

def after (maxHeldAnnounces : Nat) (queue : Queue) (events : List Event) : Queue :=
  events.foldl (step maxHeldAnnounces) queue

def arrivals (dest : TruncatedHash) (events : List Event) : List Announce :=
  events.filterMap (fun event =>
    match event with
    | .hold other a => if other = dest then some a else none
    | .release => none)

def AllHeld (maxHeldAnnounces : Nat) (dest : TruncatedHash) (queue : Queue) (events : List Event) : Prop :=
  ∀ done event rest, events = done ++ event :: rest →
    match event with
    | .hold other a => other = dest → (holdAnnounce maxHeldAnnounces (after maxHeldAnnounces queue done) dest a).1 = true
    | .release => ∀ held, select (after maxHeldAnnounces queue done) ≠ some (dest, held)

def LastShortest (seq : List Announce) (held : Announce) : Prop :=
  ∃ before later, seq = before ++ held :: later ∧ (∀ a ∈ before, held.hops ≤ a.hops) ∧ ∀ a ∈ later, held.hops < a.hops

theorem LastShortest.le {seq : List Announce} {held : Announce} (last : LastShortest seq held) {a : Announce}
    (member : a ∈ seq) : held.hops ≤ a.hops := by
  obtain ⟨before, later, rfl, earlier, longer⟩ := last
  rcases List.mem_append.mp member with there | there
  · exact earlier a there
  · rcases List.mem_cons.mp there with rfl | behind
    · exact Nat.le_refl _
    · exact Nat.le_of_lt (longer a behind)

theorem LastShortest.mem {seq : List Announce} {held : Announce} (last : LastShortest seq held) : held ∈ seq := by
  obtain ⟨before, later, rfl, -⟩ := last
  exact List.mem_append_right _ List.mem_cons_self

theorem LastShortest.unique {seq : List Announce} {held other : Announce} (last : LastShortest seq held)
    (also : LastShortest seq other) : other = held := by
  have same : held.hops = other.hops := Nat.le_antisymm (last.le also.mem) (also.le last.mem)
  obtain ⟨before, later, rfl, -, longer⟩ := last
  obtain ⟨before', later', split, -, longer'⟩ := also
  -- Whichever of the two comes first has the other behind it, which is longer than it.
  rcases List.append_eq_append_iff.mp split with ⟨gap, first, second⟩ | ⟨gap, first, second⟩
  · cases gap with
    | nil => exact (List.cons.inj second).1.symm
    | cons head gap =>
      obtain ⟨rfl, rest⟩ := List.cons.inj second
      have behind : other ∈ later := rest ▸ List.mem_append_right _ List.mem_cons_self
      have longest := longer other behind
      omega
  · cases gap with
    | nil => exact (List.cons.inj second).1
    | cons head gap =>
      obtain ⟨rfl, rest⟩ := List.cons.inj second
      have behind : held ∈ later' := rest ▸ List.mem_append_right _ List.mem_cons_self
      have longest := longer' held behind
      omega

/-- What a queue holds of a destination after these arrivals. -/
def Holds (held : Option Announce) (seq : List Announce) : Prop :=
  match held with
  | none => seq = []
  | some a => LastShortest seq a

theorem arrivals_append (dest : TruncatedHash) (events : List Event) (event : Event) :
    arrivals dest (events ++ [event]) = arrivals dest events ++ arrivals dest [event] := by
  unfold arrivals
  rw [List.filterMap_append]

theorem after_append (maxHeldAnnounces : Nat) (queue : Queue) (events : List Event) (event : Event) :
    after maxHeldAnnounces queue (events ++ [event]) = step maxHeldAnnounces (after maxHeldAnnounces queue events) event := by
  unfold after
  rw [List.foldl_append]
  rfl

theorem holds_hold {maxHeldAnnounces : Nat} {queue : Queue} {dest : TruncatedHash} {a : Announce}
    {seq : List Announce} (holds : Holds (queue.get? dest) seq)
    (stored : (holdAnnounce maxHeldAnnounces queue dest a).1 = true) :
    Holds ((holdAnnounce maxHeldAnnounces queue dest a).2.get? dest) (seq ++ [a]) := by
  unfold holdAnnounce at stored ⊢
  split_ifs at stored ⊢ with full
  cases found : queue.get? dest with
  | none =>
    rw [found] at holds
    obtain rfl : seq = [] := holds
    dsimp only
    rw [OrdMap.get?_insert, if_pos rfl]
    exact ⟨[], [], rfl, nofun, nofun⟩
  | some existing =>
    rw [found] at holds
    dsimp only
    split_ifs with longer
    · rw [found]
      obtain ⟨before, later, rfl, earlier, behind⟩ := holds
      refine ⟨before, later ++ [a], by simp, earlier, ?_⟩
      intro b member
      rcases List.mem_append.mp member with old | new
      · exact behind b old
      · rw [List.mem_singleton.mp new]
        exact longer
    · rw [OrdMap.get?_insert, if_pos rfl]
      refine ⟨seq, [], rfl, ?_, nofun⟩
      intro b member
      have shortest := LastShortest.le holds member
      omega

theorem get?_hold_of_ne {dest other : TruncatedHash} (apart : dest ≠ other) (maxHeldAnnounces : Nat) (queue : Queue)
    (a : Announce) : (holdAnnounce maxHeldAnnounces queue other a).2.get? dest = queue.get? dest := by
  have inserted : (queue.insert other a).get? dest = queue.get? dest := by
    rw [OrdMap.get?_insert, if_neg apart]
  unfold holdAnnounce
  split_ifs
  · rfl
  · split
    · split_ifs
      · rfl
      · exact inserted
    · exact inserted

theorem holds_after {maxHeldAnnounces : Nat} {dest : TruncatedHash} {queue : Queue}
    (absent : queue.get? dest = none) (events : List Event) (held : AllHeld maxHeldAnnounces dest queue events) :
    Holds ((after maxHeldAnnounces queue events).get? dest) (arrivals dest events) := by
  induction events using List.reverseRecOn with
  | nil =>
    show Holds (queue.get? dest) []
    rw [absent]
    rfl
  | append_singleton events event ih =>
    have before : Holds ((after maxHeldAnnounces queue events).get? dest) (arrivals dest events) := by
      refine ih ?_
      intro done next rest split
      exact held done next (rest ++ [event]) (by rw [split]; simp)
    have here := held events event [] rfl
    rw [after_append, arrivals_append]
    cases event with
    | hold other a =>
      by_cases same : other = dest
      · subst same
        have single : arrivals other [.hold other a] = [a] := by simp [arrivals]
        rw [single]
        exact holds_hold before (here rfl)
      · have single : arrivals dest [.hold other a] = [] := by simp [arrivals, same]
        show Holds ((holdAnnounce maxHeldAnnounces _ other a).2.get? dest) _
        rw [single, List.append_nil, get?_hold_of_ne (Ne.symm same)]
        exact before
    | release =>
      show Holds ((step maxHeldAnnounces _ .release).get? dest) (arrivals dest events ++ [])
      rw [List.append_nil]
      unfold step
      cases chosen : select (after maxHeldAnnounces queue events) with
      | none => exact before
      | some released =>
        have apart : dest ≠ released.1 := by
          intro same
          exact here released.2 (by rw [chosen, same])
        show Holds (((after maxHeldAnnounces queue events).erase released.1).get? dest) _
        rw [OrdMap.get?_erase, if_neg apart]
        exact before

theorem select_mem {queue : Queue} {dest : TruncatedHash} {held : Announce} (chosen : select queue = some (dest, held)) :
    queue.get? dest = some held := by
  have loop : ∀ (entries : List (TruncatedHash × Announce)) (best : Option (TruncatedHash × Announce)),
      entries.foldl (fun best held =>
        if held.2.hops < (best.map (fun b => b.2.hops)).getD pathfinderMaxHops then some held else best) best =
          some (dest, held) → best = some (dest, held) ∨ (dest, held) ∈ entries := by
    intro entries
    induction entries with
    | nil => exact fun best found => .inl found
    | cons entry entries ih =>
      intro best found
      rcases ih _ found with first | later
      · dsimp only at first
        split_ifs at first with shorter
        · cases first
          exact .inr List.mem_cons_self
        · exact .inl first
      · exact .inr (List.mem_cons_of_mem _ later)
  rcases loop queue.entries none chosen with first | member
  · cases first
  · exact OrdMap.get?_eq_some.mpr member

theorem released_lastShortest {maxHeldAnnounces : Nat} {dest : TruncatedHash} {queue : Queue} {events : List Event}
    {released : Announce} (absent : queue.get? dest = none) (held : AllHeld maxHeldAnnounces dest queue events)
    (chosen : select (after maxHeldAnnounces queue events) = some (dest, released)) :
    LastShortest (arrivals dest events) released := by
  have holds := holds_after absent events held
  rw [select_mem chosen] at holds
  exact holds

/-! ### Without holding -/

/-- What can be told of a route: emission, hops and next hop. -/
def shown (r : Route) : Option (Nat × Nat × Option TruncatedHash) :=
  r.path.map (fun path => (maxEmissionFromBlobs path.randomBlobs, path.hops, path.nextHop))

/-- No news but the announces of one interface: the path, if there is one, is not given up, no loop of the
destination is proven and it is not known as a local client's. -/
structure Calm (cfg : AnnounceConfig) (interfaceIndex : Nat) (r : Route) : Prop where
  responsive : r.pathIsUnresponsive = false
  open_ : r.loopRefusals = []
  foreign : cfg.isLocalClient interfaceIndex = true ∨ r.localClientKnownDest = false

/-- The rows `Calm` is about. -/
def calmRows (r : Route) : Option PathState × List LoopRefusal × Bool :=
  (r.pathState, r.loopRefusals, r.localClientKnownDest)

theorem calm_congr {cfg : AnnounceConfig} {interfaceIndex : Nat} {r r' : Route} (calm : Calm cfg interfaceIndex r)
    (same : calmRows r' = calmRows r) : Calm cfg interfaceIndex r' := by
  obtain ⟨state, refusals, known⟩ : r'.pathState = r.pathState ∧ r'.loopRefusals = r.loopRefusals ∧
      r'.localClientKnownDest = r.localClientKnownDest := by
    simpa only [calmRows, Prod.mk.injEq] using same
  refine ⟨?_, refusals.trans calm.open_, ?_⟩
  · have responsive := calm.responsive
    unfold Route.pathIsUnresponsive at responsive ⊢
    rw [state, responsive]
  · rw [known]
    exact calm.foreign

theorem calmRows_rateWindow (cfg : AnnounceConfig) (r : Route) (a : Announce) :
    calmRows ((r.noteDirectLinkEvidence cfg a).rateWindow cfg a).2 = calmRows r := by
  have noted : calmRows (r.noteDirectLinkEvidence cfg a) = calmRows r := by
    unfold Route.noteDirectLinkEvidence
    split <;> rfl
  unfold Route.rateWindow
  split
  · exact noted
  · split <;> exact noted

theorem calmRows_scheduleAnnounce (cfg : AnnounceConfig) (r : Route) (a : Announce) (rateLimited : Bool) :
    calmRows (r.scheduleAnnounce cfg a rateLimited) = calmRows r := by
  have rate : calmRows (r.checkAnnounceRate cfg a).2 = calmRows r := by
    unfold Route.checkAnnounceRate
    split
    · rfl
    · split
      · rfl
      · dsimp only
        split_ifs <;> rfl
  unfold Route.scheduleAnnounce
  dsimp only
  split_ifs <;> first | rfl | exact rate

theorem refusesProvenLoop_calm {cfg : AnnounceConfig} {interfaceIndex : Nat} {r : Route}
    (calm : Calm cfg interfaceIndex r) (a : Announce) : r.refusesProvenLoop a = (false, r) := by
  unfold Route.refusesProvenLoop
  rw [calm.open_]
  dsimp only [List.filter_nil, List.any_nil]
  rw [← calm.open_]

theorem calm_handleAnnounce {cfg : AnnounceConfig} {interfaceIndex : Nat} {r : Route} {a : Announce}
    (calm : Calm cfg interfaceIndex r) (here : a.interfaceIndex = interfaceIndex) :
    Calm cfg interfaceIndex (r.handleAnnounce cfg a).2 := by
  have refreshed : ∀ r', Calm cfg interfaceIndex r' → Calm cfg interfaceIndex
      (if cfg.isLocalClient a.interfaceIndex then { r' with localClientKnownDest := true } else r') := by
    intro r' calm'
    split_ifs with ours
    · exact ⟨calm'.responsive, calm'.open_, .inl (here ▸ ours)⟩
    · exact calm'
  unfold Route.handleAnnounce
  split
  next => exact calm
  next =>
  split
  next => exact calm
  next =>
  split
  next => exact calm
  next =>
  rw [refusesProvenLoop_calm calm]
  have window := calm_congr calm (calmRows_rateWindow cfg r a)
  dsimp only
  rw [if_neg Bool.false_ne_true]
  generalize (r.noteDirectLinkEvidence cfg a).rateWindow cfg a = noted at window ⊢
  obtain ⟨recent, r₁⟩ := noted
  dsimp only at window ⊢
  split
  next => exact window
  next =>
  split
  next =>
    split
    next => exact refreshed r₁ window
    next => exact calm_congr (refreshed r₁ window) rfl
  next reason accepted =>
    have marked : Calm cfg interfaceIndex (r₁.markAccepted reason) := by
      unfold Route.markAccepted
      split_ifs
      · exact window
      · exact ⟨rfl, window.open_, window.foreign⟩
    exact calm_congr (refreshed _ marked) (calmRows_scheduleAnnounce cfg _ a _)

/-- A newer emission, or the same one over fewer hops, than the path was learned from. -/
def Better (path : PathEntry) (a : Announce) : Prop :=
  maxEmissionFromBlobs path.randomBlobs < a.emitted ∨
    maxEmissionFromBlobs path.randomBlobs = a.emitted ∧ a.hops < path.hops

/-- An announce that comes over more hops after the path has expired is newer than it. -/
def Timely (path : PathEntry) (a : Announce) : Prop :=
  path.expiresMs ≤ a.nowMs → path.hops < a.hops → maxEmissionFromBlobs path.randomBlobs < a.emitted

theorem acceptOver_iff {cfg : AnnounceConfig} {r : Route} {path : PathEntry} {a : Announce}
    (choice : cfg.pathChoice = .hops) (responsive : r.pathIsUnresponsive = false) (timely : Timely path a) :
    (∃ reason, r.acceptOver cfg path a = some reason) ↔ Better path a := by
  have noSwap : r.sameEmissionCostSwap cfg path a.hops a.transportId.isNone = false := by
    simp [Route.sameEmissionCostSwap, choice]
  have fewer : Route.fewerHops path a = decide (a.hops < path.hops) := rfl
  unfold Timely at timely
  unfold Route.acceptOver Better
  rw [choice]
  simp only [noSwap, fewer, responsive]
  split_ifs <;> simp_all
  all_goals omega

theorem timely_of_better {path : PathEntry} {a : Announce} (better : Better path a) : Timely path a := by
  intro _ longer
  rcases better with newer | ⟨-, fewer⟩
  · exact newer
  · exact absurd longer (Nat.not_lt.mpr (Nat.le_of_lt fewer))

theorem isReplay_better {cfg : AnnounceConfig} {r : Route} {a : Announce} (choice : cfg.pathChoice = .hops)
    (better : ∀ path, r.path = some path → Better path a) : r.isReplay cfg a = false := by
  unfold Route.isReplay
  cases found : r.path with
  | none => rfl
  | some path =>
    dsimp only
    rw [choice]
    dsimp only
    rcases better path found with newer | ⟨-, fewer⟩
    · have unseen : path.randomBlobs.contains a.randomHash = false := by
        rw [List.contains_eq_mem, decide_eq_false_iff_not]
        intro seen
        have bounded := emission_le_max seen
        exact absurd newer (Nat.not_lt.mpr bounded)
      rw [unseen]
      rfl
    · have wins : Route.fewerHops path a = true := decide_eq_true fewer
      rw [wins]
      simp

theorem installed_of_better {cfg : AnnounceConfig} {interfaceIndex : Nat} {r : Route} {a : Announce}
    (choice : cfg.pathChoice = .hops) (calm : Calm cfg interfaceIndex r) (here : a.interfaceIndex = interfaceIndex)
    (admitted : a.admitted = true) (short : a.hops ≤ cfg.maxHops)
    (better : ∀ path, r.path = some path → Better path a) :
    ∃ reason, (r.handleAnnounce cfg a).1 = .installed reason := by
  unfold Route.handleAnnounce
  rw [admitted, isReplay_better choice better, refusesProvenLoop_calm calm]
  rw [if_neg (by decide), if_neg (Nat.not_lt.mpr short), if_neg Bool.false_ne_true]
  have window := calm_congr calm (calmRows_rateWindow cfg r a)
  have samePath := Replay.path_rateWindow cfg r a
  dsimp only
  rw [if_neg Bool.false_ne_true]
  generalize (r.noteDirectLinkEvidence cfg a).rateWindow cfg a = noted at window samePath ⊢
  obtain ⟨recent, r₁⟩ := noted
  dsimp only at window samePath ⊢
  have notEcho : r₁.staleOwnEcho cfg a = false := by
    unfold Route.staleOwnEcho
    rcases window.foreign with ours | unknown
    · simp [here, ours]
    · simp [unknown]
  rw [notEcho, if_neg (by simp)]
  have accepted : ∃ reason, r₁.acceptReason cfg a = some reason := by
    unfold Route.acceptReason
    rw [samePath.1]
    cases found : r.path with
    | none => exact ⟨_, rfl⟩
    | some path =>
      exact (acceptOver_iff choice window.responsive (timely_of_better (better path found))).mpr (better path found)
  obtain ⟨reason, accepted⟩ := accepted
  rw [accepted]
  exact ⟨reason, rfl⟩

theorem maxEmission_eq {blobs : List RandomHash} {newest : Nat}
    (bounded : ∀ blob ∈ blobs, emissionFromRandomHash blob ≤ newest)
    (reached : ∃ blob ∈ blobs, newest ≤ emissionFromRandomHash blob) : maxEmissionFromBlobs blobs = newest := by
  obtain ⟨blob, member, newer⟩ := reached
  apply Nat.le_antisymm
  · unfold maxEmissionFromBlobs
    cases found : (blobs.map emissionFromRandomHash).max? with
    | none => exact Nat.zero_le _
    | some top =>
      obtain ⟨last, inside, rfl⟩ := List.mem_map.mp (List.max?_mem found)
      exact bounded last inside
  · exact newer.trans (emission_le_max member)

/-- The best of the announces so far, as a path would show it. -/
def offer (cfg : AnnounceConfig) (best : Option (Nat × Nat × Option TruncatedHash)) (a : Announce) :
    Option (Nat × Nat × Option TruncatedHash) :=
  if a.hops > cfg.maxHops then best
  else
    match best with
    | none => some (a.emitted, a.hops, a.transportId)
    | some (emitted, hops, _) =>
      if emitted < a.emitted ∨ emitted = a.emitted ∧ a.hops < hops then some (a.emitted, a.hops, a.transportId)
      else best

/-- The path does not fall to an announce that is not newer because it has expired, and a refused announce leaves
its newest blob in the window. -/
def Steady (cfg : AnnounceConfig) (r : Route) (a : Announce) : Prop :=
  ∀ path, r.path = some path → (a.hops ≤ cfg.maxHops → r.isReplay cfg a = false → Timely path a) ∧
    (Replay.Passes cfg r a → a.emitted < maxEmissionFromBlobs path.randomBlobs →
      ∃ blob ∈ path.randomBlobs.drop (path.randomBlobs.length + 1 - cfg.maxRandomBlobs),
        maxEmissionFromBlobs path.randomBlobs ≤ emissionFromRandomHash blob)

theorem shown_installPath {cfg : AnnounceConfig} (positive : 0 < cfg.maxRandomBlobs) {r : Route} {a : Announce}
    (newest : ∀ path, r.path = some path → maxEmissionFromBlobs path.randomBlobs ≤ a.emitted) :
    shown (r.installPath cfg a) = some (a.emitted, a.hops, a.transportId) := by
  have timebase : maxEmissionFromBlobs (PathEntry.appendedRandomBlobs
      ((r.path.map PathEntry.randomBlobs).getD []) a.randomHash cfg.maxRandomBlobs) = a.emitted := by
    unfold PathEntry.appendedRandomBlobs
    rw [if_neg (by omega)]
    refine maxEmission_eq ?_ ⟨a.randomHash, by simp, Nat.le_refl _⟩
    intro blob member
    rcases List.mem_append.mp member with old | new
    · cases found : r.path with
      | none => simp [found] at old
      | some path =>
        rw [found] at old
        exact (emission_le_max (List.mem_of_mem_drop old)).trans (newest path found)
    · rw [List.mem_singleton.mp new]
      exact Nat.le_refl _
  show some (_, a.hops, a.transportId) = _
  rw [timebase]

theorem shown_congr {r r' : Route} (same : r'.path = r.path) : shown r' = shown r := by
  unfold shown
  rw [same]

theorem shown_recordRandomBlob {cfg : AnnounceConfig} (positive : 0 < cfg.maxRandomBlobs) {r : Route} {a : Announce}
    {path : PathEntry} (found : r.path = some path)
    (window : a.emitted < maxEmissionFromBlobs path.randomBlobs →
      ∃ blob ∈ path.randomBlobs.drop (path.randomBlobs.length + 1 - cfg.maxRandomBlobs),
        maxEmissionFromBlobs path.randomBlobs ≤ emissionFromRandomHash blob)
    (older : a.emitted ≤ maxEmissionFromBlobs path.randomBlobs) :
    shown (r.recordRandomBlob cfg a) = shown r := by
  cases recorded : (r.recordRandomBlob cfg a).path with
  | none => simp [Route.recordRandomBlob, found] at recorded
  | some after =>
    have blobs := Replay.mem_recordRandomBlob positive found recorded
    have rest : after.hops = path.hops ∧ after.nextHop = path.nextHop := by
      simp only [Route.recordRandomBlob, found, Option.map_some, Option.some.injEq] at recorded
      subst recorded
      exact ⟨rfl, rfl⟩
    have timebase : maxEmissionFromBlobs after.randomBlobs = maxEmissionFromBlobs path.randomBlobs := by
      rw [blobs]
      apply maxEmission_eq
      · intro blob member
        rcases List.mem_append.mp member with old | new
        · exact emission_le_max (List.mem_of_mem_drop old)
        · rw [List.mem_singleton.mp new]
          exact older
      · rcases Nat.lt_or_ge a.emitted (maxEmissionFromBlobs path.randomBlobs) with less | equal
        · obtain ⟨blob, member, newest⟩ := window less
          exact ⟨blob, List.mem_append_left _ member, newest⟩
        · exact ⟨a.randomHash, List.mem_append_right _ (List.mem_singleton_self _), equal⟩
    unfold shown
    rw [recorded, found, Option.map_some, Option.map_some, timebase, rest.1, rest.2]

theorem overMaxHops_outcome {cfg : AnnounceConfig} {r : Route} {a : Announce} (admitted : a.admitted = true)
    (long : a.hops > cfg.maxHops) : r.handleAnnounce cfg a = (.overMaxHops, r) := by
  unfold Route.handleAnnounce
  rw [admitted, if_neg (by decide), if_pos long]

theorem replay_outcome {cfg : AnnounceConfig} {r : Route} {a : Announce} (admitted : a.admitted = true)
    (short : a.hops ≤ cfg.maxHops) (replay : r.isReplay cfg a = true) : r.handleAnnounce cfg a = (.replay, r) := by
  unfold Route.handleAnnounce
  rw [admitted, if_neg (by decide), if_neg (Nat.not_lt.mpr short), if_pos replay]

/-- One announce of the run without holding. -/
theorem shown_handleAnnounce {cfg : AnnounceConfig} {interfaceIndex : Nat} {r : Route} {a : Announce}
    (choice : cfg.pathChoice = .hops) (positive : 0 < cfg.maxRandomBlobs) (calm : Calm cfg interfaceIndex r)
    (here : a.interfaceIndex = interfaceIndex) (admitted : a.admitted = true) (steady : Steady cfg r a) :
    shown (r.handleAnnounce cfg a).2 = offer cfg (shown r) a := by
  unfold offer
  by_cases long : a.hops > cfg.maxHops
  · rw [if_pos long, overMaxHops_outcome admitted long]
  rw [if_neg long]
  have short : a.hops ≤ cfg.maxHops := Nat.le_of_not_lt long
  by_cases better : ∀ path, r.path = some path → Better path a
  · obtain ⟨reason, installed⟩ := installed_of_better choice calm here admitted short better
    rcases Replay.handleAnnounce_cases cfg r a with ⟨-, other⟩ | ⟨-, recorded, -⟩ | ⟨-, -, -, -, -, path⟩
    · exact absurd installed (other reason)
    · cases recorded.symm.trans installed
    · have newest : ∀ path, r.path = some path → maxEmissionFromBlobs path.randomBlobs ≤ a.emitted := by
        intro path found
        rcases better path found with newer | ⟨same, -⟩
        · exact Nat.le_of_lt newer
        · exact Nat.le_of_eq same
      rw [shown_congr path, shown_installPath positive newest]
      cases found : r.path with
      | none => simp [shown, found]
      | some path =>
        have wins := better path found
        simp only [shown, found, Option.map_some]
        exact (if_pos wins).symm
  · obtain ⟨path, found, worse⟩ : ∃ path, r.path = some path ∧ ¬ Better path a := by
      simpa only [not_forall, exists_prop] using better
    have kept : offer cfg (shown r) a = shown r := by
      unfold offer
      rw [if_neg long]
      simp only [shown, found, Option.map_some]
      exact if_neg worse
    unfold offer at kept
    rw [if_neg long] at kept
    rw [kept]
    rcases Replay.handleAnnounce_cases cfg r a with
      ⟨same, -⟩ | ⟨passes, -, recorded⟩ | ⟨reason, r', ⟨samePath, sameState⟩, accepted, installed, -⟩
    · exact shown_congr same
    · rw [shown_congr recorded]
      exact shown_recordRandomBlob positive found (by
        intro older
        exact (steady path found).2 passes older) (by
        rw [Better, not_or] at worse
        exact Nat.le_of_not_lt worse.1)
    · exfalso
      apply worse
      have responsive : r'.pathIsUnresponsive = false := by
        have before := calm.responsive
        unfold Route.pathIsUnresponsive at before ⊢
        rw [sameState, before]
      unfold Route.acceptReason at accepted
      rw [samePath, found] at accepted
      have fresh : r.isReplay cfg a = false := by
        cases replay : r.isReplay cfg a with
        | false => rfl
        | true =>
          rw [replay_outcome admitted short replay] at installed
          cases installed
      exact (acceptOver_iff choice responsive ((steady path found).1 short fresh)).mp ⟨reason, accepted⟩

def direct (cfg : AnnounceConfig) (r : Route) (seq : List Announce) : Route :=
  seq.foldl (fun r a => (r.handleAnnounce cfg a).2) r

theorem direct_append (cfg : AnnounceConfig) (r : Route) (seq : List Announce) (a : Announce) :
    direct cfg r (seq ++ [a]) = ((direct cfg r seq).handleAnnounce cfg a).2 := by
  unfold direct
  rw [List.foldl_append]
  rfl

theorem shown_direct {cfg : AnnounceConfig} {interfaceIndex : Nat} {r : Route} (choice : cfg.pathChoice = .hops)
    (positive : 0 < cfg.maxRandomBlobs) (calm : Calm cfg interfaceIndex r) (seq : List Announce)
    (valid : ∀ a ∈ seq, a.admitted = true ∧ a.interfaceIndex = interfaceIndex)
    (steady : ∀ done a rest, seq = done ++ a :: rest → Steady cfg (direct cfg r done) a) :
    Calm cfg interfaceIndex (direct cfg r seq) ∧ shown (direct cfg r seq) = seq.foldl (offer cfg) (shown r) := by
  induction seq using List.reverseRecOn with
  | nil => exact ⟨calm, rfl⟩
  | append_singleton seq a ih =>
    obtain ⟨calmBefore, shownBefore⟩ := ih (fun b member => valid b (List.mem_append_left _ member))
      (fun done b rest split => steady done b (rest ++ [a]) (by rw [split]; simp))
    obtain ⟨admitted, here⟩ := valid a (List.mem_append_right _ (List.mem_singleton_self _))
    have last := steady seq a [] rfl
    rw [direct_append, List.foldl_append, ← shownBefore]
    exact ⟨calm_handleAnnounce calmBefore here,
      shown_handleAnnounce choice positive calmBefore here admitted last⟩

/-- The newest emission within the hop limit, over the fewest hops it came, from the relay it first came from so. -/
def IsBest (cfg : AnnounceConfig) (seq : List Announce) : Option (Nat × Nat × Option TruncatedHash) → Prop
  | none => ∀ a ∈ seq, a.hops > cfg.maxHops
  | some (emitted, hops, relay) =>
    hops ≤ cfg.maxHops ∧
      (∃ first, seq.find? (fun a => a.emitted = emitted ∧ a.hops = hops) = some first ∧ first.transportId = relay) ∧
      ∀ a ∈ seq, a.hops ≤ cfg.maxHops → a.emitted < emitted ∨ a.emitted = emitted ∧ hops ≤ a.hops

theorem find?_append_of_none {seq : List Announce} {a : Announce} {p : Announce → Bool} (none' : ∀ b ∈ seq, p b = false)
    (here : p a = true) : (seq ++ [a]).find? p = some a := by
  have before : seq.find? p = none := by
    rw [List.find?_eq_none]
    intro b member
    rw [none' b member]
    exact Bool.false_ne_true
  rw [List.find?_append, before, Option.none_or, List.find?_singleton, if_pos here]

theorem isBest_fold (cfg : AnnounceConfig) (seq : List Announce) : IsBest cfg seq (seq.foldl (offer cfg) none) := by
  induction seq using List.reverseRecOn with
  | nil => exact nofun
  | append_singleton seq a ih =>
    rw [List.foldl_append]
    show IsBest cfg (seq ++ [a]) (offer cfg (seq.foldl (offer cfg) none) a)
    generalize seq.foldl (offer cfg) none = best at ih
    unfold offer
    by_cases long : a.hops > cfg.maxHops
    · rw [if_pos long]
      cases best with
      | none =>
        intro b member
        rcases List.mem_append.mp member with old | new
        · exact ih b old
        · exact List.mem_singleton.mp new ▸ long
      | some best =>
        obtain ⟨short, ⟨first, found, relay⟩, bounded⟩ := ih
        refine ⟨short, ⟨first, by rw [List.find?_append, found]; rfl, relay⟩, ?_⟩
        intro b member within
        rcases List.mem_append.mp member with old | new
        · exact bounded b old within
        · rw [List.mem_singleton.mp new] at within
          omega
    · rw [if_neg long]
      have short : a.hops ≤ cfg.maxHops := Nat.le_of_not_lt long
      cases best with
      | none =>
        refine ⟨short, ⟨a, find?_append_of_none ?_ (by simp), rfl⟩, ?_⟩
        · intro b member
          have past := ih b member
          simp only [decide_eq_false_iff_not]
          omega
        · intro b member within
          rcases List.mem_append.mp member with old | new
          · have past := ih b old
            omega
          · rw [List.mem_singleton.mp new]
            exact .inr ⟨rfl, Nat.le_refl _⟩
      | some best =>
        obtain ⟨emitted, hops, relay⟩ := best
        obtain ⟨within, ⟨first, found, same⟩, bounded⟩ := ih
        dsimp only
        split_ifs with better
        · refine ⟨short, ⟨a, find?_append_of_none ?_ (by simp), rfl⟩, ?_⟩
          · intro b member
            have below := bounded b member
            simp only [decide_eq_false_iff_not]
            omega
          · intro b member limit
            rcases List.mem_append.mp member with old | new
            · have below := bounded b old limit
              omega
            · rw [List.mem_singleton.mp new]
              exact .inr ⟨rfl, Nat.le_refl _⟩
        · refine ⟨within, ⟨first, by rw [List.find?_append, found]; rfl, same⟩, ?_⟩
          intro b member limit
          rcases List.mem_append.mp member with old | new
          · exact bounded b old limit
          · rw [List.mem_singleton.mp new]
            omega

/-! ### With holding -/

/-- A destination without a path, of which nothing else bears on its announces. -/
structure Unknown (cfg : AnnounceConfig) (interfaceIndex : Nat) (r : Route) : Prop extends
    Calm cfg interfaceIndex r where
  path : r.path = none

/-- The last announce with the fewest hops has the newest emission, and the first one with that emission and that
many hops came from the same relay. -/
def HeldIsBest (cfg : AnnounceConfig) (seq : List Announce) : Prop :=
  ∀ held, LastShortest seq held → held.hops ≤ cfg.maxHops →
    (∀ a ∈ seq, a.hops ≤ cfg.maxHops → a.emitted ≤ held.emitted) ∧
      ∀ first, seq.find? (fun a => a.emitted = held.emitted ∧ a.hops = held.hops) = some first →
        first.transportId = held.transportId

theorem isBest_held_iff {cfg : AnnounceConfig} {seq : List Announce} {held : Announce}
    {best : Option (Nat × Nat × Option TruncatedHash)} (last : LastShortest seq held) (isBest : IsBest cfg seq best) :
    offer cfg none held = best ↔ HeldIsBest cfg seq := by
  unfold offer
  by_cases long : held.hops > cfg.maxHops
  · rw [if_pos long]
    have vacuous : HeldIsBest cfg seq := by
      intro other also short
      rw [last.unique also] at short
      omega
    refine ⟨fun _ => vacuous, fun _ => ?_⟩
    cases best with
    | none => rfl
    | some best =>
      obtain ⟨short, ⟨first, found, -⟩, -⟩ := isBest
      have member := List.mem_of_find?_eq_some found
      have matches' := List.find?_some found
      have shortest := last.le member
      simp only [decide_eq_true_eq] at matches'
      omega
  · rw [if_neg long]
    have short : held.hops ≤ cfg.maxHops := Nat.le_of_not_lt long
    cases best with
    | none => exact absurd (isBest held last.mem) long
    | some best =>
      obtain ⟨emitted, hops, relay⟩ := best
      obtain ⟨within, ⟨first, found, same⟩, bounded⟩ := isBest
      have member := List.mem_of_find?_eq_some found
      have shows := List.find?_some found
      simp only [decide_eq_true_eq] at shows
      constructor
      · intro equal
        simp only [Option.some.injEq, Prod.mk.injEq] at equal
        obtain ⟨sameEmitted, sameHops, sameRelay⟩ := equal
        intro other also _
        rw [last.unique also]
        refine ⟨?_, ?_⟩
        · intro a inside limit
          have below := bounded a inside limit
          omega
        · intro first' found'
          rw [sameEmitted, sameHops, found] at found'
          cases found'
          rw [same, sameRelay]
      · intro heldBest
        obtain ⟨newest, relays⟩ := heldBest held last short
        have atMost := bounded held last.mem short
        have shortest := last.le member
        have below := newest first member (by omega)
        have sameEmitted : held.emitted = emitted := by omega
        have sameHops : held.hops = hops := by omega
        rw [sameEmitted, sameHops] at relays
        rw [sameEmitted, sameHops, ← relays first found, same]

/-- The release leaves the path that handling the announces as they came would have left exactly when the held
copy is the best of them. -/
theorem held_release_eq_direct_iff {cfg : AnnounceConfig} {maxHeldAnnounces interfaceIndex nowMs : Nat}
    {dest : TruncatedHash} {queue : Queue} {events : List Event} {r r' : Route} {released : Announce}
    (choice : cfg.pathChoice = .hops) (positive : 0 < cfg.maxRandomBlobs)
    (arriving : Unknown cfg interfaceIndex r) (releasing : Unknown cfg interfaceIndex r')
    (absent : queue.get? dest = none)
    (valid : ∀ a ∈ arrivals dest events, a.admitted = true ∧ a.interfaceIndex = interfaceIndex)
    (held : AllHeld maxHeldAnnounces dest queue events)
    (chosen : select (after maxHeldAnnounces queue events) = some (dest, released))
    (steady : ∀ done a rest, arrivals dest events = done ++ a :: rest → Steady cfg (direct cfg r done) a) :
    shown (r'.handleAnnounce cfg { released with nowMs }).2 = shown (direct cfg r (arrivals dest events)) ↔
      HeldIsBest cfg (arrivals dest events) := by
  have last := released_lastShortest absent held chosen
  obtain ⟨admitted, here⟩ := valid released last.mem
  have nothing : ∀ r, r.path = none → shown r = none := by
    intro r none'
    unfold shown
    rw [none']
    rfl
  have install : shown (r'.handleAnnounce cfg { released with nowMs }).2 =
      offer cfg (shown r') { released with nowMs } := by
    refine shown_handleAnnounce choice positive releasing.toCalm here admitted ?_
    intro path found
    cases releasing.path.symm.trans found
  have run := (shown_direct choice positive arriving.toCalm (arrivals dest events) valid steady).2
  have untimed : offer cfg none { released with nowMs } = offer cfg none released := rfl
  rw [install, run, nothing r' releasing.path, nothing r arriving.path, untimed]
  exact isBest_held_iff last (isBest_fold cfg (arrivals dest events))

/-! Copies heard on interface 0 of a node with default limits. -/

open Replay (plainNode heard)

def copy (emission : UInt8) (hops nowMs : Nat) : Announce := { heard emission 0 nowMs with hops }

def copyDest : TruncatedHash := FixedBytes.replicate 16 3

def copies (first second : Announce) : List Event := [.hold copyDest first, .hold copyDest second]

theorem unknown_route : Unknown plainNode 0 {} := ⟨⟨rfl, rfl, .inr rfl⟩, rfl⟩

theorem copies_held (first second : Announce) : AllHeld 256 copyDest ∅ (copies first second) := by
  intro done event rest split
  rcases done with _ | ⟨_, _ | ⟨_, done⟩⟩
  · cases split
    exact fun _ => rfl
  · cases split
    intro _
    by_cases longer : second.hops > first.hops
    · show (holdAnnounce 256 (OrdMap.insert ∅ copyDest first) copyDest second).1 = true
      simp [holdAnnounce, OrdMap.get?_insert, longer, OrdMap.contains]
    · show (holdAnnounce 256 (OrdMap.insert ∅ copyDest first) copyDest second).1 = true
      simp [holdAnnounce, OrdMap.get?_insert, longer, OrdMap.contains]
  · simp [copies] at split

theorem newer_shorter_best : HeldIsBest plainNode [copy 100 2 0, copy 200 1 10] := by
  intro held last _
  have second : LastShortest [copy 100 2 0, copy 200 1 10] (copy 200 1 10) := by
    refine ⟨[copy 100 2 0], [], rfl, ?_, nofun⟩
    intro a member
    rw [List.mem_singleton.mp member]
    decide
  rw [second.unique last]
  refine ⟨?_, ?_⟩
  · decide
  · intro first found
    have only : [copy 100 2 0, copy 200 1 10].find? (fun a =>
        a.emitted = (copy 200 1 10).emitted ∧ a.hops = (copy 200 1 10).hops) = some (copy 200 1 10) := by rfl
    cases only.symm.trans found
    rfl

theorem newer_shorter_steady : ∀ done a rest, [copy 100 2 0, copy 200 1 10] = done ++ a :: rest →
    Steady plainNode (direct plainNode {} done) a := by
  intro done a rest split
  rcases done with _ | ⟨_, _ | ⟨_, done⟩⟩
  · intro path found
    cases found
  · cases split
    intro path found
    cases found
    exact ⟨fun _ _ expired => absurd expired (by decide), fun _ older => absurd older (by decide)⟩
  · simp at split

/-- The newer of two copies also came over fewer hops. -/
theorem newer_shorter_copy_released :
    select (after 256 ∅ (copies (copy 100 2 0) (copy 200 1 10))) = some (copyDest, copy 200 1 10) ∧
      shown (({} : Route).handleAnnounce plainNode { copy 200 1 10 with nowMs := 9000 }).2 =
        shown (direct plainNode {} (arrivals copyDest (copies (copy 100 2 0) (copy 200 1 10)))) := by
  refine ⟨rfl, (held_release_eq_direct_iff rfl (by decide) unknown_route unknown_route rfl ?_
    (copies_held _ _) rfl newer_shorter_steady).mpr newer_shorter_best⟩
  show ∀ a ∈ [copy 100 2 0, copy 200 1 10], _
  decide

/-- The older of two copies came over fewer hops: it is held and released, while the newer one would be in place
without holding. -/
theorem older_shorter_copy_released :
    AllHeld 256 copyDest ∅ (copies (copy 100 1 0) (copy 200 2 10)) ∧
      select (after 256 ∅ (copies (copy 100 1 0) (copy 200 2 10))) = some (copyDest, copy 100 1 0) ∧
      shown (({} : Route).handleAnnounce plainNode (copy 100 1 9000)).2 ≠
        shown (direct plainNode {} (arrivals copyDest (copies (copy 100 1 0) (copy 200 2 10)))) := by
  refine ⟨copies_held _ _, rfl, ?_⟩
  decide

end Leviculum.Transport.HeldAnnounce
