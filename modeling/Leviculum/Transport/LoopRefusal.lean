import Leviculum.Transport.Replay
import Leviculum.Transport.Packet

/-! Routes a returning relay proved circular, and how long the next hop's answers are refused. -/

namespace Leviculum.Transport

open Execution

def maxLoopRefusals : Nat := 8

/-- The blob with the newest emission, the last of those. -/
def newestBlob (blobs : List RandomHash) : Option RandomHash :=
  blobs.foldl (fun best blob =>
    match best with
    | none => some blob
    | some kept => if emissionFromRandomHash kept ≤ emissionFromRandomHash blob then some blob else some kept) none

/-- A duplicate that names this node as its next hop. -/
structure Duplicate where
  packetType : PacketType
  destinationHash : TruncatedHash
  hash : TruncatedHash
  interfaceIndex : Nat
  ingressPeer : Option TruncatedHash
  nowMs : Nat

/-- The tables a loop is proven and refused with. The refusals of all destinations are in one list, oldest
first. -/
structure LoopTables where
  rows : TruncatedHash → Route
  reverse : TruncatedHash → Option ReverseEntry
  refusals : List (TruncatedHash × LoopRefusal)
  clockMs : Nat

namespace LoopTables

/-- The path a duplicate proves circular, with its next hop: the packet was relayed over it and came back from
where it went. -/
def provenCircular (s : LoopTables) (d : Duplicate) : Option (PathEntry × TruncatedHash) := do
  let reverse ← s.reverse d.hash
  let path ← (s.rows d.destinationHash).path
  let nextHop ← path.nextHop
  let returnedByNextHop : Bool :=
    match d.ingressPeer, path.viaPeer with
    | some ingress, some via => ingress = via ∧ reverse.peer ≠ some ingress
    | _, _ => reverse.receivingInterfaceIndex ≠ reverse.outboundInterfaceIndex
  if (d.packetType = .data ∨ d.packetType = .linkRequest) ∧ reverse.outboundInterfaceIndex = d.interfaceIndex ∧
      path.interfaceIndex = d.interfaceIndex ∧ returnedByNextHop then some (path, nextHop)
  else none

/-- A refusal takes the place of the destination's earlier one, and of the oldest when the list is full. -/
def pushRefusal (refusals : List (TruncatedHash × LoopRefusal)) (dest : TruncatedHash) (refusal : LoopRefusal)
    (nowMs : Nat) : List (TruncatedHash × LoopRefusal) :=
  let kept := refusals.filter (fun r => r.1 ≠ dest ∧ r.2.expiresMs > nowMs)
  (if kept.length ≥ maxLoopRefusals then kept.drop 1 else kept) ++ [(dest, refusal)]

def dropRouteProvenCircular (s : LoopTables) (d : Duplicate) : LoopTables :=
  match s.provenCircular d with
  | none => s
  | some (path, nextHop) =>
    let dest := d.destinationHash
    { s with
      rows := Function.update s.rows dest { s.rows dest with path := none }
      refusals :=
        match newestBlob path.randomBlobs with
        | none => s.refusals
        | some randomBlob => pushRefusal s.refusals dest ⟨nextHop, randomBlob, path.expiresMs⟩ d.nowMs }

/-- The destination's rows with its refusals beside them. -/
def route (s : LoopTables) (dest : TruncatedHash) : Route :=
  { s.rows dest with loopRefusals := (s.refusals.filter (fun r => r.1 = dest)).map Prod.snd }

def meetsRefusals (cfg : AnnounceConfig) (s : LoopTables) (dest : TruncatedHash) (a : Announce) : Bool :=
  a.admitted && decide (a.hops ≤ cfg.maxHops) && !(s.route dest).isReplay cfg a

/-- What `refuses_proven_loop` leaves of the refusals: expired ones go, and those a different announce of the
destination ends. -/
def pruneRefusals (refusals : List (TruncatedHash × LoopRefusal)) (dest : TruncatedHash) (a : Announce) :
    List (TruncatedHash × LoopRefusal) :=
  refusals.filter (fun r => r.2.expiresMs > a.nowMs ∧ (r.1 ≠ dest ∨ r.2.randomBlob = a.randomHash))

def handleAnnounce (cfg : AnnounceConfig) (s : LoopTables) (dest : TruncatedHash) (a : Announce) :
    AnnounceOutcome × LoopTables :=
  let handled := (s.route dest).handleAnnounce cfg a
  (handled.1,
    { s with
      rows := Function.update s.rows dest handled.2
      refusals := if s.meetsRefusals cfg dest a then pruneRefusals s.refusals dest a else s.refusals })

end LoopTables

namespace LoopRefusal

inductive Event where
  | announce (dest : TruncatedHash) (a : Announce)
  | duplicate (d : Duplicate)
  /-- Whatever else the node does: only announces and duplicates touch the refusals. -/
  | elsewhere (rows : TruncatedHash → Route) (reverse : TruncatedHash → Option ReverseEntry) (nowMs : Nat)

def Event.nowMs : Event → Nat
  | .announce _ a => a.nowMs
  | .duplicate d => d.nowMs
  | .elsewhere _ _ nowMs => nowMs

def step (cfg : AnnounceConfig) (s : LoopTables) (event : Event) : Option LoopTables :=
  if s.clockMs ≤ event.nowMs then
    let s := { s with clockMs := event.nowMs }
    some (match event with
      | .announce dest a => (s.handleAnnounce cfg dest a).2
      | .duplicate d => s.dropRouteProvenCircular d
      | .elsewhere rows reverse _ => { s with rows, reverse })
  else none

def provesOther (dest : TruncatedHash) (s : LoopTables) : Event → Bool
  | .duplicate d => d.destinationHash ≠ dest ∧ (s.provenCircular d).isSome
  | _ => false

def othersProven (cfg : AnnounceConfig) (dest : TruncatedHash) : LoopTables → List Event → Nat
  | _, [] => 0
  | s, event :: events =>
    (provesOther dest s event).toNat + ((step cfg s event).map (fun s' => othersProven cfg dest s' events)).getD 0

/-- No announce that reaches the refusals ends one of the destination without being newer, and no other loop of
the destination takes its place. -/
def Keeps (cfg : AnnounceConfig) (dest : TruncatedHash) (refusal : LoopRefusal) (s : LoopTables) : Event → Prop
  | .announce other a => other = dest → s.meetsRefusals cfg dest a = true → a.randomHash ≠ refusal.randomBlob →
      emissionFromRandomHash refusal.randomBlob < a.emitted
  | .duplicate d => d.destinationHash = dest → ∀ path nextHop, s.provenCircular d = some (path, nextHop) →
      nextHop = refusal.nextHop ∧ newestBlob path.randomBlobs = some refusal.randomBlob ∧
        refusal.expiresMs ≤ path.expiresMs
  | .elsewhere _ _ _ => True

/-- The refusal is in the list, under `later` others. -/
def Listed (dest : TruncatedHash) (refusal : LoopRefusal) (later : Nat)
    (refusals : List (TruncatedHash × LoopRefusal)) : Prop :=
  ∃ before kept after, refusals = before ++ (dest, kept) :: after ∧ kept.nextHop = refusal.nextHop ∧
    kept.randomBlob = refusal.randomBlob ∧ refusal.expiresMs ≤ kept.expiresMs ∧ after.length ≤ later

theorem Listed.filter {dest : TruncatedHash} {refusal : LoopRefusal} {later : Nat}
    {refusals : List (TruncatedHash × LoopRefusal)} (listed : Listed dest refusal later refusals)
    (keep : TruncatedHash × LoopRefusal → Bool)
    (keeps : ∀ kept : LoopRefusal, kept.randomBlob = refusal.randomBlob → refusal.expiresMs ≤ kept.expiresMs →
      keep (dest, kept) = true) : Listed dest refusal later (refusals.filter keep) := by
  obtain ⟨before, kept, after, rfl, hop, blob, expires, few⟩ := listed
  refine ⟨before.filter keep, kept, after.filter keep, ?_, hop, blob, expires, ?_⟩
  · rw [List.filter_append, List.filter_cons_of_pos (keeps kept blob expires)]
  · exact Nat.le_trans (List.length_filter_le _ _) few

theorem Listed.push {dest other : TruncatedHash} {refusal new : LoopRefusal} {later nowMs : Nat}
    {refusals : List (TruncatedHash × LoopRefusal)} (listed : Listed dest refusal later refusals)
    (apart : dest ≠ other) (unexpired : nowMs < refusal.expiresMs) (few : later + 1 < maxLoopRefusals) :
    Listed dest refusal (later + 1) (LoopTables.pushRefusal refusals other new nowMs) := by
  have survives := listed.filter (fun r => r.1 ≠ other ∧ r.2.expiresMs > nowMs) (by
    intro kept _ expires
    simp only [decide_eq_true_eq]
    exact ⟨apart, by omega⟩)
  obtain ⟨before, kept, after, split, hop, blob, expires, short⟩ := survives
  unfold LoopTables.pushRefusal
  dsimp only
  rw [split]
  have length : (after ++ [(other, new)]).length ≤ later + 1 := by
    rw [List.length_append, List.length_singleton]
    omega
  split_ifs with full
  · cases before with
    | nil =>
      simp only [List.nil_append, List.length_cons] at full
      omega
    | cons first before =>
      refine ⟨before, kept, after ++ [(other, new)], ?_, hop, blob, expires, length⟩
      simp
  · refine ⟨before, kept, after ++ [(other, new)], ?_, hop, blob, expires, length⟩
    simp

/-- While a newer announce of the destination has not come, each event leaves the refusal listed. -/
theorem step_listed {cfg : AnnounceConfig} {dest : TruncatedHash} {refusal : LoopRefusal} {later : Nat}
    {s s' : LoopTables} {event : Event} (listed : Listed dest refusal later s.refusals)
    (stepped : step cfg s event = some s') (keeps : Keeps cfg dest refusal s event)
    (waiting : ∀ a, event = .announce dest a → a.emitted ≤ emissionFromRandomHash refusal.randomBlob)
    (unexpired : event.nowMs < refusal.expiresMs)
    (few : later + (provesOther dest s event).toNat < maxLoopRefusals) :
    Listed dest refusal (later + (provesOther dest s event).toNat) s'.refusals := by
  unfold step at stepped
  split_ifs at stepped with onTime
  cases event with
  | elsewhere rows reverse nowMs =>
    cases stepped
    exact listed
  | announce other a =>
    cases stepped
    show Listed dest refusal later (if LoopTables.meetsRefusals cfg _ other a then _ else _)
    split_ifs with meets
    · refine listed.filter _ ?_
      intro kept blob expires
      have fresh : kept.expiresMs > a.nowMs := Nat.lt_of_lt_of_le unexpired expires
      simp only [decide_eq_true_eq]
      refine ⟨fresh, ?_⟩
      by_cases here : dest = other
      · subst here
        right
        rw [blob]
        by_contra differs
        have newer := keeps rfl meets (Ne.symm differs)
        exact absurd (waiting a rfl) (Nat.not_le.mpr newer)
      · exact .inl here
    · exact listed
  | duplicate d =>
    cases stepped
    have proven : LoopTables.provenCircular { s with clockMs := d.nowMs } d = s.provenCircular d := rfl
    show Listed dest refusal _ (LoopTables.dropRouteProvenCircular { s with clockMs := d.nowMs } d).refusals
    unfold LoopTables.dropRouteProvenCircular
    rw [proven]
    cases found : s.provenCircular d with
    | none =>
      have none' : provesOther dest s (.duplicate d) = false := by simp [provesOther, found]
      rw [none']
      exact listed
    | some circular =>
      obtain ⟨path, nextHop⟩ := circular
      by_cases here : d.destinationHash = dest
      · obtain ⟨hop, blob, expires⟩ := keeps here path nextHop found
        dsimp only
        rw [blob, here]
        exact ⟨_, ⟨nextHop, refusal.randomBlob, path.expiresMs⟩, [], rfl, hop, rfl, expires, Nat.zero_le _⟩
      · have counted : provesOther dest s (.duplicate d) = true := by simp [provesOther, found, here]
        rw [counted] at few ⊢
        dsimp only
        cases newestBlob path.randomBlobs with
        | none =>
          obtain ⟨before, kept, after, split, hop, blob, expires, short⟩ := listed
          exact ⟨before, kept, after, split, hop, blob, expires, Nat.le_succ_of_le short⟩
        | some randomBlob => exact listed.push (Ne.symm here) unexpired few

theorem clock_step {cfg : AnnounceConfig} {s s' : LoopTables} {event : Event}
    (stepped : step cfg s event = some s') : s.clockMs ≤ event.nowMs ∧ s'.clockMs = event.nowMs := by
  unfold step at stepped
  split_ifs at stepped with onTime
  refine ⟨onTime, ?_⟩
  cases event with
  | elsewhere rows reverse nowMs =>
    cases stepped
    rfl
  | announce other a =>
    cases stepped
    rfl
  | duplicate d =>
    cases stepped
    show (LoopTables.dropRouteProvenCircular { s with clockMs := d.nowMs } d).clockMs = d.nowMs
    unfold LoopTables.dropRouteProvenCircular
    split <;> rfl

theorem clock_le_run {cfg : AnnounceConfig} {s s' : LoopTables} {events : List Event}
    (run : exec (step cfg) s events = some s') : s.clockMs ≤ s'.clockMs := by
  induction events generalizing s with
  | nil =>
    cases run
    exact Nat.le_refl _
  | cons event events ih =>
    obtain ⟨middle, stepped, rest⟩ := (exec_cons (step cfg) s s' event events).mp run
    have stepClock := clock_step stepped
    have restClock := ih rest
    omega

theorem run_listed {cfg : AnnounceConfig} {dest : TruncatedHash} {refusal : LoopRefusal}
    (events : List Event) {later : Nat} {s s' : LoopTables} (listed : Listed dest refusal later s.refusals)
    (run : exec (step cfg) s events = some s') (keeps : Along (step cfg) (Keeps cfg dest refusal) s events)
    (waiting : ∀ a, .announce dest a ∈ events → a.emitted ≤ emissionFromRandomHash refusal.randomBlob)
    (unexpired : s'.clockMs < refusal.expiresMs)
    (few : later + othersProven cfg dest s events < maxLoopRefusals) :
    ∃ later', Listed dest refusal later' s'.refusals := by
  induction events generalizing s later with
  | nil =>
    cases run
    exact ⟨later, listed⟩
  | cons event events ih =>
    obtain ⟨middle, stepped, rest⟩ := (exec_cons (step cfg) s s' event events).mp run
    have split : othersProven cfg dest s (event :: events) =
        (provesOther dest s event).toNat + othersProven cfg dest middle events := by
      rw [othersProven, stepped]
      rfl
    rw [split] at few
    have clock := clock_step stepped
    have passed := clock_le_run rest
    have next := step_listed listed stepped keeps.1 (fun a here => waiting a (here ▸ List.mem_cons_self)) (by omega)
      (by omega)
    exact ih next rest (keeps.2 middle stepped) (fun a member => waiting a (List.mem_cons_of_mem _ member)) (by omega)

theorem not_installed_of_listed {cfg : AnnounceConfig} {dest : TruncatedHash} {refusal : LoopRefusal} {later : Nat}
    {s : LoopTables} {a : Announce} (listed : Listed dest refusal later s.refusals)
    (keeps : Keeps cfg dest refusal s (.announce dest a)) (unexpired : a.nowMs < refusal.expiresMs)
    (through : a.transportId = some refusal.nextHop) (same : a.emitted = emissionFromRandomHash refusal.randomBlob)
    (reason : AcceptReason) : (s.handleAnnounce cfg dest a).1 ≠ .installed reason := by
  show ((s.route dest).handleAnnounce cfg a).1 ≠ .installed reason
  unfold Route.handleAnnounce
  split
  next => exact nofun
  next admitted =>
  split
  next => exact nofun
  next hops =>
  split
  next => exact nofun
  next fresh =>
  have meets : s.meetsRefusals cfg dest a = true := by
    simp only [LoopTables.meetsRefusals, Bool.and_eq_true, decide_eq_true_eq]
    exact ⟨⟨by simpa using admitted, by omega⟩, by simpa using fresh⟩
  have blob : a.randomHash = refusal.randomBlob := by
    by_contra differs
    have newer := keeps rfl meets differs
    omega
  have refused : ((s.route dest).refusesProvenLoop a).1 = true := by
    obtain ⟨before, kept, after, split, hop, keptBlob, expires, -⟩ := listed
    have member : kept ∈ (s.route dest).loopRefusals := by
      refine List.mem_map.mpr ⟨(dest, kept), List.mem_filter.mpr ⟨?_, by simp⟩, rfl⟩
      rw [split]
      exact List.mem_append_right _ List.mem_cons_self
    refine List.any_eq_true.mpr ⟨kept, List.mem_filter.mpr ⟨member, ?_⟩, ?_⟩
    · simp only [decide_eq_true_eq]
      exact ⟨Nat.lt_of_lt_of_le unexpired expires, keptBlob.trans blob.symm⟩
    · simp only [decide_eq_true_eq, hop]
      exact through
  dsimp only
  rw [if_pos refused]
  exact nofun

/-- Once a route is proven circular its next hop's announces of the same emission are refused, until the route
would have expired, the list of refusals is full of later ones or the destination announces anew. -/
theorem proven_loop_stays_refused {cfg : AnnounceConfig} {s s' : LoopTables} {d : Duplicate} {path : PathEntry}
    {nextHop : TruncatedHash} {blob : RandomHash} {events : List Event} {a : Announce}
    (proven : s.provenCircular d = some (path, nextHop)) (newest : newestBlob path.randomBlobs = some blob)
    (run : exec (step cfg) (s.dropRouteProvenCircular d) events = some s')
    (few : othersProven cfg d.destinationHash (s.dropRouteProvenCircular d) events < maxLoopRefusals)
    (later : s'.clockMs ≤ a.nowMs) (unexpired : a.nowMs < path.expiresMs)
    (waiting : ∀ b, .announce d.destinationHash b ∈ events → b.emitted ≤ emissionFromRandomHash blob)
    (keeps : Along (step cfg) (Keeps cfg d.destinationHash ⟨nextHop, blob, path.expiresMs⟩)
      (s.dropRouteProvenCircular d) events)
    (last : Keeps cfg d.destinationHash ⟨nextHop, blob, path.expiresMs⟩ s' (.announce d.destinationHash a))
    (through : a.transportId = some nextHop) (same : a.emitted = emissionFromRandomHash blob)
    (reason : AcceptReason) : (s'.handleAnnounce cfg d.destinationHash a).1 ≠ .installed reason := by
  have recorded : Listed d.destinationHash ⟨nextHop, blob, path.expiresMs⟩ 0
      (s.dropRouteProvenCircular d).refusals := by
    unfold LoopTables.dropRouteProvenCircular
    rw [proven]
    dsimp only
    rw [newest]
    exact ⟨_, ⟨nextHop, blob, path.expiresMs⟩, [], rfl, rfl, rfl, Nat.le_refl _, Nat.le_refl _⟩
  obtain ⟨later', listed⟩ := run_listed events recorded run keeps waiting (Nat.lt_of_le_of_lt later unexpired)
    (by omega)
  exact not_installed_of_listed listed last unexpired through same reason

/-! A route over interface 0 that came back from its next hop. -/

open Replay (plainNode heard)

def loopDest : TruncatedHash := FixedBytes.replicate 16 3
def loopHop : TruncatedHash := FixedBytes.replicate 16 4
def otherHop : TruncatedHash := FixedBytes.replicate 16 5

/-- The announce emitted at second `emission`, relayed by `relay` two hops away. -/
def relayed (emission : UInt8) (relay : TruncatedHash) (nowMs : Nat) : Announce :=
  { heard emission 0 nowMs with hops := 2, transportId := some relay }

def loopPath : PathEntry where
  hops := 2
  expiresMs := 604800000
  interfaceIndex := 0
  randomBlobs := [(heard 200 0 0).randomHash]
  nextHop := some loopHop
  viaPeer := none

def loopTables : LoopTables where
  rows := Function.update (fun _ => {}) loopDest { path := some loopPath }
  reverse := fun _ => some ⟨0, 1, 0, ReverseEntry.noPeer⟩
  refusals := []
  clockMs := 1000

def returned : Duplicate where
  packetType := .data
  destinationHash := loopDest
  hash := FixedBytes.replicate 16 9
  interfaceIndex := 0
  ingressPeer := none
  nowMs := 1000

theorem returned_proves : loopTables.provenCircular returned = some (loopPath, loopHop) := by decide

/-- The same emission is taken from another relay and not from the one that returned the packet. -/
theorem returning_relay_refused :
    ∃ s', exec (step plainNode) (loopTables.dropRouteProvenCircular returned)
        [.announce loopDest (relayed 200 otherHop 2000)] = some s' ∧
      ∀ reason, (s'.handleAnnounce plainNode loopDest (relayed 200 loopHop 5000)).1 ≠ .installed reason := by
  have newest : newestBlob loopPath.randomBlobs = some (heard 200 0 0).randomHash := by decide
  have run : exec (step plainNode) (loopTables.dropRouteProvenCircular returned)
      [.announce loopDest (relayed 200 otherHop 2000)] = some _ := rfl
  refine ⟨_, run, proven_loop_stays_refused returned_proves newest run (by decide) (by decide) (by decide) ?_ ?_ ?_
    rfl (by decide)⟩
  · intro b member
    cases List.mem_singleton.mp member
    decide
  · exact ⟨fun _ _ differs => absurd rfl differs, fun _ _ => trivial⟩
  · exact fun _ _ differs => absurd rfl differs

/-- A copy of an older announce ends the refusal, and the returning relay's answer is accepted again. -/
theorem older_announce_ends_refusal :
    loopTables.provenCircular returned = some (loopPath, loopHop) ∧
      newestBlob loopPath.randomBlobs = some (heard 200 0 0).randomHash ∧
      ∃ s', exec (step plainNode) (loopTables.dropRouteProvenCircular returned)
          [.announce loopDest (heard 100 1 2000)] = some s' ∧
        othersProven plainNode loopDest (loopTables.dropRouteProvenCircular returned)
          [.announce loopDest (heard 100 1 2000)] = 0 ∧
        (relayed 200 loopHop 5000).nowMs < loopPath.expiresMs ∧
        (heard 100 1 2000).emitted ≤ emissionFromRandomHash (heard 200 0 0).randomHash ∧
        (relayed 200 loopHop 5000).transportId = some loopHop ∧
        (relayed 200 loopHop 5000).emitted = emissionFromRandomHash (heard 200 0 0).randomHash ∧
        (s'.handleAnnounce plainNode loopDest (relayed 200 loopHop 5000)).1 = .installed .newerEmissionWorseHops := by
  refine ⟨returned_proves, by decide, _, rfl, ?_⟩
  decide

end LoopRefusal

end Leviculum.Transport
