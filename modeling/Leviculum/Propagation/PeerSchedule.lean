import Leviculum.Lib.RoundRobin
import Leviculum.Propagation.Peering

/-! Which peer a node syncs with next, and why a peer that stays due is never passed over twice for the
same other peer. -/

namespace Leviculum.Peering

open Propagation (DestinationHash)

namespace Peer

def isDue (now newestSequence : Nat) (dialable : Peer → Bool) (peer : Peer) : Bool :=
  peer.announceKnown && peer.state = .idle && peer.nextSyncAttempt ≤ now && peer.cursor < newestSequence &&
    dialable peer

end Peer

namespace PeerTable

def wrapped (t : PeerTable) : Option DestinationHash → List Peer
  | some pivot => t.peers.values.rotate (t.peers.positionAbove pivot)
  | none => t.peers.values

def nextDueWhere (t : PeerTable) (now newestSequence : Nat) (last : Option DestinationHash)
    (dialable : Peer → Bool) : Option DestinationHash :=
  ((t.wrapped last).find? (Peer.isDue now newestSequence dialable)).map (·.destinationHash)

theorem wrapped_some (t : PeerTable) (pivot : DestinationHash) :
    t.wrapped (some pivot) = RoundRobin.wrapAfter (·.destinationHash) pivot t.peers.values := by
  rw [wrapped, OrdMap.positionAbove, OrdMap.keys_eq_map_values t.keyed, RoundRobin.wrapAfter]

theorem mem_wrapped {t : PeerTable} {last : Option DestinationHash} {peer : Peer} :
    peer ∈ t.wrapped last ↔ peer ∈ t.peers.values := by
  cases last with
  | none => exact Iff.rfl
  | some pivot => exact List.mem_rotate

end PeerTable

/-- One scheduling decision: the table as it then stands, the clock, the newest record and whom the
node can dial. -/
structure Call where
  table : PeerTable
  now : Nat
  newestSequence : Nat
  dialable : Peer → Bool

namespace Call

def pick (call : Call) (last : Option DestinationHash) : Option DestinationHash :=
  call.table.nextDueWhere call.now call.newestSequence last call.dialable

def Due (call : Call) (hash : DestinationHash) : Prop :=
  ∃ peer, call.table.peers.get? hash = some peer ∧ peer.isDue call.now call.newestSequence call.dialable = true

def picks : Option DestinationHash → List Call → List DestinationHash
  | _, [] => []
  | last, call :: rest =>
    match call.pick last with
    | some hash => hash :: picks (some hash) rest
    | none => picks last rest

variable {call : Call} {waiting : DestinationHash}

theorem pick_isSome (due : call.Due waiting) (last : Option DestinationHash) : ∃ hash, call.pick last = some hash := by
  obtain ⟨peer, held, isDue⟩ := due
  have member : peer ∈ call.table.wrapped last :=
    PeerTable.mem_wrapped.mpr (OrdMap.mem_values.mpr ⟨waiting, held⟩)
  have found : ((call.table.wrapped last).find? (Peer.isDue call.now call.newestSequence call.dialable)).isSome = true :=
    List.find?_isSome.mpr ⟨peer, member, isDue⟩
  obtain ⟨first, first_eq⟩ := Option.isSome_iff_exists.mp found
  exact ⟨first.destinationHash, by rw [pick, PeerTable.nextDueWhere, first_eq, Option.map_some]⟩

theorem forward_pick {last hash : DestinationHash} (due : call.Due waiting) (other : last ≠ waiting)
    (picked : call.pick (some last) = some hash) :
    RoundRobin.Forward waiting last hash := by
  obtain ⟨peer, held, isDue⟩ := due
  obtain rfl := call.table.keyed held
  rw [pick, PeerTable.nextDueWhere, PeerTable.wrapped_some] at picked
  obtain ⟨first, found, rfl⟩ := Option.map_eq_some_iff.mp picked
  exact RoundRobin.forward_pick (OrdMap.values_sorted call.table.keyed) (OrdMap.mem_values.mpr ⟨_, held⟩) isDue other found

theorem picks_cons (due : call.Due waiting) (last : Option DestinationHash) (rest : List Call) :
    ∃ hash, call.pick last = some hash ∧ picks last (call :: rest) = hash :: picks (some hash) rest := by
  obtain ⟨hash, picked⟩ := pick_isSome due last
  exact ⟨hash, picked, by simp only [picks, picked]⟩

theorem picks_forward {calls : List Call} (always : ∀ call ∈ calls, call.Due waiting) {last : DestinationHash}
    {window : List DestinationHash} (start : window <+: picks (some last) calls) (other : last ≠ waiting)
    (passed : waiting ∉ window) :
    (last :: window).IsChain (RoundRobin.Forward waiting) := by
  induction calls generalizing last window with
  | nil =>
    obtain rfl : window = [] := List.prefix_nil.mp start
    exact List.IsChain.singleton _
  | cons call rest ih =>
    have due := always call List.mem_cons_self
    obtain ⟨hash, picked, run⟩ := picks_cons due (some last) rest
    rw [run] at start
    cases window with
    | nil => exact List.IsChain.singleton _
    | cons first later =>
      obtain ⟨rfl, start⟩ := List.cons_prefix_cons.mp start
      obtain ⟨here, there⟩ := List.ne_and_not_mem_of_not_mem_cons passed
      exact List.isChain_cons_cons.mpr ⟨forward_pick due other picked,
        ih (fun other member => always other (List.mem_cons_of_mem _ member)) start (Ne.symm here) there⟩

theorem nodup_of_prefix {calls : List Call} (always : ∀ call ∈ calls, call.Due waiting)
    {last : Option DestinationHash} {window : List DestinationHash} (start : window <+: picks last calls)
    (passed : waiting ∉ window) : window.Nodup := by
  cases calls with
  | nil =>
    obtain rfl : window = [] := List.prefix_nil.mp start
    exact List.nodup_nil
  | cons call rest =>
    obtain ⟨hash, -, run⟩ := picks_cons (always call List.mem_cons_self) last rest
    rw [run] at start
    cases window with
    | nil => exact List.nodup_nil
    | cons first later =>
      obtain ⟨rfl, start⟩ := List.cons_prefix_cons.mp start
      obtain ⟨here, there⟩ := List.ne_and_not_mem_of_not_mem_cons passed
      exact RoundRobin.nodup_of_forward
        (picks_forward (fun other member => always other (List.mem_cons_of_mem _ member)) start (Ne.symm here) there)

/-- In any stretch of a run that passes over a peer that is due throughout, nobody is picked twice. -/
theorem due_peer_passed_once (waiting : DestinationHash) (last : Option DestinationHash) (calls : List Call)
    (always : ∀ call ∈ calls, call.Due waiting) (window : List DestinationHash)
    (stretch : window <:+: picks last calls) (passed : waiting ∉ window) : window.Nodup := by
  induction calls generalizing last with
  | nil =>
    obtain rfl : window = [] := List.infix_nil.mp stretch
    exact List.nodup_nil
  | cons call rest ih =>
    obtain ⟨hash, -, run⟩ := picks_cons (always call List.mem_cons_self) last rest
    rw [run] at stretch
    rcases List.infix_cons_iff.mp stretch with start | later
    · exact nodup_of_prefix always (run ▸ start) passed
    · exact ih (some hash) (fun other member => always other (List.mem_cons_of_mem _ member)) later

/-- A call on a table that has heard peers 1, 2 and 3, each with a record above its cursor. -/
def threeDue : Call where
  table := [1, 2, 3].foldl (fun t byte =>
    (t.handleAnnounce (FixedBytes.replicate 16 byte) (PeerTable.sampleAnnounce 100 18) (some 1) 100 false).2)
    (PeerTable.new PeerTable.defaultConfig)
  now := 200
  newestSequence := 5
  dialable := fun _ => true

theorem due_peer_passed_once_three :
    picks (some (FixedBytes.replicate 16 3)) [threeDue, threeDue, threeDue] =
        [FixedBytes.replicate 16 1, FixedBytes.replicate 16 2, FixedBytes.replicate 16 3] ∧
      ([FixedBytes.replicate 16 1, FixedBytes.replicate 16 2] : List DestinationHash).Nodup := by
  have run : picks (some (FixedBytes.replicate 16 3)) [threeDue, threeDue, threeDue] =
      [FixedBytes.replicate 16 1, FixedBytes.replicate 16 2, FixedBytes.replicate 16 3] := by decide
  have due : threeDue.Due (FixedBytes.replicate 16 3) :=
    ⟨Peer.fromAnnounce (FixedBytes.replicate 16 3) (PeerTable.sampleAnnounce 100 18) false 100, by decide⟩
  refine ⟨run, due_peer_passed_once (FixedBytes.replicate 16 3) (some (FixedBytes.replicate 16 3))
    [threeDue, threeDue, threeDue] ?_ _ ?_ (by decide)⟩
  · intro call member
    obtain rfl : call = threeDue := by simpa using member
    exact due
  · rw [run]
    exact ⟨[], [FixedBytes.replicate 16 3], rfl⟩

end Call

end Leviculum.Peering
