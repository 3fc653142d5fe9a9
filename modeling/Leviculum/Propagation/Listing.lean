import Leviculum.Lib.StableSort
import Leviculum.Msgpack.Shortest
import Leviculum.Propagation.Envelope
import Leviculum.Propagation.Isolation

/-! The bounded list of a mailbox is the head of the whole list, and fits the response it was cut for. -/

namespace Leviculum.Propagation

open Msgpack.Lxmf (Rmp shortest shortest_compact)
open PropagationStore StableSort

theorem listMailbox_bounded (capacity : Nat) (mailbox : List StoredMessage) :
    listMailbox (some capacity) mailbox = (listMailbox none mailbox).take capacity := by
  have online : mailbox.foldl (boundedInsert capacity) [] =
      (listedPairs mailbox).foldl (insertBounded Prod.snd capacity) [] := by
    rw [listedPairs, List.foldl_map]
    rfl
  show mailbox.foldl (boundedInsert capacity) [] = _
  rw [online, foldl_insertBounded]
  rfl

theorem shrinkToFit_fits (responseBytes count : Nat) (some_ : shrinkToFit responseBytes count ≠ 0) :
    arrayHeaderLen (shrinkToFit responseBytes count) + shrinkToFit responseBytes count * listIdBytes ≤ responseBytes := by
  induction count with
  | zero => exact absurd rfl some_
  | succ count ih =>
    unfold shrinkToFit at some_ ⊢
    split at some_
    next above =>
      rw [if_pos above]
      exact ih some_
    next fits =>
      rw [if_neg fits]
      exact Nat.le_of_not_lt fits

theorem length_encodedIds_le {library : Rmp} (compact : library.Compact) {ceiling : Nat} {ids : List TransientId}
    (few : ids.length ≤ listCapacity ceiling) (some_ : listCapacity ceiling ≠ 0) :
    (encodeIds library ids).length ≤ ceiling := by
  have fits := shrinkToFit_fits ceiling (ceiling / listIdBytes) some_
  change arrayHeaderLen (listCapacity ceiling) + listCapacity ceiling * listIdBytes ≤ ceiling at fits
  calc (encodeIds library ids).length
    _ = arrayHeaderLen (ids.length % 2 ^ 32) + ids.length * listIdBytes := length_encodeIds compact ids
    _ ≤ arrayHeaderLen (listCapacity ceiling) + listCapacity ceiling * listIdBytes :=
        Nat.add_le_add (arrayHeaderLen_mono ((Nat.mod_le _ _).trans few)) (Nat.mul_le_mul_right _ few)
    _ ≤ ceiling := fits

/-- The bytes a list response may take: the smaller of the configured limits. -/
def responseCeiling (config : PropagationNodeConfig) : Option Nat :=
  (config.serveLimitBytes.toList ++ config.serveCapBytes.toList).min?

theorem listCeiling_eq (config : PropagationNodeConfig) :
    PropagationNode.listCeiling config = (responseCeiling config).map listCapacity := by
  unfold PropagationNode.listCeiling responseCeiling
  cases config.serveLimitBytes <;> cases config.serveCapBytes <;> rfl

/-- The list form answers with the head of the mailbox in order of size, as much of it as the ceiling holds,
or says that it holds nothing. -/
theorem list_is_sorted_head {library : Rmp} (compact : library.Compact) {Store : Type} [PropagationStore Store]
    (node : PropagationNode Store) (request : Bytes) (remote : DestinationHash) (nowSecs : Nat)
    {decoded : MessageGetRequest} {entries : List StoredMessage}
    (well : MessageGetRequest.decode library request = .ok decoded) (form : decoded.wants = none ∧ decoded.haves = none)
    (listing : forEach node.store = .ok entries) :
    let pairs := listedPairs (PropagationNode.mailbox entries remote)
    let sorted := pairs.insertionSort (fun entry other => entry.2 ≤ other.2)
    Stable Prod.snd pairs sorted ∧
    match responseCeiling node.config with
    | none => (node.prepareGet library request remote nowSecs).1 =
        .ok (.ready (encodeIds library (sorted.map Prod.fst)) sorted.length)
    | some ceiling =>
      if listCapacity ceiling = 0 then
        (node.prepareGet library request remote nowSecs).1 = .ok (.ready (PeerError.throttled.encode library) 0)
      else
        let head := sorted.take (listCapacity ceiling)
        (node.prepareGet library request remote nowSecs).1 =
            .ok (.ready (encodeIds library (head.map Prod.fst)) head.length) ∧
          (encodeIds library (head.map Prod.fst)).length ≤ ceiling := by
  intro pairs sorted
  refine ⟨stable_insertionSort Prod.snd pairs, ?_⟩
  have answer : (node.prepareGet library request remote nowSecs).1 =
      if PropagationNode.listCeiling node.config = some 0 then .ok (.ready (PeerError.throttled.encode library) 0)
      else .ok (.ready
        (encodeIds library ((listMailbox (PropagationNode.listCeiling node.config)
          (PropagationNode.mailbox entries remote)).map Prod.fst))
        (listMailbox (PropagationNode.listCeiling node.config) (PropagationNode.mailbox entries remote)).length) := by
    unfold PropagationNode.prepareGet
    rw [well]
    dsimp only
    rw [if_pos form, listing]
    split <;> rfl
  rw [listCeiling_eq] at answer
  cases ceiling : responseCeiling node.config with
  | none =>
    rw [ceiling, Option.map_none, if_neg (by simp)] at answer
    exact answer
  | some ceiling' =>
    rw [ceiling, Option.map_some] at answer
    dsimp only
    by_cases none : listCapacity ceiling' = 0
    · rw [if_pos (congrArg some none)] at answer
      rw [if_pos none]
      exact answer
    · rw [if_neg (fun same => none (Option.some.inj same)), listMailbox_bounded] at answer
      rw [if_neg none]
      refine ⟨answer, length_encodedIds_le compact ?_ none⟩
      rw [List.length_map, List.length_take]
      exact Nat.min_le_left _ _

/-- A board with three messages for one destination, the last two of one size. -/
def boardTied : Store.PnStore :=
  ⟨[⟨some 1, [⟨⟨FixedBytes.replicate 32 1, 0, 16, List.replicate 100 7⟩, true⟩,
    ⟨⟨FixedBytes.replicate 32 3, 0, 16, List.replicate 60 7⟩, true⟩,
    ⟨⟨FixedBytes.replicate 32 2, 0, 16, List.replicate 60 7⟩, true⟩], true⟩], []⟩

def listRequest : Bytes := [0x92, 0xc0, 0xc0]

/-- Seventy bytes hold two ids: the two smaller messages, in the order they were stored. -/
theorem list_is_sorted_head_tied :
    let node : PropagationNode Store.PnStore := ⟨boardTied, ⟨0, 0, false, some 70, none⟩, ∅, false⟩
    (node.prepareGet shortest listRequest (FixedBytes.replicate 16 7) 0).1 =
        .ok (.ready (encodeIds shortest [FixedBytes.replicate 32 3, FixedBytes.replicate 32 2]) 2) ∧
      (encodeIds shortest [FixedBytes.replicate 32 3, FixedBytes.replicate 32 2]).length ≤ 70 :=
  (list_is_sorted_head shortest_compact
    (⟨boardTied, ⟨0, 0, false, some 70, none⟩, ∅, false⟩ : PropagationNode Store.PnStore)
    listRequest (FixedBytes.replicate 16 7) 0
    (show MessageGetRequest.decode shortest listRequest = .ok ⟨none, none, none⟩ from rfl) ⟨rfl, rfl⟩ rfl).2

/-- A ceiling of one byte is answered with two, and not with the empty list. -/
theorem list_throttled_above_ceiling :
    let node : PropagationNode Store.PnStore := ⟨boardTied, ⟨0, 0, false, some 1, none⟩, ∅, false⟩
    (node.prepareGet shortest listRequest (FixedBytes.replicate 16 7) 0).1 = .ok (.ready [0xcc, 0xf6] 0) ∧
      responseCeiling node.config = some 1 ∧ ¬ ([0xcc, 0xf6] : Bytes).length ≤ 1 ∧ [0xcc, 0xf6] ≠ encodeIds shortest [] :=
  ⟨rfl, rfl, by decide, by decide⟩

end Leviculum.Propagation
