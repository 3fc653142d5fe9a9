import Mathlib.Data.List.Dedup
import Mathlib.Data.List.Induction
import Leviculum.Lib.LeastKeys
import Leviculum.Lib.Select
import Leviculum.Propagation.Message

/-! Active delivery from a propagation node: the stored message a node pushes to one destination, and the
destinations a newly linked peer is asked about. -/

namespace Leviculum.Propagation

def solicitDestinationsCap : Nat := 8

structure PeerUpSolicit where
  excluded : List TransientId
  /-- A destination and the sequence of its oldest pushable message. -/
  picks : List (DestinationHash × Nat)

namespace PeerUpSolicit

def new (excluded : List TransientId) : PeerUpSolicit := ⟨excluded, []⟩

/-- The pick that waited shortest, with its place. -/
def youngest (picks : List (DestinationHash × Nat)) : Option ((DestinationHash × Nat) × Nat) :=
  Select.maxBy (fun held item => item.1.2 < held.1.2) picks.zipIdx

def consider (s : PeerUpSolicit) (entry : StoredMessage) : PeerUpSolicit :=
  if s.excluded.contains entry.transientId then s
  else
    match s.picks.findIdx? (fun pick => pick.1 = entry.destinationHash) with
    | some place =>
      { s with picks := s.picks.modify place (fun pick => (pick.1, min pick.2 entry.sequence)) }
    | none =>
      if s.picks.length < solicitDestinationsCap then
        { s with picks := s.picks ++ [(entry.destinationHash, entry.sequence)] }
      else
        match (youngest s.picks).filter (fun held => entry.sequence < held.1.2) with
        | some (_, place) => { s with picks := s.picks.set place (entry.destinationHash, entry.sequence) }
        | none => s

/-- The destinations to ask about, longest waiting first. -/
def destinations (s : PeerUpSolicit) : List DestinationHash :=
  (s.picks.insertionSort (fun a b => a.2 ≤ b.2)).map Prod.fst

end PeerUpSolicit

def pushable (excluded : List TransientId) (messages : List StoredMessage) : List StoredMessage :=
  messages.filter (fun entry => ¬ excluded.contains entry.transientId)

def candidates (excluded : List TransientId) (messages : List StoredMessage) : List DestinationHash :=
  ((pushable excluded messages).map (·.destinationHash)).dedup

def oldestPushable (excluded : List TransientId) (messages : List StoredMessage)
    (destination : DestinationHash) : Nat :=
  (((pushable excluded messages).filter (·.destinationHash = destination)).map (·.sequence)).min?.getD 0

def offers (excluded : List TransientId) (messages : List StoredMessage) : List (DestinationHash × Nat) :=
  (pushable excluded messages).map (fun entry => (entry.destinationHash, entry.sequence))

section Spec

variable {excluded : List TransientId} {messages scan : List StoredMessage}

theorem offers_append (excluded : List TransientId) (messages : List StoredMessage) (entry : StoredMessage) :
    offers excluded (messages ++ [entry]) =
      offers excluded messages ++
        if excluded.contains entry.transientId then [] else [(entry.destinationHash, entry.sequence)] := by
  unfold offers pushable
  rw [List.filter_append, List.map_append]
  congr 1
  by_cases skipped : excluded.contains entry.transientId = true
  · rw [List.filter_cons_of_neg (by simpa using skipped), if_pos skipped]
    rfl
  · rw [List.filter_cons_of_pos (by simpa using skipped), if_neg skipped]
    rfl

theorem mem_offers {offer : DestinationHash × Nat} : offer ∈ offers excluded messages ↔
    ∃ entry ∈ pushable excluded messages, entry.destinationHash = offer.1 ∧ entry.sequence = offer.2 := by
  simp only [offers, List.mem_map, Prod.ext_iff]

theorem mem_candidates {destination : DestinationHash} : destination ∈ candidates excluded messages ↔
    destination ∈ (offers excluded messages).map Prod.fst := by
  simp [candidates, offers]

theorem leastOf_oldestPushable (excluded : List TransientId) (messages : List StoredMessage) :
    LeastKeys.LeastOf (offers excluded messages) (oldestPushable excluded messages) := by
  intro offer member
  have listed : ∀ key, key ∈ ((pushable excluded messages).filter (·.destinationHash = offer.1)).map (·.sequence) ↔
      (offer.1, key) ∈ offers excluded messages := by
    intro key
    simp only [mem_offers, List.mem_map, List.mem_filter, decide_eq_true_eq, and_assoc]
  unfold oldestPushable
  cases found : (((pushable excluded messages).filter (·.destinationHash = offer.1)).map (·.sequence)).min? with
  | none =>
    rw [List.min?_eq_none_iff] at found
    have inside := (listed offer.2).mpr member
    rw [found] at inside
    cases inside
  | some least =>
    obtain ⟨attained, bound⟩ := List.min?_eq_some_iff.mp found
    exact ⟨(listed least).mp attained, fun key there => bound key ((listed key).mpr there)⟩

theorem split_at_place {α : Type*} {items : List α} {place : Nat} (inside : place < items.length) :
    ∃ before after, items = before ++ items[place] :: after ∧ before.length = place := by
  refine ⟨items.take place, items.drop (place + 1), ?_, ?_⟩
  · rw [← List.drop_eq_getElem_cons inside, List.take_append_drop]
  · rw [List.length_take]
    omega

theorem youngest_spec {picks : List (DestinationHash × Nat)} {held : DestinationHash × Nat} {place : Nat}
    (found : PeerUpSolicit.youngest picks = some (held, place)) :
    (∃ before after, picks = before ++ held :: after ∧ before.length = place) ∧
      ∀ other ∈ picks, other.2 ≤ held.2 := by
  refine ⟨?_, ?_⟩
  · obtain ⟨inside, same⟩ := List.mem_zipIdx' (Select.mem_of_maxBy found)
    rw [same]
    exact split_at_place inside
  · intro other member
    obtain ⟨spot, inside, rfl⟩ := List.mem_iff_getElem.mp member
    have listed : (picks[spot], spot) ∈ picks.zipIdx := by
      rw [List.mem_zipIdx_iff_getElem?]
      exact List.getElem?_eq_getElem inside
    exact Select.key_le_of_maxBy (fun item : (DestinationHash × Nat) × Nat => item.1.2) found listed

theorem youngest_isSome {picks : List (DestinationHash × Nat)} (nonempty : 0 < picks.length) :
    ∃ held, PeerUpSolicit.youngest picks = some held := by
  cases picks with
  | nil => cases nonempty
  | cons first rest => exact ⟨_, rfl⟩

/-- One message, offered to the picks of those before it. -/
theorem holds_consider {s : PeerUpSolicit}
    (holds : LeastKeys.Holds solicitDestinationsCap (offers s.excluded scan) s.picks) (entry : StoredMessage) :
    LeastKeys.Holds solicitDestinationsCap (offers s.excluded (scan ++ [entry])) (s.consider entry).picks := by
  rw [offers_append]
  unfold PeerUpSolicit.consider
  by_cases skipped : s.excluded.contains entry.transientId = true
  · rw [if_pos skipped, if_pos skipped, List.append_nil]
    exact holds
  rw [if_neg skipped, if_neg skipped]
  split
  next place found =>
    obtain ⟨inside, same, -⟩ := List.findIdx?_eq_some_iff_getElem.mp found
    obtain ⟨before, after, parts, rfl⟩ := split_at_place inside
    generalize s.picks[before.length] = pick at same parts
    rw [parts] at holds ⊢
    have modified : (before ++ pick :: after).modify before.length
        (fun pick => (pick.1, min pick.2 entry.sequence)) =
          before ++ (pick.1, min pick.2 entry.sequence) :: after := by
      rw [List.modify_eq_take_cons_drop (by simp)]
      simp
    rw [modified]
    exact holds.lower (by simpa using same)
  next absent =>
    have fresh : entry.destinationHash ∉ s.picks.map Prod.fst := by
      intro member
      obtain ⟨pick, there, same⟩ := List.mem_map.mp member
      exact absurd same (by simpa using List.findIdx?_eq_none_iff.mp absent pick there)
    by_cases room : s.picks.length < solicitDestinationsCap
    · rw [if_pos room]
      exact holds.push fresh room
    · rw [if_neg room]
      have full : s.picks.length = solicitDestinationsCap :=
        Nat.le_antisymm holds.short (Nat.le_of_not_lt room)
      obtain ⟨⟨held, place⟩, found⟩ := youngest_isSome (full ▸ (by decide : 0 < solicitDestinationsCap))
      obtain ⟨⟨before, after, parts, rfl⟩, largest⟩ := youngest_spec found
      rw [found, Option.filter_some]
      by_cases older : entry.sequence < held.2
      · rw [if_pos (by simpa using older)]
        rw [parts] at holds fresh full largest
        show LeastKeys.Holds _ _ (s.picks.set before.length _)
        rw [parts, List.set_append_right _ _ (Nat.le_refl _), Nat.sub_self, List.set_cons_zero]
        exact holds.replace fresh full largest older
      · rw [if_neg (by simpa using older)]
        refine holds.refuse fresh full ?_
        intro other member
        exact (largest other member).trans (Nat.le_of_not_lt older)

theorem excluded_consider (s : PeerUpSolicit) (entry : StoredMessage) : (s.consider entry).excluded = s.excluded := by
  unfold PeerUpSolicit.consider
  split
  · rfl
  split
  · rfl
  split
  · rfl
  split <;> rfl

theorem holds_foldl_consider (excluded : List TransientId) (scan : List StoredMessage) :
    (scan.foldl PeerUpSolicit.consider (PeerUpSolicit.new excluded)).excluded = excluded ∧
      LeastKeys.Holds solicitDestinationsCap (offers excluded scan)
        (scan.foldl PeerUpSolicit.consider (PeerUpSolicit.new excluded)).picks := by
  induction scan using List.reverseRecOn with
  | nil => exact ⟨rfl, LeastKeys.holds_nil⟩
  | append_singleton before entry ih =>
    obtain ⟨same, holds⟩ := ih
    rw [List.foldl_append, List.foldl_cons, List.foldl_nil]
    refine ⟨(excluded_consider _ entry).trans same, ?_⟩
    generalize before.foldl PeerUpSolicit.consider (PeerUpSolicit.new excluded) = s at same holds
    subst same
    exact holds_consider holds entry

/-- In whatever order the scan presents the messages, the destinations asked about are the first eight in the order
of their oldest pushable messages. -/
theorem destinations_oldest_first (excluded : List TransientId) (messages scan : List StoredMessage)
    (order : scan.Perm messages)
    (distinct : ∀ one ∈ candidates excluded messages, ∀ two ∈ candidates excluded messages,
      oldestPushable excluded messages one = oldestPushable excluded messages two → one = two) :
    (scan.foldl PeerUpSolicit.consider (PeerUpSolicit.new excluded)).destinations =
      ((candidates excluded messages).insertionSort
        (fun a b => oldestPushable excluded messages a ≤ oldestPushable excluded messages b)).take
          solicitDestinationsCap := by
  have same : ∀ offer, offer ∈ offers excluded scan ↔ offer ∈ offers excluded messages := by
    intro offer
    exact ((order.filter _).map _).mem_iff
  have least : LeastKeys.LeastOf (offers excluded scan) (oldestPushable excluded messages) := by
    intro offer member
    have there := leastOf_oldestPushable excluded messages offer ((same offer).mp member)
    simpa only [same] using there
  refine (holds_foldl_consider excluded scan).2.sorted_eq_take least (List.nodup_dedup _) ?_ distinct
  intro name
  rw [mem_candidates, List.mem_map, List.mem_map]
  simp only [same]

/-- A message of destination `name` at `sequence`. -/
def waitingMessage (name : UInt8) (sequence : Nat) : StoredMessage where
  transientId := FixedBytes.replicate 32 (UInt8.ofNat sequence)
  destinationHash := FixedBytes.replicate 16 name
  size := 100
  receivedAt := 0
  stampValue := 0
  sequence := sequence

/-- Ten destinations scanned newest first: the second gives way to older ones and comes back. -/
def newestFirst : List StoredMessage :=
  [waitingMessage 1 20, waitingMessage 2 19, waitingMessage 3 18, waitingMessage 4 17, waitingMessage 5 16,
    waitingMessage 6 15, waitingMessage 7 14, waitingMessage 8 13, waitingMessage 9 12, waitingMessage 10 11,
    waitingMessage 2 3]

theorem destinations_newest_first :
    (newestFirst.foldl PeerUpSolicit.consider (PeerUpSolicit.new [])).destinations =
      [2, 10, 9, 8, 7, 6, 5, 4].map (FixedBytes.replicate 16) := by
  rw [destinations_oldest_first [] newestFirst.reverse newestFirst (List.reverse_perm _).symm (by decide)]
  decide

end Spec

end Leviculum.Propagation
