import Leviculum.Msgpack.Shortest
import Leviculum.Propagation.Get
import Leviculum.Propagation.Refusal

/-! What a `/get` answer depends on: the request, the settings and the client's own mailbox. -/

namespace Leviculum.Propagation

open Msgpack.Lxmf (Rmp shortest)
open PropagationStore

/-- A store whose directory can be read, and whose confirmed purge of a listed message removes that
message and no message of another id. -/
class LawfulStore (Store : Type) [PropagationStore Store] where
  Sound : Store → Prop
  reads : ∀ store, Sound store → ∃ entries, forEach store = .ok entries
  purges : ∀ store, Sound store → ∀ entries, forEach store = .ok entries → ∀ message ∈ entries,
    ∃ outcome after entries', purgeConfirmed store message.transientId = (.ok outcome, after) ∧
      outcome ≠ .absent ∧ Sound after ∧ forEach after = .ok entries' ∧
      ∀ other ∈ entries, other.transientId ≠ message.transientId →
        ∃ kept ∈ entries', kept.transientId = other.transientId

/-- The confirmations of a request against what the client owns: what is left, and what goes. -/
def settleHaves : Owned → List TransientId → Owned × List TransientId
  | owned, [] => (owned, [])
  | owned, id :: rest =>
    if id ∉ owned then settleHaves owned rest
    else ((settleHaves (owned.erase id) rest).1, id :: (settleHaves (owned.erase id) rest).2)

section Confirm

variable {Store : Type} [PropagationStore Store] [LawfulStore Store]

theorem confirmHaves_eq (nowSecs : Nat) (ids : List TransientId) (state : Confirming Store)
    (sound : LawfulStore.Sound state.node.store) {entries : List StoredMessage}
    (listing : forEach state.node.store = .ok entries)
    (listed : ∀ id ∈ state.owned, ∃ message ∈ entries, message.transientId = id) :
    (confirmHaves nowSecs state ids).1 = .ok () ∧
      (confirmHaves nowSecs state ids).2.owned = (settleHaves state.owned ids).1 ∧
      (confirmHaves nowSecs state ids).2.purged = state.purged ++ (settleHaves state.owned ids).2 := by
  induction ids generalizing state entries with
  | nil => exact ⟨rfl, rfl, (List.append_nil _).symm⟩
  | cons id rest ih =>
    unfold confirmHaves settleHaves
    by_cases missing : id ∉ state.owned
    · rw [if_pos missing, if_pos missing]
      exact ih state sound listing listed
    · rw [if_neg missing, if_neg missing]
      obtain ⟨message, member, rfl⟩ := listed id (Decidable.not_not.mp missing)
      obtain ⟨outcome, after, entries', answer, present, sound', listing', kept⟩ :=
        LawfulStore.purges state.node.store sound entries listing message member
      have listed' : ∀ id ∈ state.owned.erase message.transientId, ∃ other ∈ entries', other.transientId = id := by
        intro id held
        obtain ⟨apart, held'⟩ := AList.mem_erase.mp held
        obtain ⟨other, here, rfl⟩ := listed id held'
        exact kept other here apart
      dsimp only
      rw [answer]
      cases outcome with
      | absent => exact absurd rfl present
      | committed =>
        obtain ⟨fine, owned, purged⟩ := ih
          ⟨{ state.node with store := after
                             processed := state.node.processed.insert message.transientId nowSecs },
            state.owned.erase message.transientId, state.purged ++ [message.transientId]⟩ sound' listing' listed'
        refine ⟨fine, owned, purged.trans ?_⟩
        rw [List.append_assoc]
        rfl
      | queued =>
        obtain ⟨fine, owned, purged⟩ := ih
          ⟨{ state.node with store := after }, state.owned.erase message.transientId,
            state.purged ++ [message.transientId]⟩ sound' listing' listed'
        refine ⟨fine, owned, purged.trans ?_⟩
        rw [List.append_assoc]
        rfl

end Confirm

def Owns (entries : List StoredMessage) (remote : DestinationHash) (id : TransientId) : Prop :=
  ∃ message ∈ entries, message.destinationHash = remote ∧ message.transientId = id

theorem owns_iff_mailbox {entries : List StoredMessage} {remote : DestinationHash} {id : TransientId} :
    Owns entries remote id ↔ ∃ message ∈ PropagationNode.mailbox entries remote, message.transientId = id := by
  unfold Owns PropagationNode.mailbox
  constructor
  · rintro ⟨message, member, same, named⟩
    exact ⟨message, List.mem_filter.mpr ⟨member, decide_eq_true same⟩, named⟩
  · rintro ⟨message, member, named⟩
    obtain ⟨here, same⟩ := List.mem_filter.mp member
    exact ⟨message, here, of_decide_eq_true same, named⟩

theorem named_without_size (requested : List TransientId) {owned : Owned}
    (zero : ∀ entry ∈ owned.entries, entry.2 = 0) :
    ∀ entry ∈ (requested.foldl (fun owned id => owned.insert id 0) owned).entries, entry.2 = 0 := by
  induction requested generalizing owned with
  | nil => exact zero
  | cons first rest ih =>
    rw [List.foldl_cons]
    apply ih
    intro entry member
    rw [AList.entries_insert, List.mem_cons] at member
    rcases member with rfl | old
    · rfl
    · exact zero entry ((List.kerase_sublist _ _).subset old)

theorem sized_from_mailbox {mailbox : List StoredMessage} (seen : List StoredMessage) {owned : Owned}
    (origin : ∀ entry ∈ owned.entries, entry.2 ≠ 0 → ∃ message ∈ mailbox, message.transientId = entry.1)
    (inside : ∀ message ∈ seen, message ∈ mailbox) :
    ∀ entry ∈ (seen.foldl (fun owned (entry : StoredMessage) =>
      if entry.transientId ∈ owned then owned.insert entry.transientId entry.size else owned) owned).entries,
      entry.2 ≠ 0 → ∃ message ∈ mailbox, message.transientId = entry.1 := by
  induction seen generalizing owned with
  | nil => exact origin
  | cons first rest ih =>
    rw [List.foldl_cons]
    refine ih ?_ (fun message member => inside message (List.mem_cons_of_mem _ member))
    by_cases named : first.transientId ∈ owned
    · rw [if_pos named]
      intro entry member large
      rw [AList.entries_insert, List.mem_cons] at member
      rcases member with rfl | old
      · exact ⟨first, inside first List.mem_cons_self, rfl⟩
      · exact origin entry ((List.kerase_sublist _ _).subset old) large
    · rw [if_neg named]
      exact origin

theorem ownedOf_mem {requested : List TransientId} {mailbox : List StoredMessage} {id : TransientId}
    (held : id ∈ ownedOf requested mailbox) : ∃ message ∈ mailbox, message.transientId = id := by
  rw [AList.mem_keys, AList.keys, List.mem_keys] at held
  obtain ⟨size, member⟩ := held
  obtain ⟨inside, large⟩ := List.mem_filter.mp member
  refine sized_from_mailbox mailbox ?_ (fun message here => here) _ inside (of_decide_eq_true large)
  intro entry here large'
  have none : ∀ entry ∈ (∅ : Owned).entries, entry.2 = 0 := fun entry absent => absurd absent List.not_mem_nil
  exact absurd (named_without_size requested none entry here) large'

theorem settleHaves_mem {owned : Owned} {ids : List TransientId} :
    (∀ id ∈ (settleHaves owned ids).1, id ∈ owned) ∧ ∀ id ∈ (settleHaves owned ids).2, id ∈ owned := by
  induction ids generalizing owned with
  | nil => exact ⟨fun id held => held, nofun⟩
  | cons first rest ih =>
    unfold settleHaves
    split
    · exact ih
    next held =>
      obtain ⟨left, gone⟩ := @ih (owned.erase first)
      constructor
      · exact fun id here => (AList.mem_erase.mp (left id here)).2
      · intro id here
        rcases List.mem_cons.mp here with rfl | later
        · exact Decidable.not_not.mp held
        · exact (AList.mem_erase.mp (gone id later)).2

theorem serve_mem {wants : List TransientId} {serving : Serving} {id : TransientId}
    (member : id ∈ (serve serving wants).served.map Prod.fst) :
    id ∈ serving.served.map Prod.fst ∨ id ∈ serving.owned := by
  induction wants generalizing serving with
  | nil => exact .inl member
  | cons first rest ih =>
    unfold serve at member
    split at member
    · exact .inl member
    · cases found : serving.owned.lookup first with
      | none =>
        rw [found] at member
        exact ih member
      | some size =>
        rw [found] at member
        dsimp only at member
        split at member
        · exact ih member
        · split at member
          · exact ih member
          · rcases ih member with served | owned
            · rw [List.map_append, List.mem_append] at served
              rcases served with old | new
              · exact .inl old
              · right
                rw [List.mem_singleton.mp new]
                exact AList.lookup_isSome.mp (Option.isSome_iff_exists.mpr ⟨size, found⟩)
            · exact .inr (AList.mem_erase.mp owned).2

theorem boundedInsert_mem {capacity : Nat} {available : List (TransientId × Nat)} {message : StoredMessage}
    {entry : TransientId × Nat} (member : entry ∈ boundedInsert capacity available message) :
    entry ∈ available ∨ entry = (message.transientId, message.size) := by
  unfold boundedInsert at member
  dsimp only at member
  split at member
  · exact .inl member
  · have kept : ∀ {held : List (TransientId × Nat)}, (held = available.dropLast ∨ held = available) →
        entry ∈ held → entry ∈ available := by
      rintro held (rfl | rfl) inside
      · exact (List.dropLast_sublist _).subset inside
      · exact inside
    have which : ∀ held, held = (if available.length = capacity then available.dropLast else available) →
        held = available.dropLast ∨ held = available := by
      rintro held rfl
      split
      · exact .inl rfl
      · exact .inr rfl
    rw [List.mem_append, List.mem_cons] at member
    rcases member with before | rfl | behind
    · exact .inl (kept (which _ rfl) (List.mem_of_mem_take before))
    · exact .inr rfl
    · exact .inl (kept (which _ rfl) (List.mem_of_mem_drop behind))

theorem listMailbox_mem {capacity : Option Nat} {mailbox : List StoredMessage} {entry : TransientId × Nat}
    (member : entry ∈ listMailbox capacity mailbox) : ∃ message ∈ mailbox, message.transientId = entry.1 := by
  cases capacity with
  | none =>
    unfold listMailbox at member
    rw [List.mem_insertionSort, List.mem_map] at member
    obtain ⟨message, here, rfl⟩ := member
    exact ⟨message, here, rfl⟩
  | some capacity =>
    have walk : ∀ (seen : List StoredMessage) (available : List (TransientId × Nat)),
        entry ∈ seen.foldl (boundedInsert capacity) available →
        entry ∈ available ∨ ∃ message ∈ seen, message.transientId = entry.1 := by
      intro seen
      induction seen with
      | nil => exact fun available inside => .inl inside
      | cons first rest ih =>
        intro available inside
        rcases ih _ inside with early | ⟨message, here, named⟩
        · rcases boundedInsert_mem early with old | rfl
          · exact .inl old
          · exact .inr ⟨first, List.mem_cons_self, rfl⟩
        · exact .inr ⟨message, List.mem_cons_of_mem _ here, named⟩
    rcases walk mailbox [] member with none | found
    · cases none
    · exact found

instance : LawfulStore MemoryPropagationStore where
  Sound _ := True
  reads store _ := ⟨store.forEach, rfl⟩
  purges store _ entries listing message member := by
    obtain rfl := Except.ok.inj listing
    have held := MemoryPropagationStore.mem_forEach.mp ⟨message, member, rfl⟩
    refine ⟨.committed, (store.purge message.transientId).2, (store.purge message.transientId).2.forEach,
      ?_, nofun, trivial, rfl, ?_⟩
    · have present : (store.purge message.transientId).1 = true := AList.lookup_isSome.mpr held
      change confirmPurge (.ok (store.purge message.transientId).1, _) = _
      rw [present]
      rfl
    · intro other here apart
      apply MemoryPropagationStore.mem_forEach.mpr
      exact AList.mem_erase.mpr ⟨apart, MemoryPropagationStore.mem_forEach.mp ⟨other, here, rfl⟩⟩

theorem board_purgeConfirmed {store : Store.PnStore} {message : StoredMessage} (listed : message ∈ store.forEach) :
    (∃ before op after entry, store.queue = before ++ op :: after ∧ op.entry = some entry ∧
      store.purgeConfirmed message.transientId = (.ok .committed, { store with queue := before ++ after })) ∨
    ∃ record ∈ store.scanMessages, record.key = message.transientId ∧
      store.purgeConfirmed message.transientId = (.ok .queued,
        { store with queue := store.queue ++ [.confirmedPurge record.offset message.transientId] }) := by
  have found := Store.PnStore.purge_listed listed
  rcases store.purge_cases message.transientId with
    ⟨before, op, after, entry, split, written, purged⟩ | ⟨record, member, named, purged⟩ | ⟨-, purged⟩
  · refine .inl ⟨before, op, after, entry, split, written, ?_⟩
    unfold Store.PnStore.purgeConfirmed
    dsimp only
    rw [purged]
    dsimp only
    rw [if_neg (by decide), if_pos]
    rw [split, List.length_append, List.length_append, List.length_cons]
    omega
  · refine .inr ⟨record, member, named, ?_⟩
    unfold Store.PnStore.purgeConfirmed
    dsimp only
    rw [purged]
    dsimp only
    rw [if_neg (by decide), if_neg, List.getLast?_concat, List.dropLast_concat]
    rw [List.length_append, List.length_singleton]
    omega
  · rw [purged] at found
    cases found

instance : LawfulStore Store.PnStore where
  Sound store := Store.Fitting store.region
  reads store _ := ⟨store.forEach, rfl⟩
  purges store fitting entries listing message member := by
    obtain rfl := Except.ok.inj listing
    rcases board_purgeConfirmed member with
      ⟨before, op, after, entry, split, written, answer⟩ | ⟨record, seen, named, answer⟩
    · refine ⟨_, _, _, answer, nofun, fitting, rfl, ?_⟩
      intro other here _
      refine ⟨other, ?_, rfl⟩
      unfold Store.PnStore.forEach
      rw [Store.PnStore.scanMessages_drop_append split written]
      exact here
    · refine ⟨_, _, _, answer, nofun, fitting, rfl, ?_⟩
      intro other here apart
      refine ⟨other, ?_, rfl⟩
      obtain ⟨source, inside, stored⟩ := List.mem_filterMap.mp here
      unfold Store.PnStore.forEach
      rw [store.scanMessages_mask rfl]
      refine List.mem_filterMap.mpr ⟨source, List.mem_filter.mpr ⟨inside, ?_⟩, stored⟩
      rw [Bool.not_eq_true', beq_eq_false_iff_ne]
      intro same
      have one := fitting.record_unique (Store.PnStore.mem_scanMessages.mp seen).1
        (Store.PnStore.mem_scanMessages.mp inside).1 same
      apply apart
      rw [Store.PnStore.stored_transientId stored, ← one, named]

/-- Every id an answer lists, serves or purges is of the client's mailbox. -/
def Confined (library : Rmp) (entries : List StoredMessage) (remote : DestinationHash) :
    Except GetError PreparedGet → Prop
  | .ok (.ready response count) =>
    response = PeerError.throttled.encode library ∧ count = 0 ∨
      ∃ ids, response = encodeIds library ids ∧ count = ids.length ∧ ∀ id ∈ ids, Owns entries remote id
  | .ok (.fetch prepared) =>
    (∀ id ∈ prepared.plan.served.map Prod.fst, Owns entries remote id) ∧
      ∀ id ∈ prepared.purged, Owns entries remote id
  | .error _ => True

def answerGet (library : Rmp) (config : PropagationNodeConfig) (request : Bytes) (mailbox : List StoredMessage) :
    Except GetError PreparedGet :=
  match MessageGetRequest.decode library request with
  | .error error => .error (.request error)
  | .ok request =>
    if request.wants = none ∧ request.haves = none then
      if PropagationNode.listCeiling config = some 0 then .ok (.ready (PeerError.throttled.encode library) 0)
      else
        let available := listMailbox (PropagationNode.listCeiling config) mailbox
        .ok (.ready (encodeIds library (available.map Prod.fst)) available.length)
    else
      let settled := settleHaves (ownedOf (request.wants.getD [] ++ request.haves.getD []) mailbox)
        (request.haves.getD [])
      let serving := serve
        ⟨settled.1, .new (PropagationNode.transferLimit config request.transferLimitKb), [], 0, 0⟩
        (request.wants.getD [])
      .ok (.fetch {
        plan := {
          served := serving.served
          encodedLen := arrayHeaderLen serving.served.length + serving.payloadBytes
          servedBytes := serving.servedBytes }
        purged := settled.2 })

section Answer

variable {Store : Type} [PropagationStore Store] [LawfulStore Store]

theorem prepareGet_eq (library : Rmp) (node : PropagationNode Store) (request : Bytes) (remote : DestinationHash) (nowSecs : Nat)
    (sound : LawfulStore.Sound node.store) {entries : List StoredMessage}
    (listing : forEach node.store = .ok entries) :
    (node.prepareGet library request remote nowSecs).1 =
      answerGet library node.config request (PropagationNode.mailbox entries remote) := by
  unfold PropagationNode.prepareGet answerGet
  cases MessageGetRequest.decode library request with
  | error error => rfl
  | ok request =>
    dsimp only
    by_cases both : request.wants = none ∧ request.haves = none
    · rw [if_pos both, if_pos both]
      by_cases none : PropagationNode.listCeiling node.config = some 0
      · rw [if_pos none, if_pos none]
      · rw [if_neg none, if_neg none, listing]
    · rw [if_neg both, if_neg both, listing]
      obtain ⟨fine, owned, purged⟩ := confirmHaves_eq nowSecs (request.haves.getD [])
        ⟨node, ownedOf (request.wants.getD [] ++ request.haves.getD []) (PropagationNode.mailbox entries remote),
          []⟩ sound listing (fun id held => by
            obtain ⟨message, member, named⟩ := ownedOf_mem held
            exact ⟨message, (List.mem_filter.mp member).1, named⟩)
      dsimp only at fine owned purged ⊢
      rw [fine]
      dsimp only
      rw [owned, purged, List.nil_append]

end Answer

theorem answerGet_confined (library : Rmp) (config : PropagationNodeConfig) (request : Bytes)
    (entries : List StoredMessage) (remote : DestinationHash) :
    Confined library entries remote (answerGet library config request (PropagationNode.mailbox entries remote)) := by
  unfold answerGet
  cases MessageGetRequest.decode library request with
  | error error => exact trivial
  | ok request =>
    dsimp only
    split
    · split
      · exact .inl ⟨rfl, rfl⟩
      · refine .inr ⟨_, rfl, (List.length_map ..).symm, ?_⟩
        intro id member
        obtain ⟨entry, inside, rfl⟩ := List.mem_map.mp member
        exact owns_iff_mailbox.mpr (listMailbox_mem inside)
    · constructor
      · intro id member
        rcases serve_mem member with none | owned
        · cases none
        · exact owns_iff_mailbox.mpr (ownedOf_mem (settleHaves_mem.1 id owned))
      · intro id member
        exact owns_iff_mailbox.mpr (ownedOf_mem (settleHaves_mem.2 id member))

/-- What an answer reads of a mailbox: the ids and the sizes, in order. -/
def listedPairs (mailbox : List StoredMessage) : List (TransientId × Nat) :=
  mailbox.map (fun entry => (entry.transientId, entry.size))

theorem listMailbox_listedPairs (capacity : Option Nat) {mailbox mailbox' : List StoredMessage}
    (same : listedPairs mailbox = listedPairs mailbox') : listMailbox capacity mailbox = listMailbox capacity mailbox' := by
  cases capacity with
  | none => exact congrArg (List.insertionSort (fun entry other => entry.2 ≤ other.2)) same
  | some capacity =>
    -- The insertion is one over pairs, so that the walk is one over the listed pairs.
    let insert (available : List (TransientId × Nat)) (pair : TransientId × Nat) : List (TransientId × Nat) :=
      let position := (available.takeWhile (fun held => held.2 ≤ pair.2)).length
      if position = capacity then available
      else
        let kept := if available.length = capacity then available.dropLast else available
        kept.take position ++ pair :: kept.drop position
    have walk : ∀ box : List StoredMessage, listMailbox (some capacity) box = (listedPairs box).foldl insert [] := by
      intro box
      rw [listedPairs, List.foldl_map]
      rfl
    rw [walk, walk, same]

theorem ownedOf_listedPairs (requested : List TransientId) {mailbox mailbox' : List StoredMessage}
    (same : listedPairs mailbox = listedPairs mailbox') : ownedOf requested mailbox = ownedOf requested mailbox' := by
  have walk : ∀ (box : List StoredMessage) (owned : Owned),
      box.foldl (fun owned entry =>
        if entry.transientId ∈ owned then owned.insert entry.transientId entry.size else owned) owned =
      (listedPairs box).foldl (fun owned pair => if pair.1 ∈ owned then owned.insert pair.1 pair.2 else owned) owned := by
    intro box owned
    rw [listedPairs, List.foldl_map]
  unfold ownedOf
  simp only [walk, same]

theorem answerGet_listedPairs (library : Rmp) (config : PropagationNodeConfig) (request : Bytes)
    {mailbox mailbox' : List StoredMessage} (same : listedPairs mailbox = listedPairs mailbox') :
    answerGet library config request mailbox = answerGet library config request mailbox' := by
  unfold answerGet
  simp only [listMailbox_listedPairs _ same, ownedOf_listedPairs _ same]

/-- Two nodes of the same settings answer a client alike when their stores hold mail of the same ids and sizes in
the same order for it, and no answer names an id outside that mailbox. -/
theorem get_answers_isolated (library : Rmp) {First Second : Type} [PropagationStore First] [PropagationStore Second]
    [LawfulStore First] [LawfulStore Second] (node : PropagationNode First) (other : PropagationNode Second)
    (sound : LawfulStore.Sound node.store) (sound' : LawfulStore.Sound other.store)
    {entries entries' : List StoredMessage} (listing : forEach node.store = .ok entries)
    (listing' : forEach other.store = .ok entries') (settings : node.config = other.config)
    (remote : DestinationHash)
    (same : (PropagationNode.mailbox entries remote).map (fun entry => (entry.transientId, entry.size)) =
      (PropagationNode.mailbox entries' remote).map (fun entry => (entry.transientId, entry.size)))
    (request : Bytes) (nowSecs : Nat) :
    (node.prepareGet library request remote nowSecs).1 = (other.prepareGet library request remote nowSecs).1 ∧
      Confined library entries remote (node.prepareGet library request remote nowSecs).1 := by
  rw [prepareGet_eq library node request remote nowSecs sound listing,
    prepareGet_eq library other request remote nowSecs sound' listing', ← settings]
  exact ⟨answerGet_listedPairs library node.config request same,
    answerGet_confined library node.config request entries remote⟩

/-- A board with one message, for the destination of sevens. -/
def boardAlone : Store.PnStore :=
  ⟨[⟨some 1, [⟨⟨(FixedBytes.replicate 32 1), 0, 16, List.replicate 100 7⟩, true⟩], true⟩], []⟩

/-- The message behind one for another destination, stored before it. -/
def boardShared : Store.PnStore :=
  ⟨[⟨some 1, [⟨⟨(FixedBytes.replicate 32 2), 0, 16, List.replicate 60 9⟩, true⟩,
    ⟨⟨(FixedBytes.replicate 32 1), 0, 16, List.replicate 100 7⟩, true⟩], true⟩], []⟩

/-- Whatever the owner of the message asks, the two boards answer alike, though the message has another sequence
number on each. -/
theorem shared_board_answers_alike :
    PropagationNode.mailbox boardAlone.forEach ⟨List.replicate 16 7, rfl⟩ ≠
      PropagationNode.mailbox boardShared.forEach ⟨List.replicate 16 7, rfl⟩ ∧
    ∀ request : Bytes,
      ((⟨boardAlone, openConfig, ∅, false⟩ : PropagationNode Store.PnStore).prepareGet shortest request
          ⟨List.replicate 16 7, rfl⟩ 0).1 =
        ((⟨boardShared, openConfig, ∅, false⟩ : PropagationNode Store.PnStore).prepareGet shortest request
          ⟨List.replicate 16 7, rfl⟩ 0).1 := by
  refine ⟨by decide, ?_⟩
  intro request
  exact (get_answers_isolated shortest ⟨boardAlone, openConfig, ∅, false⟩ ⟨boardShared, openConfig, ∅, false⟩
    (by decide : Store.Fitting boardAlone.region) (by decide : Store.Fitting boardShared.region)
    rfl rfl rfl ⟨List.replicate 16 7, rfl⟩ (by decide) request 0).1

end Leviculum.Propagation
