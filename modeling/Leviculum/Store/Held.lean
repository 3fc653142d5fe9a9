import Leviculum.Store.Purged

/-! What the message store holds, and what one purge takes from it. -/

namespace Leviculum.Store.PnStore

open Propagation

theorem purge_cases (store : PnStore) (id : TransientId) :
    (∃ before op after entry, store.queue = before ++ op :: after ∧ op.entry = some entry ∧
      store.purge id = (true, { store with queue := before ++ after })) ∨
    (∃ record ∈ store.scanMessages, record.key = id ∧
      store.purge id = (true, { store with queue := store.queue ++ [.purge record.offset id] })) ∨
    ((∀ record ∈ store.scanMessages, record.key ≠ id) ∧ store.purge id = (false, store)) := by
  unfold purge
  cases queuedAt : store.queue.findIdx? (fun op => op.appends id) with
  | some index =>
    obtain ⟨before, op, after, entry, split, written, -, erased⟩ := dropped_append queuedAt
    refine .inl ⟨before, op, after, entry, split, written, ?_⟩
    dsimp only
    rw [erased]
  | none =>
    cases seen : store.scanMessages.find? (fun record => record.key == id) with
    | some record =>
      have same := List.find?_some seen
      exact .inr (.inl ⟨record, List.mem_of_find?_eq_some seen, beq_iff_eq.mp same, rfl⟩)
    | none =>
      rw [List.find?_eq_none] at seen
      exact .inr (.inr ⟨fun record member same => seen record member (beq_iff_eq.mpr same), rfl⟩)

theorem target_of_entry {op : FlushOp} {entry : Entry} (written : op.entry = some entry) : op.target = none := by
  cases op with
  | append entry => rfl
  | purge offset key => cases written
  | confirmedPurge offset key => cases written

theorem scanMessages_drop_append {store : PnStore} {before after : List FlushOp} {op : FlushOp} {entry : Entry}
    (split : store.queue = before ++ op :: after) (written : op.entry = some entry) :
    scanMessages { store with queue := before ++ after } = store.scanMessages := by
  have same : ∀ offset, isPurgeMasked { store with queue := before ++ after } offset =
      store.isPurgeMasked offset := by
    intro offset
    unfold isPurgeMasked
    rw [split, List.any_append, List.any_append, List.any_cons, target_of_entry written]
    rfl
  unfold scanMessages
  apply List.filter_congr
  intro record _
  rw [same]

theorem scanMessages_mask (store : PnStore) {op : FlushOp} {offset : Nat} {key : Key}
    (aimed : op.target = some (offset, key)) :
    scanMessages { store with queue := store.queue ++ [op] } =
      store.scanMessages.filter (fun record => !(offset == record.offset)) := by
  unfold scanMessages
  rw [List.filter_filter]
  apply List.filter_congr
  intro record _
  have masked : isPurgeMasked { store with queue := store.queue ++ [op] } record.offset =
      (store.isPurgeMasked record.offset || offset == record.offset) := by
    unfold isPurgeMasked
    rw [List.any_append, List.any_cons, aimed]
    exact congrArg _ (Bool.or_false _)
  rw [masked, Bool.not_or, ← Bool.and_assoc, Bool.and_comm]

theorem queued_mask (queue : List FlushOp) (offset : Nat) (key : Key) :
    queued (queue ++ [.purge offset key]) = queued queue := by
  rw [queued_append]
  exact List.append_nil _

/-- What the store holds: visible records, and appends that wait. -/
def held (store : PnStore) : Nat := store.scanMessages.length + (queued store.queue).length

theorem held_purge (store : PnStore) (id : TransientId) :
    held (store.purge id).2 ≤ store.held ∧
      ((store.purge id).1 = true → held (store.purge id).2 < store.held) := by
  unfold held
  rcases store.purge_cases id with ⟨before, op, after, entry, split, written, purged⟩ |
      ⟨record, member, -, purged⟩ | ⟨-, purged⟩
  · have fewer : (queued store.queue).length = (queued (before ++ after)).length + 1 := by
      rw [split, queued_append, queued_append, queued, queued, queued, List.filterMap_cons, written,
        List.length_append, List.length_append]
      exact (Nat.add_assoc _ _ _).symm
    rw [purged]
    dsimp only
    rw [scanMessages_drop_append split written]
    omega
  · have fewer : (store.scanMessages.filter (fun other => !(record.offset == other.offset))).length <
        store.scanMessages.length := by
      rw [List.length_filter_lt_length_iff_exists]
      refine ⟨record, member, ?_⟩
      rw [beq_self_eq_true]
      decide
    rw [purged]
    dsimp only
    rw [scanMessages_mask store rfl, queued_mask]
    omega
  · rw [purged]
    exact ⟨Nat.le_refl _, Bool.noConfusion⟩

theorem purge_listed {store : PnStore} {message : StoredMessage} (listed : message ∈ store.forEach) :
    (store.purge message.transientId).1 = true := by
  obtain ⟨record, inside, entry⟩ := List.mem_filterMap.mp listed
  rcases store.purge_cases message.transientId with ⟨_, _, _, _, -, -, purged⟩ | ⟨_, -, -, purged⟩ | ⟨unseen, -⟩
  · rw [purged]
  · rw [purged]
  · exact absurd (stored_transientId entry).symm (unseen record inside)

/-- Every record and every waiting append of a store is still in another. -/
def Kept (store after : PnStore) : Prop :=
  store.scanMessages.Sublist after.scanMessages ∧ (queued store.queue).Sublist (queued after.queue)

theorem Kept.held_le {store after : PnStore} (kept : store.Kept after) : store.held ≤ after.held :=
  Nat.add_le_add kept.1.length_le kept.2.length_le

theorem append_full_iff {store : PnStore} {id : TransientId} {receivedAt : Nat} {value : UInt8} {body : Bytes}
    (long : minBodyLen ≤ body.length) :
    store.append id receivedAt value body = .error .full ↔ maxBody < body.length := by
  unfold append
  rw [if_neg (Nat.not_lt.mpr long)]
  by_cases large : body.length > maxBody
  · rw [if_pos large]
    exact ⟨fun _ => large, fun _ => rfl⟩
  · rw [if_neg large]
    exact ⟨nofun, fun large' => absurd large' large⟩

end Leviculum.Store.PnStore
