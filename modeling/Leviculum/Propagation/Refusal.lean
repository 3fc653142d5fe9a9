import Leviculum.Propagation.Ingest
import Leviculum.Store.Held

/-! What an upload costs that the store refuses. Room is made before the append is tried again, and
the append may fail for a reason no room helps against. -/

namespace Leviculum.Propagation

open PropagationStore

section Role

variable {Store : Type} [PropagationStore Store]

inductive Refused (node : PropagationNode Store) (upload : Upload) (nowSecs : Nat) (value : UInt8) :
    Store → Prop where
  | atOnce {error : StorageError} (unfit : error ≠ .full)
      (failed : append node.store upload.transientId nowSecs value upload.body = .error error) :
      Refused node upload nowSecs value node.store
  | afterRoom {error : StorageError}
      (full : append node.store upload.transientId nowSecs value upload.body = .error .full)
      (failed : append (makeRoom node.store (spaceRequired node.store upload.body.length) nowSecs).2
        upload.transientId nowSecs value upload.body = .error error) :
      Refused node upload nowSecs value
        (makeRoom node.store (spaceRequired node.store upload.body.length) nowSecs).2

/-- The store fails an upload exactly when its stamp holds, it is new, and the appends fail. -/
theorem storeFailed_iff (node : PropagationNode Store) (upload : Upload) (nowSecs : Nat)
    (validate : TransientId → FixedBytes 32 → Option UInt16) (after : Store) :
    (∃ error, (node.ingestSplit upload nowSecs validate).1 = .storeFailed error ∧
      (node.ingestSplit upload nowSecs validate).2.store = after) ↔
    ∃ value, node.stampValue upload validate = some value ∧ node.isDuplicate upload.transientId = false ∧
      Refused node upload nowSecs value after := by
  unfold PropagationNode.ingestSplit
  cases stamped : node.stampValue upload validate with
  | none =>
    constructor
    · rintro ⟨error, failed, -⟩
      cases failed
    · rintro ⟨_, none, -⟩
      cases none
  | some value =>
    dsimp only
    cases duplicate : node.isDuplicate upload.transientId with
    | true =>
      constructor
      · rintro ⟨error, failed, -⟩
        cases failed
      · rintro ⟨_, -, new, -⟩
        cases new
    | false =>
      rw [if_neg (by decide)]
      cases first : append node.store upload.transientId nowSecs value upload.body with
      | ok store =>
        constructor
        · rintro ⟨error, failed, -⟩
          cases failed
        · rintro ⟨_, same, -, refused⟩
          obtain rfl := Option.some.inj same
          rcases refused with ⟨-, failed⟩ | ⟨failed, -⟩
          · rw [first] at failed
            cases failed
          · rw [first] at failed
            cases failed
      | error error =>
        by_cases full : error = .full
        · subst full
          dsimp only
          cases second : append (makeRoom node.store (spaceRequired node.store upload.body.length) nowSecs).2
              upload.transientId nowSecs value upload.body with
          | ok store =>
            constructor
            · rintro ⟨error, failed, -⟩
              cases failed
            · rintro ⟨_, same, -, refused⟩
              obtain rfl := Option.some.inj same
              rcases refused with ⟨unfit, failed⟩ | ⟨-, failed⟩
              · rw [first] at failed
                exact absurd (Except.error.inj failed).symm unfit
              · rw [second] at failed
                cases failed
          | error error' =>
            constructor
            · rintro ⟨_, -, rfl⟩
              exact ⟨value, rfl, rfl, .afterRoom first second⟩
            · rintro ⟨_, same, -, refused⟩
              obtain rfl := Option.some.inj same
              refine ⟨error', rfl, ?_⟩
              rcases refused with ⟨unfit, failed⟩ | ⟨-, -⟩
              · rw [first] at failed
                exact absurd (Except.error.inj failed).symm unfit
              · rfl
        · constructor
          · rintro ⟨error', failed, same⟩
            refine ⟨value, rfl, rfl, ?_⟩
            cases error with
            | full => exact absurd rfl full
            | notFound => exact same ▸ .atOnce full first
            | corrupt => exact same ▸ .atOnce full first
            | io => exact same ▸ .atOnce full first
          · rintro ⟨_, same, -, refused⟩
            obtain rfl := Option.some.inj same
            have unmoved : after = node.store := by
              rcases refused with ⟨-, -⟩ | ⟨failed, -⟩
              · rfl
              · rw [first] at failed
                exact absurd (Except.error.inj failed) full
            subst unmoved
            cases error with
            | full => exact absurd rfl full
            | notFound => exact ⟨_, rfl, rfl⟩
            | corrupt => exact ⟨_, rfl, rfl⟩
            | io => exact ⟨_, rfl, rfl⟩

theorem mem_cullOrder {entries : List StoredMessage} {nowSecs : Nat} {id : TransientId} :
    (∃ eviction ∈ cullOrder entries nowSecs, eviction.transientId = id) ↔
      ∃ entry ∈ entries, entry.transientId = id := by
  unfold cullOrder
  constructor
  · rintro ⟨eviction, member, rfl⟩
    obtain ⟨weighted, member', rfl⟩ := List.mem_map.mp member
    rw [List.mem_insertionSort, List.mem_map] at member'
    obtain ⟨entry, here, rfl⟩ := member'
    exact ⟨entry, here, rfl⟩
  · rintro ⟨entry, here, rfl⟩
    refine ⟨_, List.mem_map_of_mem (List.mem_insertionSort _ |>.mpr (List.mem_map_of_mem here)), rfl⟩

theorem cullOrder_eq_nil {entries : List StoredMessage} {nowSecs : Nat} :
    cullOrder entries nowSecs = [] ↔ entries = [] := by
  unfold cullOrder
  rw [List.map_eq_nil_iff, ← List.length_eq_zero_iff, List.length_insertionSort, List.length_map,
    List.length_eq_zero_iff]

/-- A count of what the store holds, which a purge lowers when it finds the message. -/
structure Shrinks (held : Store → Nat) : Prop where
  le : ∀ store id, held (purge store id).2 ≤ held store
  lt : ∀ store id, (purge store id).1 = .ok true → held (purge store id).2 < held store

theorem displace_le {held : Store → Nat} (shrinks : Shrinks held) (needed : Nat) (evictions : List Eviction)
    (store : Store) : held (displace needed store evictions).2 ≤ held store := by
  induction evictions generalizing store with
  | nil => exact Nat.le_refl _
  | cons eviction rest ih =>
    unfold displace
    split
    · exact Nat.le_refl _
    · have below := Nat.le_trans (ih (purge store eviction.transientId).2) (shrinks.le store eviction.transientId)
      dsimp only
      split
      · exact below
      · exact below

theorem displace_lt {held : Store → Nat} (shrinks : Shrinks held) {needed : Nat} {eviction : Eviction}
    {rest : List Eviction} {store : Store} (short : freeSpace store < needed)
    (found : (purge store eviction.transientId).1 = .ok true) :
    held (displace needed store (eviction :: rest)).2 < held store := by
  have below := Nat.lt_of_le_of_lt (displace_le shrinks needed rest (purge store eviction.transientId).2)
    (shrinks.lt store eviction.transientId found)
  unfold displace
  rw [if_neg (Nat.not_le.mpr short)]
  dsimp only
  rw [found]
  exact below

end Role

namespace MemoryPropagationStore

theorem mem_forEach {store : MemoryPropagationStore} {id : TransientId} :
    (∃ message ∈ store.forEach, message.transientId = id) ↔ id ∈ store.entries := by
  unfold forEach ascending
  rw [AList.mem_keys, AList.keys, List.mem_keys]
  constructor
  · rintro ⟨message, member, rfl⟩
    obtain ⟨entry, member', rfl⟩ := List.mem_map.mp member
    rw [List.mem_insertionSort] at member'
    exact ⟨entry.2, member'⟩
  · rintro ⟨entry, member⟩
    exact ⟨_, List.mem_map_of_mem ((List.mem_insertionSort _).mpr member), rfl⟩

theorem forEach_eq_nil {store : MemoryPropagationStore} :
    store.forEach = [] ↔ store.entries.entries = [] := by
  unfold forEach ascending
  rw [List.map_eq_nil_iff, ← List.length_eq_zero_iff, List.length_insertionSort, List.length_eq_zero_iff]

theorem shrinks : Shrinks (fun store : MemoryPropagationStore => store.entries.entries.length) where
  le store id := (List.kerase_sublist id store.entries.entries).length_le
  lt store id found := by
    have present : id ∈ store.entries := AList.lookup_isSome.mp (Except.ok.inj found)
    obtain ⟨entry, member⟩ := List.mem_keys.mp present
    have shorter : (store.entries.entries.kerase id).length = store.entries.entries.length - 1 :=
      List.length_eraseP_of_mem member (decide_eq_true rfl)
    change (store.entries.entries.kerase id).length < store.entries.entries.length
    rw [shorter]
    exact Nat.sub_lt (List.length_pos_of_mem member) Nat.one_pos

theorem displace_frees {needed : Nat} {evictions : List Eviction} {store : MemoryPropagationStore}
    (fits : needed ≤ store.capacity)
    (all : ∀ id ∈ store.entries, ∃ eviction ∈ evictions, eviction.transientId = id) :
    needed ≤ freeSpace (displace needed store evictions).2 := by
  induction evictions generalizing store with
  | nil =>
    have none : store.entries.entries = [] := by
      rw [List.eq_nil_iff_forall_not_mem]
      intro entry member
      obtain ⟨_, absent, -⟩ := all entry.1 (List.mem_keys_of_mem member)
      cases absent
    have empty : store.used = 0 := by
      rw [store.accounted, none]
      rfl
    change needed ≤ store.capacity - store.used
    rw [empty]
    exact fits
  | cons eviction rest ih =>
    unfold displace
    split
    next room => exact room
    next short =>
      have later : needed ≤ freeSpace (displace needed (store.purge eviction.transientId).2 rest).2 := by
        refine ih fits ?_
        intro id member
        obtain ⟨apart, held⟩ := AList.mem_erase.mp member
        obtain ⟨found, here, rfl⟩ := all id held
        rcases List.mem_cons.mp here with rfl | inRest
        · exact absurd rfl apart
        · exact ⟨found, inRest, rfl⟩
      dsimp only
      split
      · exact later
      · exact later

theorem displace_keeps (needed : Nat) (evictions : List Eviction) (store : MemoryPropagationStore) :
    (displace needed store evictions).2.capacity = store.capacity ∧
      ∀ id ∈ (displace needed store evictions).2.entries, id ∈ store.entries := by
  induction evictions generalizing store with
  | nil => exact ⟨rfl, fun _ member => member⟩
  | cons eviction rest ih =>
    unfold displace
    split
    · exact ⟨rfl, fun _ member => member⟩
    · obtain ⟨same, fewer⟩ := ih (store.purge eviction.transientId).2
      have kept : ∀ id ∈ (displace needed (store.purge eviction.transientId).2 rest).2.entries,
          id ∈ store.entries := fun id member => (AList.mem_erase.mp (fewer id member)).2
      dsimp only
      split
      · exact ⟨same, kept⟩
      · exact ⟨same, kept⟩

theorem append_of_absent {store : MemoryPropagationStore} {id : TransientId} (absent : id ∉ store.entries)
    (receivedAt : Nat) (value : UInt8) {body : Bytes} (long : minBodyLen ≤ body.length) :
    (body.length ≤ store.freeSpace → ∃ after, store.append id receivedAt value body = .ok after) ∧
    (store.freeSpace < body.length → store.append id receivedAt value body = .error .full) := by
  have none : store.replaced id = 0 := by
    rw [replaced, AList.lookup_eq_none.mpr absent]
    rfl
  have bounded := store.bounded
  unfold append freeSpace
  rw [dif_pos long]
  constructor
  · intro room
    rw [dif_pos (by omega)]
    exact ⟨_, rfl⟩
  · intro short
    rw [dif_neg (by omega)]

end MemoryPropagationStore

theorem refusal_iff {Store : Type} [PropagationStore Store] (node : PropagationNode Store) (upload : Upload)
    (nowSecs : Nat) (validate : TransientId → FixedBytes 32 → Option UInt16) (kept : Store → Prop) :
    (∀ error, (node.ingestSplit upload nowSecs validate).1 = .storeFailed error →
      kept (node.ingestSplit upload nowSecs validate).2.store) ↔
    (node.stampValue upload validate = none ∨ node.isDuplicate upload.transientId = true ∨
      ∀ value after, node.isDuplicate upload.transientId = false → Refused node upload nowSecs value after →
        node.stampValue upload validate = some value → kept after) := by
  constructor
  · intro spares
    right
    right
    intro value after new refused stamped
    obtain ⟨error, failed, rfl⟩ :=
      (storeFailed_iff node upload nowSecs validate after).mpr ⟨value, stamped, new, refused⟩
    exact spares error failed
  · intro condition error failed
    obtain ⟨value, stamped, new, refused⟩ :=
      (storeFailed_iff node upload nowSecs validate _).mp ⟨error, failed, rfl⟩
    rcases condition with none | duplicate | spares
    · rw [stamped] at none
      cases none
    · rw [new] at duplicate
      cases duplicate
    · exact spares value _ new refused stamped

/-- In memory: a refused upload removes nothing unless it is larger than the whole store. -/
theorem memory_refusal_iff (node : PropagationNode MemoryPropagationStore) (upload : Upload) (nowSecs : Nat)
    (validate : TransientId → FixedBytes 32 → Option UInt16) :
    (∀ error, (node.ingestSplit upload nowSecs validate).1 = .storeFailed error →
      ∀ entry ∈ node.store.entries.entries,
        entry ∈ (node.ingestSplit upload nowSecs validate).2.store.entries.entries) ↔
    (node.stampValue upload validate = none ∨ node.isDuplicate upload.transientId = true ∨
      upload.body.length ≤ node.store.capacity ∨ node.store.entries.entries = []) := by
  have absent : node.isDuplicate upload.transientId = false → upload.transientId ∉ node.store.entries := by
    intro new held
    rw [PropagationNode.isDuplicate, Bool.or_eq_false_iff] at new
    have missing : (node.store.entries.lookup upload.transientId).isSome = false := new.2
    rw [AList.lookup_isSome.mpr held] at missing
    cases missing
  have room_absent : ∀ evictions, upload.transientId ∉ node.store.entries →
      upload.transientId ∉ (displace upload.body.length node.store evictions).2.entries :=
    fun evictions missing member =>
      missing ((MemoryPropagationStore.displace_keeps upload.body.length evictions node.store).2 _ member)
  have bounded := node.store.bounded
  rw [refusal_iff node upload nowSecs validate
    (fun after => ∀ entry ∈ node.store.entries.entries, entry ∈ after.entries.entries)]
  constructor
  · rintro (none | duplicate | spares)
    · exact .inl none
    · exact .inr (.inl duplicate)
    by_contra fails
    rw [not_or, not_or, not_or, Nat.not_le, Bool.not_eq_true] at fails
    obtain ⟨stamped, new, large, some⟩ := fails
    obtain ⟨value, stamped'⟩ := Option.ne_none_iff_exists'.mp stamped
    have missing := absent new
    obtain ⟨eviction, rest, order⟩ : ∃ eviction rest, cullOrder node.store.forEach nowSecs = eviction :: rest :=
      List.exists_cons_of_ne_nil (fun none => some
        (MemoryPropagationStore.forEach_eq_nil.mp (cullOrder_eq_nil.mp none)))
    have found : (purge node.store eviction.transientId).1 = .ok true := by
      have listed := mem_cullOrder.mp ⟨eviction, order ▸ List.mem_cons_self, rfl⟩
      exact congrArg Except.ok (AList.lookup_isSome.mpr (MemoryPropagationStore.mem_forEach.mp listed))
    have short : node.store.freeSpace < upload.body.length := by
      unfold MemoryPropagationStore.freeSpace
      omega
    have full := (MemoryPropagationStore.append_of_absent missing nowSecs value upload.minBodyLen_le).2 short
    have later : append (makeRoom node.store upload.body.length nowSecs).2 upload.transientId nowSecs value
        upload.body = .error .full := by
      have keeps := MemoryPropagationStore.displace_keeps upload.body.length
        (cullOrder node.store.forEach nowSecs) node.store
      refine (MemoryPropagationStore.append_of_absent (room_absent _ missing) nowSecs value
        upload.minBodyLen_le).2 ?_
      unfold MemoryPropagationStore.freeSpace
      rw [keeps.1]
      omega
    have subset := spares value _ new (.afterRoom full later) stamped'
    have nodup : node.store.entries.entries.Nodup := node.store.entries.nodupKeys.nodup
    have longer := (List.subperm_of_subset nodup subset).length_le
    have shorter : (displace upload.body.length node.store (eviction :: rest)).2.entries.entries.length <
        node.store.entries.entries.length := displace_lt MemoryPropagationStore.shrinks short found
    rw [← order] at shorter
    exact absurd longer (Nat.not_le.mpr shorter)
  · rintro (none | duplicate | small | none)
    · exact .inl none
    · exact .inr (.inl duplicate)
    · right
      right
      intro value after new refused _
      rcases refused with ⟨-, -⟩ | ⟨-, failed⟩
      · exact fun entry member => member
      · have free : upload.body.length ≤ MemoryPropagationStore.freeSpace
            (displace upload.body.length node.store (cullOrder node.store.forEach nowSecs)).2 :=
          MemoryPropagationStore.displace_frees small
            (fun id held => mem_cullOrder.mpr (MemoryPropagationStore.mem_forEach.mpr held))
        obtain ⟨stored, fits⟩ := (MemoryPropagationStore.append_of_absent
          (room_absent (cullOrder node.store.forEach nowSecs) (absent new)) nowSecs value
            upload.minBodyLen_le).1 free
        have contradiction : Except.ok stored = Except.error _ := fits.symm.trans failed
        cases contradiction
    · right
      right
      intro value after new refused _ entry member
      rw [none] at member
      cases member

/-- On the board: a refused upload removes nothing unless it exceeds the largest body and the free
space, and there is a message to evict. -/
theorem board_refusal_iff (node : PropagationNode Store.PnStore) (upload : Upload) (nowSecs : Nat)
    (validate : TransientId → FixedBytes 32 → Option UInt16) :
    (∀ error, (node.ingestSplit upload nowSecs validate).1 = .storeFailed error →
      node.store.Kept (node.ingestSplit upload nowSecs validate).2.store) ↔
    (node.stampValue upload validate = none ∨ node.isDuplicate upload.transientId = true ∨
      upload.body.length ≤ Store.maxBody ∨ upload.body.length ≤ node.store.freeSpace ∨
      node.store.forEach = []) := by
  have kept_self : node.store.Kept node.store := ⟨List.Sublist.refl _, List.Sublist.refl _⟩
  have shrinks : Shrinks Store.PnStore.held :=
    ⟨fun store id => (store.held_purge id).1, fun store id found => (store.held_purge id).2 (Except.ok.inj found)⟩
  rw [refusal_iff node upload nowSecs validate (fun after => node.store.Kept after)]
  constructor
  · rintro (none | duplicate | spares)
    · exact .inl none
    · exact .inr (.inl duplicate)
    by_contra fails
    rw [not_or, not_or, not_or, not_or, Nat.not_le, Nat.not_le, Bool.not_eq_true] at fails
    obtain ⟨stamped, new, large, short, some⟩ := fails
    obtain ⟨value, stamped'⟩ := Option.ne_none_iff_exists'.mp stamped
    obtain ⟨eviction, rest, order⟩ : ∃ eviction rest, cullOrder node.store.forEach nowSecs = eviction :: rest :=
      List.exists_cons_of_ne_nil (fun none => some (cullOrder_eq_nil.mp none))
    have found : (purge node.store eviction.transientId).1 = .ok true := by
      obtain ⟨message, listed, same⟩ := mem_cullOrder.mp ⟨eviction, order ▸ List.mem_cons_self, rfl⟩
      rw [← same]
      exact congrArg Except.ok (Store.PnStore.purge_listed listed)
    have full : ∀ store : Store.PnStore, append store upload.transientId nowSecs value upload.body =
        .error .full := fun store => (Store.PnStore.append_full_iff upload.minBodyLen_le).mpr large
    have kept := spares value _ new (.afterRoom (full _) (full _)) stamped'
    have shorter : (displace upload.body.length node.store (eviction :: rest)).2.held < node.store.held :=
      displace_lt shrinks short found
    rw [← order] at shorter
    exact absurd kept.held_le (Nat.not_le.mpr shorter)
  · rintro (none | duplicate | small | roomy | none)
    · exact .inl none
    · exact .inr (.inl duplicate)
    all_goals
      right
      right
      intro value after new refused _
      rcases refused with ⟨-, -⟩ | ⟨full, -⟩
      · exact kept_self
    · exact absurd small (Nat.not_le.mpr ((Store.PnStore.append_full_iff upload.minBodyLen_le).mp full))
    · have unmoved : (makeRoom node.store (spaceRequired node.store upload.body.length) nowSecs).2 =
          node.store := by
        change (displace upload.body.length node.store (cullOrder node.store.forEach nowSecs)).2 = node.store
        cases cullOrder node.store.forEach nowSecs with
        | nil => rfl
        | cons eviction rest =>
          unfold displace
          exact congrArg Prod.snd (if_pos roomy)
      rw [unmoved]
      exact kept_self
    · have unmoved : (makeRoom node.store (spaceRequired node.store upload.body.length) nowSecs).2 =
          node.store := by
        change (displace upload.body.length node.store (cullOrder node.store.forEach nowSecs)).2 = node.store
        rw [cullOrder_eq_nil.mpr none]
        rfl
      rw [unmoved]
      exact kept_self

/-- When a refused upload costs nothing, in memory and on the board. -/
theorem refused_upload_costs_nothing_iff (upload : Upload) (nowSecs : Nat)
    (validate : TransientId → FixedBytes 32 → Option UInt16) :
    (∀ node : PropagationNode MemoryPropagationStore,
      (∀ error, (node.ingestSplit upload nowSecs validate).1 = .storeFailed error →
        ∀ entry ∈ node.store.entries.entries,
          entry ∈ (node.ingestSplit upload nowSecs validate).2.store.entries.entries) ↔
      (node.stampValue upload validate = none ∨ node.isDuplicate upload.transientId = true ∨
        upload.body.length ≤ node.store.capacity ∨ node.store.entries.entries = [])) ∧
    ∀ node : PropagationNode Store.PnStore,
      (∀ error, (node.ingestSplit upload nowSecs validate).1 = .storeFailed error →
        node.store.Kept (node.ingestSplit upload nowSecs validate).2.store) ↔
      (node.stampValue upload validate = none ∨ node.isDuplicate upload.transientId = true ∨
        upload.body.length ≤ Store.maxBody ∨ upload.body.length ≤ node.store.freeSpace ∨
        node.store.forEach = []) :=
  ⟨fun node => memory_refusal_iff node upload nowSecs validate,
    fun node => board_refusal_iff node upload nowSecs validate⟩

def openConfig : PropagationNodeConfig := ⟨0, 0, false, none, none⟩

def smallEntry : MemoryEntry := ⟨0, 0, 1, List.replicate 100 7, by decide⟩

/-- A store of 120 bytes with one message of 100. -/
def smallStore : MemoryPropagationStore :=
  ⟨AList.singleton (FixedBytes.replicate 32 1) smallEntry, 120, 100, 1, rfl, by decide⟩

def smallNode : PropagationNode MemoryPropagationStore := ⟨smallStore, openConfig, ∅, false⟩

def largeUpload : Upload := ⟨List.replicate 113 5, (FixedBytes.replicate 32 0), (FixedBytes.replicate 32 2), by decide⟩

/-- It is refused, and the message that was stored is gone. -/
theorem refused_upload_evicts :
    (smallNode.ingestSplit largeUpload 0 (fun _ _ => none)).1 = .storeFailed .full ∧
      (⟨⟨List.replicate 32 1, rfl⟩, smallEntry⟩ : Sigma _) ∈ smallNode.store.entries.entries ∧
      (smallNode.ingestSplit largeUpload 0 (fun _ _ => none)).2.store.entries.entries = [] := by
  exact ⟨by decide +kernel, List.mem_cons_self, by decide +kernel⟩

end Leviculum.Propagation
