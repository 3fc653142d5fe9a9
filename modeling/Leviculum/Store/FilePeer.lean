import Leviculum.Lib.OrdMap
import Leviculum.Store.FileRank
import Leviculum.Propagation.SyncCursor

/-! A peer's sync cursor beside a run of the store. The cursor is saved elsewhere and outlives the files it was
taken from, so what it hides depends on the sequences the store gives later. -/

namespace Leviculum.Store

open Leviculum.Propagation Leviculum.Execution

def FilePropagationStore.forEach (store : FilePropagationStore) : List StoredMessage :=
  (entries store.index).map IndexEntry.info

/-- An offer on its way: where the cursor goes when it concludes, and what it offered or skipped for good. -/
structure PeerOffer where
  target : Nat
  rows : Given

local instance lawfulTransientId : LawfulBEq TransientId := inferInstance

def offerRows (peer : Peer) (entries : List StoredMessage) (plan : OfferPlan) : Given :=
  (entries.filter fun entry => peer.above entry && (decide (entry.transientId ∈ plan.ids) || peer.skips entry)).map
    fun entry => (entry.sequence, entry.transientId)

/-- A store and one of its peers. -/
structure Sync where
  host : Host
  given : Given
  /-- The appends whose messages the store has held ever since. -/
  kept : Given
  cursor : Nat
  pending : Option PeerOffer
  /-- What the concluded offers offered or skipped. -/
  covered : Given

def Host.appends (h : Host) (e : Host.Event) : Given :=
  match e with
  | .append _ _ _ | .cut (.append _) _ _ => h.gives e
  | _ => []

/-- A message is still there: the store knows it, or its file is in the directory of a store that is not open. -/
def Host.holds (h : Host) (row : Nat × TransientId) : Bool :=
  match h.store with
  | some store => (store.previous row.2).isSome
  | none => h.folder.live.entries.any fun file =>
      scanned file && decide (file.1.id = row.2) && decide (file.1.sequence = row.1)

namespace Sync

inductive Event where
  | store (e : Host.Event)
  /-- `entries` is what the store lists, by sequence. -/
  | build (peer : Peer) (entries : List StoredMessage) (budget : Nat)
  | conclude
  | abandon
  /-- An older cursor is loaded again. -/
  | restore (cursor : Nat)

/-- The appends still held after an event: those it replaces are not, those it makes are. -/
def keptAfter (s : Sync) (e : Host.Event) (host : Host) : Given :=
  ((s.kept.filter fun row => decide (row.2 ∉ (s.host.gives e).map Prod.snd)) ++ s.host.appends e).filter host.holds

def step (s : Sync) : Event → Option Sync
  | .store e => (s.host.step e).map fun host =>
      { s with host := host, given := s.given ++ s.host.gives e, kept := s.keptAfter e host }
  | .build peer entries budget =>
    match s.host.store with
    | none => none
    | some store =>
      if peer.cursor = s.cursor ∧ entries.Perm store.forEach ∧
          entries.Pairwise (fun entry later => entry.sequence ≤ later.sequence) then
        some { s with pending := (buildOffer peer entries budget).map fun plan =>
          ⟨plan.cursorTarget, offerRows peer entries plan⟩ }
      else none
  | .conclude => s.pending.map fun offer =>
      { s with cursor := offer.target, pending := none, covered := s.covered ++ offer.rows }
  | .abandon => some { s with pending := none }
  | .restore cursor => if cursor ≤ s.cursor then some { s with cursor := cursor } else none

def start (files : Files FileName Bytes) : Sync := ⟨Host.start files, sequencesIn files, [], 0, none, []⟩

def sound (s : Sync) : Event → Bool
  | .store e => Host.sound (s.host, s.given) e
  | _ => true

end Sync

/-! ### An offer over a listing -/

section Offer

variable {peer : Peer} {entries : List StoredMessage} {budget : Nat} {plan : OfferPlan}

theorem offer_target (built : buildOffer peer entries budget = some plan) :
    plan.cursorTarget = peer.cursor ∨ ∃ entry ∈ entries, plan.cursorTarget = entry.sequence := by
  obtain ⟨taken, rest, rfl, -, target, -⟩ := buildOffer_eq_some built
  cases last : (taken.filter peer.above).getLast? with
  | none =>
    rw [last] at target
    exact .inl target
  | some entry =>
    rw [last] at target
    have member := List.mem_filter.mp (List.mem_of_getLast? last)
    exact .inr ⟨entry, List.mem_append_left _ member.1, target⟩

theorem offer_covers (built : buildOffer peer entries budget = some plan)
    (sorted : entries.Pairwise (fun entry later => entry.sequence ≤ later.sequence)) {entry : StoredMessage}
    (member : entry ∈ entries) (above : peer.cursor < entry.sequence) (below : entry.sequence ≤ plan.cursorTarget)
    (alone : ∀ other ∈ entries, other.sequence = entry.sequence → other = entry) :
    (entry.sequence, entry.transientId) ∈ offerRows peer entries plan := by
  obtain ⟨taken, rest, rfl, ids, target, -⟩ := buildOffer_eq_some built
  have isAbove : peer.above entry = true := decide_eq_true above
  have walked : entry ∈ taken := by
    rcases List.mem_append.mp member with here | later
    · exact here
    · cases last : (taken.filter peer.above).getLast? with
      | none =>
        rw [last, Option.elim_none] at target
        omega
      | some final =>
        rw [last] at target
        have inside := (List.mem_filter.mp (List.mem_of_getLast? last)).1
        have order := (List.pairwise_append.mp sorted).2.2 final inside entry later
        have reached : plan.cursorTarget = final.sequence := target
        have same : final.sequence = entry.sequence := by omega
        exact alone final (List.mem_append_left _ inside) same ▸ inside
  refine List.mem_map.mpr ⟨entry, List.mem_filter.mpr ⟨member, ?_⟩, rfl⟩
  rw [isAbove, Bool.true_and, Bool.or_eq_true, decide_eq_true_iff]
  cases skipped : peer.skips entry with
  | true => exact .inr rfl
  | false =>
    refine .inl ?_
    rw [ids]
    exact List.mem_map.mpr ⟨entry, List.mem_filter.mpr ⟨walked, by rw [Peer.offers, isAbove, skipped]; rfl⟩, rfl⟩

end Offer

/-! ### Opening again -/

theorem mem_numbersFrom {todo : List IndexEntry} {entry : IndexEntry} (member : entry ∈ todo) (last : Nat) :
    ∃ sequence, (sequence, entry.info.transientId) ∈ numbersFrom last todo := by
  induction todo generalizing last with
  | nil => cases member
  | cons first rest ih =>
    rcases List.mem_cons.mp member with rfl | later
    · exact ⟨_, List.mem_cons_self⟩
    · obtain ⟨sequence, inside⟩ := ih later (nextSequence last)
      exact ⟨sequence, List.mem_cons_of_mem _ inside⟩

section Open

variable {h : Host} {given : Given} {row : Nat × TransientId}

theorem sequenceOf_opened (now : Traced (h, given)) {capacity : Nat} {listing : List MessageFile}
    {renamed : TransientId → Bool} (listed : listing.Perm h.folder.live.entries) (found : finds given listing = true)
    (recent : newest listing = true) (latest : ∀ other ∈ given, other.2 = row.2 → other.1 ≤ row.1)
    {file : MessageFile} (there : file ∈ h.folder.live.entries) (scan : scanned file = true)
    (own : file.1.id = row.2) (same : file.1.sequence = row.1)
    (unnumbered_ : ∀ sequence, (sequence, row.2) ∉ numbersOf listing)
    (held : ((FilePropagationStore.openWith capacity listing h.folder.live renamed).1.previous row.2).isSome) :
    (FilePropagationStore.openWith capacity listing h.folder.live renamed).1.sequenceOf row.2 = some row.1 := by
  have known : StoreKnown (given ++ numbersOf listing)
      (FilePropagationStore.openWith capacity listing h.folder.live renamed).1 := (now.opened found listed).store _ rfl
  obtain ⟨entry, stored⟩ := Option.isSome_iff_exists.mp held
  rw [FilePropagationStore.previous, queued_direct rfl, AList.lookup_empty] at stored
  have inIndex : (FilePropagationStore.openWith capacity listing h.folder.live renamed).1.index.lookup row.2 =
    some entry := stored
  have named := (known.index row.2 entry inIndex).2
  obtain ⟨-, room⟩ := finds_spec found
  have scannedEntry : (indexOf (listing.filter scanned)).lookup row.2 = some entry := by
    rcases (number_foldl h.folder.live renamed _ room).2.1 row.2 entry inIndex with before | ⟨-, numbered⟩
    · exact before
    · exact absurd numbered (unnumbered_ _)
  have listedFile : file ∈ listing.filter scanned := List.mem_filter.mpr ⟨listed.mem_iff.mpr there, scan⟩
  have positive : entry.info.sequence ≠ 0 := by
    intro zero
    have todo : entry ∈ unnumbered (indexOf (listing.filter scanned)) := by
      unfold unnumbered
      rw [List.mem_insertionSort, List.mem_filter]
      exact ⟨mem_entries.mpr ⟨row.2, scannedEntry⟩, decide_eq_true zero⟩
    obtain ⟨sequence, inside⟩ := mem_numbersFrom todo (highestSequence (indexOf (listing.filter scanned)))
    rw [(known.index row.2 entry inIndex).1] at inside
    exact unnumbered_ sequence inside
  have notOlder : row.1 ≤ entry.info.sequence := by
    rw [newest, List.all_eq_true] at recent
    have compared := recent file listedFile
    rw [own, scannedEntry, Option.all_some, Bool.or_eq_true, decide_eq_true_iff, decide_eq_true_iff] at compared
    rw [← same]
    exact compared.resolve_left positive
  have notNewer : entry.info.sequence ≤ row.1 := by
    rcases named with zero | member
    · exact absurd zero positive
    · rcases List.mem_append.mp member with old | new
      · exact latest _ old rfl
      · exact absurd new (unnumbered_ _)
  rw [FilePropagationStore.sequenceOf, FilePropagationStore.previous, queued_direct rfl, AList.lookup_empty, inIndex]
  exact congrArg some (Nat.le_antisymm notNewer notOlder)

end Open

end Leviculum.Store
