import Leviculum.Store.FileQueue
import Leviculum.Store.FileTrace

/-! The sequence a stored message has. Only an append or a numbering changes it, and what waits for the writer
is behind everything that is listed. -/

namespace Leviculum.Store

open Leviculum.Propagation

namespace FilePropagationStore

/-- The sequence of a message, written or waiting for its write. -/
def sequenceOf (store : FilePropagationStore) (id : TransientId) : Option Nat :=
  (store.previous id).map fun entry => entry.info.sequence

/-- What is queued is not listed, is behind everything that is, and is written in the order of its sequences. -/
structure Ranked (store : FilePropagationStore) : Prop where
  apart : ∀ id q, store.queued.lookup id = some q → store.index.lookup id = none
  behind : ∀ id entry other q, store.index.lookup id = some entry → store.queued.lookup other = some q →
    entry.info.sequence < q.entry.info.sequence
  inOrder : ∀ id p other q, store.queued.lookup id = some p → store.queued.lookup other = some q →
    p.ticket < q.ticket → p.entry.info.sequence < q.entry.info.sequence

/-- Nothing changed for a message, or it is gone. -/
def Keeps (store store' : FilePropagationStore) : Prop :=
  ∀ id, store'.sequenceOf id = none ∨ store'.sequenceOf id = store.sequenceOf id

theorem Keeps.refl (store : FilePropagationStore) : store.Keeps store := fun _ => .inr rfl

theorem Keeps.trans {store store' store'' : FilePropagationStore} (first : store.Keeps store')
    (second : store'.Keeps store'') : store.Keeps store'' := by
  intro id
  rcases second id with gone | same
  · exact .inl gone
  · rw [same]
    exact first id

theorem sequenceOf_queued {store : FilePropagationStore} {id : TransientId} {q : Queued}
    (found : store.queued.lookup id = some q) : store.sequenceOf id = some q.entry.info.sequence := by
  rw [sequenceOf, previous, found]
  rfl

theorem sequenceOf_unqueued {store : FilePropagationStore} {id : TransientId}
    (absent : store.queued.lookup id = none) :
    store.sequenceOf id = (store.index.lookup id).map fun entry => entry.info.sequence := by
  rw [sequenceOf, previous, absent]
  rfl

theorem sequenceOf_congr {store store' : FilePropagationStore} {id : TransientId}
    (queued : store'.queued.lookup id = store.queued.lookup id)
    (index : store'.index.lookup id = store.index.lookup id) : store'.sequenceOf id = store.sequenceOf id := by
  rw [sequenceOf, sequenceOf, previous, previous, queued, index]

theorem Ranked.direct {store : FilePropagationStore} (none_ : store.writer = none) : store.Ranked := by
  have empty : ∀ id q, store.queued.lookup id ≠ some q := by
    intro id q found
    rw [queued_direct none_, AList.lookup_empty] at found
    cases found
  exact ⟨fun id q found => absurd found (empty id q), fun _ _ other q _ found => absurd found (empty other q),
    fun id p _ _ found => absurd found (empty id p)⟩

theorem Ranked.congr {store store' : FilePropagationStore} (ranked : store.Ranked) (queued : store'.queued = store.queued)
    (index : store'.index = store.index) : store'.Ranked := by
  obtain ⟨apart, behind, inOrder⟩ := ranked
  exact ⟨by rwa [queued, index], by rwa [queued, index], by rwa [queued]⟩

theorem Keeps.congr {store store' : FilePropagationStore} (queued : store'.queued = store.queued)
    (index : store'.index = store.index) : store.Keeps store' :=
  fun _ => .inr (sequenceOf_congr (by rw [queued]) (by rw [index]))

theorem Ranked.dequeued {store store' : FilePropagationStore} (ranked : store.Ranked) (id : TransientId)
    (queued : store'.queued = store.queued.erase id) (index : store'.index = store.index) : store'.Ranked := by
  refine ⟨?_, ?_, ?_⟩
  · intro other q found
    rw [queued] at found
    rw [index]
    exact ranked.apart other q (lookup_of_lookup_erase found).2
  · intro other entry another q listed found
    rw [queued] at found
    rw [index] at listed
    exact ranked.behind other entry another q listed (lookup_of_lookup_erase found).2
  · intro other p another q found found'
    rw [queued] at found found'
    exact ranked.inOrder other p another q (lookup_of_lookup_erase found).2 (lookup_of_lookup_erase found').2

theorem Ranked.keeps_dequeued {store store' : FilePropagationStore} (ranked : store.Ranked) {id : TransientId} {q : Queued}
    (found : store.queued.lookup id = some q) (queued : store'.queued = store.queued.erase id)
    (index : store'.index = store.index) : store.Keeps store' := by
  intro other
  by_cases same : other = id
  · subst same
    refine .inl ?_
    rw [sequenceOf_unqueued (by rw [queued, AList.lookup_erase]), index, ranked.apart other q found]
    rfl
  · refine .inr (sequenceOf_congr ?_ (by rw [index]))
    rw [queued, AList.lookup_erase_ne same]

end FilePropagationStore

open FilePropagationStore

section Settle

variable {folder : MessageFolder} {jobs : List Job} {store : FilePropagationStore} {answer : Nat × Bool}
  {rest : List (Nat × Bool)}

theorem Ordered.answered_first (ordered : Ordered ⟨folder, some store, jobs, answer :: rest⟩) {writer : Writer}
    (was : store.writer = some writer) {id other : TransientId} {q p : Queued} (found : writer.queued.lookup id = some q)
    (ticket : q.ticket = answer.1) (other_ : writer.queued.lookup other = some p) (apart : other ≠ id) :
    q.ticket < p.ticket := by
  have expects := ordered.expects store writer rfl was
  have waits := (expects.owned other p other_).2
  have different := expects.ticket_ne found other_ apart
  rw [ticket]
  rcases waits with member | ⟨-, later⟩
  · rcases List.mem_cons.mp member with first | behind
    · exact absurd (first.trans ticket.symm) different
    · exact (List.pairwise_cons.mp ordered.ascending).1 _ behind
  · exact later answer.1 List.mem_cons_self

theorem FilePropagationStore.Ranked.settle (ranked : store.Ranked)
    (ordered : Ordered ⟨folder, some store, jobs, answer :: rest⟩) :
    (store.settle answer).Ranked ∧ store.Keeps (store.settle answer) := by
  cases settle_settled store answer with
  | direct none_ same =>
    rw [same]
    exact ⟨ranked, .refl store⟩
  | stale writer writer' was shape queued =>
    have same : (store.settle answer).queued = store.queued := by
      rw [shape, queued_of_writer rfl, queued_of_writer was, queued]
    have index : (store.settle answer).index = store.index := by rw [shape]
    exact ⟨ranked.congr same index, .congr same index⟩
  | confirmed writer writer' id q was good found ticket shape queued =>
    have same : (store.settle answer).queued = store.queued.erase id := by
      rw [shape, queued_of_writer rfl, queued_of_writer was, queued]
    have index : (store.settle answer).index = store.index.insert id q.entry := by rw [shape]
    rw [← queued_of_writer was] at found
    have first : ∀ other p, store.queued.lookup other = some p → other ≠ id →
        q.entry.info.sequence < p.entry.info.sequence := by
      intro other p here apart
      refine ranked.inOrder id q other p found here ?_
      rw [queued_of_writer was] at found here
      exact ordered.answered_first was found ticket here apart
    refine ⟨⟨?_, ?_, ?_⟩, ?_⟩
    · intro other p here
      rw [same] at here
      obtain ⟨ne, before⟩ := lookup_of_lookup_erase here
      rw [index, AList.lookup_insert_ne ne]
      exact ranked.apart other p before
    · intro other entry another p listed here
      rw [same] at here
      rw [index] at listed
      obtain ⟨ne, before⟩ := lookup_of_lookup_erase here
      rcases lookup_insert_cases listed with ⟨rfl, rfl⟩ | ⟨-, old⟩
      · exact first another p before ne
      · exact ranked.behind other entry another p old before
    · intro other p another r here here'
      rw [same] at here here'
      exact ranked.inOrder other p another r (lookup_of_lookup_erase here).2 (lookup_of_lookup_erase here').2
    · intro other
      by_cases own : other = id
      · subst own
        refine .inr ?_
        rw [sequenceOf_unqueued (by rw [same, AList.lookup_erase]), index, AList.lookup_insert, sequenceOf_queued found]
        rfl
      · refine .inr (sequenceOf_congr ?_ ?_)
        · rw [same, AList.lookup_erase_ne own]
        · rw [index, AList.lookup_insert_ne own]
  | refused writer writer' id q was bad found ticket shape queued =>
    have same : (store.settle answer).queued = store.queued.erase id := by
      rw [shape, queued_of_writer rfl, queued_of_writer was, queued]
    have index : (store.settle answer).index = store.index := by rw [shape]
    rw [← queued_of_writer was] at found
    exact ⟨ranked.dequeued id same index, ranked.keeps_dequeued found same index⟩

theorem FilePropagationStore.Ranked.collected {h : Host} (ranked : store.Ranked) (ordered : Ordered h)
    (was : h.store = some store) : (h.collected store).Ranked ∧ store.Keeps (h.collected store) := by
  have both : Ordered ⟨h.folder, some (h.collected store), h.jobs, []⟩ ∧ (h.collected store).Ranked ∧
      store.Keeps (h.collected store) := by
    refine collect_steps (P := fun later done => Ordered ⟨h.folder, some later, h.jobs, done⟩ ∧ later.Ranked ∧
      store.Keeps later) ?_ ?_ ?_ ?_
    · rw [← was]
      exact ⟨ordered, ranked, .refl store⟩
    · rintro later answer rest ⟨ordered, ranked, keeps⟩
      obtain ⟨ranked', keeps'⟩ := ranked.settle ordered
      exact ⟨ordered.settle, ranked', keeps.trans keeps'⟩
    · rintro later writer ⟨ordered, ranked, keeps⟩ had dead
      exact ⟨ordered.lost had dead, ranked, keeps⟩
    · rintro later through ⟨ordered, ranked, keeps⟩
      have queued := queued_closeThrough later through
      exact ⟨ordered.closeThrough through, ranked.congr queued rfl, keeps.trans (.congr queued rfl)⟩
  exact both.2

end Settle

/-! ### Every event -/

section Step

variable {h h' : Host} {given : Given}

/-- A message has the sequence it was given just now; any other is as it was, or gone. -/
structure Follows (store store' : FilePropagationStore) (given : Given) : Prop where
  fresh : ∀ sequence id, (sequence, id) ∈ given → store'.sequenceOf id = some sequence
  kept : ∀ id, (∀ sequence, (sequence, id) ∉ given) →
    store'.sequenceOf id = none ∨ store'.sequenceOf id = store.sequenceOf id

theorem StoreKnown.sequence_lt {store : FilePropagationStore} (known : StoreKnown given store) {id : TransientId}
    {entry : IndexEntry} {bound : Nat} (positive : 0 < bound) (above : ∀ row ∈ given, row.1 < bound)
    (found : store.index.lookup id = some entry ∨ ∃ q, store.queued.lookup id = some q ∧ q.entry = entry) :
    entry.info.sequence < bound := by
  have named : Known given entry.info.sequence id := by
    rcases found with listed | ⟨q, here, rfl⟩
    · exact (known.index id entry listed).2
    · exact (known.queued id q here).2
  rcases named with zero | member
  · rw [zero]
    exact positive
  · exact above _ member

theorem follows_single {store store' : FilePropagationStore} {sequence : Nat} {id : TransientId}
    (fresh : store'.sequenceOf id = some sequence)
    (others : ∀ other, other ≠ id → store'.sequenceOf other = store.sequenceOf other) :
    Follows store store' [(sequence, id)] := by
  refine ⟨?_, ?_⟩
  · intro _ _ member
    cases List.mem_singleton.mp member
    exact fresh
  · intro other absent
    refine .inr (others other ?_)
    rintro rfl
    exact absent sequence List.mem_cons_self

theorem ranked_enqueue {store : FilePropagationStore} {writer : Writer} (ranked : store.Ranked)
    (known : StoreKnown given store) (was : store.writer = some writer) {folder : MessageFolder} {jobs : List Job}
    (ordered : Ordered ⟨folder, some store, jobs, []⟩) (a : Append) (positive : 0 < (store.pathOf a).sequence)
    (above : ∀ row ∈ given, row.1 < (store.pathOf a).sequence) :
    (store.enqueue writer a).1.Ranked ∧ Follows store (store.enqueue writer a).1 [((store.pathOf a).sequence, a.id)] := by
  have queued : (store.enqueue writer a).1.queued =
      store.queued.insert a.id ⟨writer.issued + 1, entryOf (store.pathOf a) a.body, a.body⟩ := by
    rw [queued_of_writer was]
    rfl
  have index : (store.enqueue writer a).1.index = store.index.erase a.id := rfl
  have expects := ordered.expects store writer rfl was
  refine ⟨⟨?_, ?_, ?_⟩, ?_⟩
  · intro id q found
    rw [queued] at found
    rw [index]
    rcases lookup_insert_cases found with ⟨rfl, -⟩ | ⟨ne, before⟩
    · exact AList.lookup_erase _ _
    · rw [AList.lookup_erase_ne ne]
      exact ranked.apart id q before
  · intro id entry other q listed found
    rw [queued] at found
    rw [index] at listed
    obtain ⟨-, old⟩ := lookup_of_lookup_erase listed
    rcases lookup_insert_cases found with ⟨-, rfl⟩ | ⟨-, before⟩
    · exact known.sequence_lt positive above (.inl old)
    · exact ranked.behind id entry other q old before
  · intro id p other q found found' order
    rw [queued] at found found'
    rcases lookup_insert_cases found with ⟨-, rfl⟩ | ⟨-, before⟩
    · rcases lookup_insert_cases found' with ⟨-, rfl⟩ | ⟨-, before'⟩
      · exact absurd order (Nat.lt_irrefl _)
      · rw [queued_of_writer was] at before'
        have owned := expects.known _ _ (expects.owned other q before').1
        exact absurd order (Nat.not_lt.mpr (Nat.le_succ_of_le owned))
    · rcases lookup_insert_cases found' with ⟨-, rfl⟩ | ⟨-, before'⟩
      · exact known.sequence_lt positive above (.inr ⟨p, before, rfl⟩)
      · exact ranked.inOrder id p other q before before' order
  · refine follows_single (sequenceOf_queued (by rw [queued, AList.lookup_insert])) ?_
    intro id own
    apply sequenceOf_congr
    · rw [queued, AList.lookup_insert_ne own]
    · rw [index, AList.lookup_erase_ne own]

theorem follows_appended (store : FilePropagationStore) (a : Append) (direct : store.writer = none) :
    Follows store (store.appended a) [((store.pathOf a).sequence, a.id)] := by
  have queued : (store.appended a).queued = store.queued := rfl
  have index : (store.appended a).index = store.index.insert a.id (entryOf (store.pathOf a) a.body) := rfl
  refine follows_single ?_ ?_
  · rw [sequenceOf_unqueued (by rw [queued, queued_direct direct, AList.lookup_empty]), index, AList.lookup_insert]
    rfl
  · intro id own
    apply sequenceOf_congr
    · rw [queued]
    · rw [index, AList.lookup_insert_ne own]

theorem FilePropagationStore.Ranked.forgotten {store store' : FilePropagationStore} (ranked : store.Ranked)
    {id : TransientId} {path : FileName} (forgot : Forgotten store id path store') :
    store'.Ranked ∧ store.Keeps store' := by
  cases forgot with
  | queued writer q was found =>
    rw [← queued_of_writer was] at found
    have queued : store.queued.erase id = writer.queued.erase id := by rw [queued_of_writer was]
    exact ⟨ranked.dequeued id queued.symm rfl, ranked.keeps_dequeued found queued.symm rfl⟩
  | indexed entry absent found =>
    refine ⟨⟨?_, ?_, ranked.inOrder⟩, ?_⟩
    · intro other q here
      by_cases own : other = id
      · subst own
        exact AList.lookup_erase _ _
      · exact (AList.lookup_erase_ne own).trans (ranked.apart other q here)
    · intro other entry' another q listed here
      exact ranked.behind other entry' another q (lookup_of_lookup_erase listed).2 here
    · intro other
      by_cases own : other = id
      · subst own
        refine .inl (Eq.trans (sequenceOf_unqueued absent) ?_)
        exact congrArg _ (AList.lookup_erase _ _)
      · exact .inr (sequenceOf_congr rfl (AList.lookup_erase_ne own))

theorem FilePropagationStore.Ranked.repriced {store : FilePropagationStore} (ranked : store.Ranked) {id : TransientId}
    {entry : IndexEntry} (found : store.index.lookup id = some entry) (named : entry.info.transientId = id)
    (value : UInt8) : (store.repriced entry value).Ranked ∧ store.Keeps (store.repriced entry value) := by
  subst named
  have index : (store.repriced entry value).index = store.index.insert entry.info.transientId
      { info := { entry.info with stampValue := value }, path := repricedPath entry value } := rfl
  have unqueued : store.queued.lookup entry.info.transientId = none := by
    cases waiting : store.queued.lookup entry.info.transientId with
    | none => rfl
    | some q =>
      rw [ranked.apart _ q waiting] at found
      cases found
  refine ⟨⟨?_, ?_, ranked.inOrder⟩, ?_⟩
  · intro other q here
    have ne : other ≠ entry.info.transientId := by
      rintro rfl
      cases unqueued.symm.trans here
    rw [index, AList.lookup_insert_ne ne]
    exact ranked.apart other q here
  · intro other entry' another q listed here
    rw [index] at listed
    rcases lookup_insert_cases listed with ⟨-, rfl⟩ | ⟨-, old⟩
    · exact ranked.behind _ entry another q found here
    · exact ranked.behind other entry' another q old here
  · intro other
    by_cases own : other = entry.info.transientId
    · subst own
      refine .inr (Eq.trans (sequenceOf_unqueued unqueued) ?_)
      rw [sequenceOf_unqueued unqueued, index, AList.lookup_insert, found]
      rfl
    · refine .inr (sequenceOf_congr rfl ?_)
      rw [index, AList.lookup_insert_ne own]

theorem writeBehind_same (store : FilePropagationStore) :
    store.writeBehind.queued = store.queued ∧ store.writeBehind.index = store.index := by
  unfold FilePropagationStore.writeBehind
  split
  · exact ⟨rfl, rfl⟩
  next none_ => exact ⟨(queued_of_writer rfl).trans (queued_direct none_).symm, rfl⟩

theorem gives_accepted {store : FilePropagationStore} {a : Append} {outcome : WriteOutcome} {removed : Bool}
    (was : h.store = some store) (reply : (h.append store a outcome removed).1 = .ok ()) :
    h.gives (.append a outcome removed) = [(((h.collected store).pathOf a).sequence, a.id)] := by
  unfold Host.gives
  rw [was]
  dsimp only
  rw [reply]

theorem gives_refused {store : FilePropagationStore} {a : Append} {outcome : WriteOutcome} {removed : Bool}
    {error : StorageError} (was : h.store = some store) (reply : (h.append store a outcome removed).1 = .error error) :
    h.gives (.append a outcome removed) = [] := by
  unfold Host.gives
  rw [was]
  dsimp only
  rw [reply]

/-- Every event keeps the ranks, and changes the sequence of no message but those it gives one. -/
theorem ranked_step {e : Host.Event} (ordered : Ordered h) (now : Traced (h, given)) (moved : Stepped h e h')
    (good : Host.sound (h, given) e = true) (ranked : ∀ store, h.store = some store → store.Ranked)
    {store' : FilePropagationStore} (later : h'.store = some store') :
    store'.Ranked ∧ ∀ store, h.store = some store → Follows store store' (h.gives e) := by
  have keeping : ∀ {store : FilePropagationStore}, h.store = some store → h.gives e = [] →
      store'.Ranked ∧ store.Keeps store' →
        store'.Ranked ∧ ∀ store, h.store = some store → Follows store store' (h.gives e) := by
    rintro store was nothing ⟨ranked', keeps⟩
    refine ⟨ranked', ?_⟩
    intro other was'
    cases was.symm.trans was'
    rw [nothing]
    exact ⟨nofun, fun id _ => keeps id⟩
  cases moved with
  | opened capacity listing renamed closed listed =>
    cases later
    exact ⟨.direct rfl, fun store was => absurd (closed.symm.trans was) nofun⟩
  | began store was =>
    cases later
    obtain ⟨queued, index⟩ := writeBehind_same store
    exact keeping was rfl ⟨(ranked store was).congr queued index, .congr queued index⟩
  | appended a outcome removed store was result h' done reply =>
    rw [Host.sound, was] at good
    obtain ⟨sequence, -, above⟩ := now.next was (of_decide_eq_true good) a
    obtain ⟨ranked', keeps⟩ := (ranked store was).collected ordered was
    have following : ∀ {store'' : FilePropagationStore},
        Follows (h.collected store) store'' [(((h.collected store).pathOf a).sequence, a.id)] →
          ∀ earlier, h.store = some earlier →
            Follows earlier store'' [(((h.collected store).pathOf a).sequence, a.id)] := by
      intro store'' follows other was'
      cases was.symm.trans was'
      refine ⟨follows.fresh, ?_⟩
      intro id absent
      rcases follows.kept id absent with gone | same
      · exact .inl gone
      · rw [same]
        exact keeps id
    cases done with
    | short error => exact keeping later (gives_refused was reply) ⟨ranked store' later, .refl store'⟩
    | refused error =>
      cases later
      exact keeping was (gives_refused was reply) ⟨ranked', keeps⟩
    | direct synced placed direct admitted long =>
      cases later
      rw [gives_accepted was reply]
      exact ⟨.direct direct, following (follows_appended _ a direct)⟩
    | behind writer was' alive admitted long =>
      cases later
      obtain ⟨ranked'', follows⟩ := ranked_enqueue ranked' (now.collected was).1 was' (ordered.collected was) a
        (by rw [sequence]; exact Nat.succ_pos _) above
      rw [gives_accepted was reply]
      exact ⟨ranked'', following follows⟩
  | unknown id removed => exact keeping later rfl ⟨ranked store' later, .refl store'⟩
  | purgedBehind id removed store store'' path was forgot behind =>
    cases later
    exact keeping was rfl ((ranked store was).forgotten forgot)
  | purged id store store'' path was forgot direct =>
    cases later
    exact keeping was rfl ((ranked store was).forgotten forgot)
  | purgeFailed id store store'' path was forgot direct =>
    cases later
    exact keeping was rfl ((ranked store was).forgotten forgot)
  | repriced id value renamed synced store was quiet h' done =>
    obtain ⟨ranked', keeps⟩ := (ranked store was).collected ordered was
    obtain ⟨index, -, -, -, queued⟩ := report_fields (h.collected store)
    have reported := ranked'.congr queued index
    have keeps' := keeps.trans (.congr queued index)
    cases done with
    | left =>
      cases later
      exact keeping was rfl ⟨reported, keeps'⟩
    | renamed entry body found there =>
      cases later
      have named := ((now.collected was).1.index id entry (index ▸ found)).1
      obtain ⟨ranked'', keeps''⟩ := reported.repriced found named value
      exact keeping was rfl ⟨ranked'', keeps'.trans keeps''⟩
  | settled store was =>
    cases later
    obtain ⟨ranked', keeps⟩ := (ranked store was).collected ordered was
    obtain ⟨index, -, -, -, queued⟩ := report_fields (h.collected store)
    exact keeping was rfl ⟨ranked'.congr queued index, keeps.trans (.congr queued index)⟩
  | removal outcome removed path rest next => exact keeping later rfl ⟨ranked store' later, .refl store'⟩
  | writeFailed removed ticket path body supersedes rest next => exact keeping later rfl ⟨ranked store' later, .refl store'⟩
  | written synced removed ticket path body supersedes rest next => exact keeping later rfl ⟨ranked store' later, .refl store'⟩
  | died count store writer was had =>
    cases later
    have queued : queued { store with writer := some { writer with alive := false } } = store.queued := by
      rw [queued_of_writer had]
      rfl
    exact keeping was rfl ⟨(ranked store was).congr queued rfl, .congr queued rfl⟩
  | closed store was drained => cases later
  | cut progress count mask opening => cases later

end Step

end Leviculum.Store
