import Leviculum.Lib.Execution
import Leviculum.Store.PnStore

/-! When a purged message is gone: runs of the message store over its log, with every write landing
or failing and the power cut between any two. -/

namespace Leviculum.Store

open Propagation Execution

/-- The log and the writes the message store has queued for it. -/
structure Board where
  log : RecordLog
  queue : List FlushOp
  deriving DecidableEq

namespace Board

def store (board : Board) : PnStore := ⟨board.log.region, board.queue⟩

/-- A write of the peer table or of an operator list. -/
abbrev ForeignOp := { op : FlushOp // ∀ entry ∈ op.entry, messageTagMax < entry.tag }

inductive Event where
  | append (transientId : TransientId) (receivedAt : Nat) (stampValue : UInt8) (body : Bytes)
  | reprice (transientId : TransientId) (value : UInt8)
  | purge (transientId : TransientId)
  | purgeConfirmed (transientId : TransientId)
  /-- The front write is performed and leaves the queue. -/
  | flush (fate : Fate)
  | foreign (op : ForeignOp) (fate : Fate)
  /-- The queue is lost and the log mounted again. -/
  | cut

def step (board : Board) : Event → Option Board
  | .append transientId receivedAt stampValue body =>
    match board.store.append transientId receivedAt stampValue body with
    | .ok store => some { board with queue := store.queue }
    | .error _ => some board
  | .reprice transientId value =>
    some { board with queue := (board.store.setStampValue transientId value).2.queue }
  | .purge transientId => some { board with queue := (board.store.purge transientId).2.queue }
  | .purgeConfirmed transientId =>
    some { board with queue := (board.store.purgeConfirmed transientId).2.queue }
  | .flush fate =>
    match board.queue with
    | [] => none
    | op :: rest => some ⟨(board.log.pnPerform op fate).2, rest⟩
  | .foreign op fate => some { board with log := (board.log.pnPerform op.val fate).2 }
  | .cut => some ⟨openRegion board.log.region, []⟩

/-- A region that was never written. -/
def fresh (pages : Nat) : Board := ⟨freshLog pages, []⟩

/-- The id has no queued append and no live record. -/
def Unused (board : Board) (transientId : TransientId) : Prop :=
  (∀ op ∈ board.queue, op.appends transientId = false) ∧
    ∀ record ∈ scan board.log.region, PnStore.isMessage record = true → record.key ≠ transientId

instance (board : Board) (transientId : TransientId) : Decidable (board.Unused transientId) :=
  inferInstanceAs (Decidable (_ ∧ _))

/-- An append is of an id the store does not hold, and no re-price rewrites a record. -/
def Single (board : Board) : Event → Prop
  | .append transientId _ _ _ => board.Unused transientId
  | .reprice transientId value => (board.store.setStampValue transientId value).1 = false
  | _ => True

instance (board : Board) (event : Event) : Decidable (board.Single event) := by
  cases event <;> unfold Single <;> infer_instance

end Board

def queued (queue : List FlushOp) : List Entry := queue.filterMap FlushOp.entry

/-- Every id has one copy at most, on the region or in the queue. -/
structure Board.Sound (board : Board) : Prop where
  log : board.log.WellFormed
  records : ∀ record ∈ scan board.log.region, ∀ record' ∈ scan board.log.region,
    PnStore.isMessage record = true → PnStore.isMessage record' = true → record.key = record'.key →
      record = record'
  queue : (queued board.queue).Pairwise (fun entry entry' => entry.key ≠ entry'.key)
  apart : ∀ entry ∈ queued board.queue, ∀ record ∈ scan board.log.region,
    PnStore.isMessage record = true → record.key ≠ entry.key

theorem live_of_isMessage {record : RawRecord} (message : PnStore.isMessage record = true) :
    record.live = true := by
  unfold PnStore.isMessage at message
  exact (Bool.and_eq_true_iff.mp message).1

theorem Board.fresh_sound {pages : Nat} (two : 2 ≤ pages) : (Board.fresh pages).Sound where
  log := RecordLog.freshLog_wellFormed two
  records := fun record member => absurd member (RecordLog.freshLog_empty pages record)
  queue := .nil
  apart := nofun

theorem Board.Sound.of_queue {board : Board} (sound : board.Sound) {queue : List FlushOp}
    (fewer : (queued queue).Sublist (queued board.queue)) : Board.Sound { board with queue := queue } where
  log := sound.log
  records := sound.records
  queue := sound.queue.sublist fewer
  apart := fun entry member => sound.apart entry (fewer.subset member)

theorem queued_append (queue queue' : List FlushOp) : queued (queue ++ queue') = queued queue ++ queued queue' :=
  List.filterMap_append ..

theorem queued_purge (store : PnStore) (transientId : TransientId) :
    (queued (store.purge transientId).2.queue).Sublist (queued store.queue) := by
  unfold PnStore.purge
  split
  · exact (List.eraseIdx_sublist _ _).filterMap _
  · split
    · dsimp only
      rw [queued_append]
      exact (List.append_nil (queued store.queue)).symm ▸ List.Sublist.refl _
    · exact List.Sublist.refl _

theorem queued_purgeConfirmed (store : PnStore) (transientId : TransientId) :
    (queued (store.purgeConfirmed transientId).2.queue).Sublist (queued store.queue) := by
  have purged := queued_purge store transientId
  unfold PnStore.purgeConfirmed
  dsimp only
  split_ifs
  · exact purged
  · exact purged
  · split
    · dsimp only
      rw [queued_append]
      refine List.Sublist.trans ?_ purged
      have none : queued [FlushOp.confirmedPurge ‹Nat› ‹Key›] = [] := rfl
      rw [none, List.append_nil]
      exact (List.dropLast_sublist _).filterMap _
    · exact purged

theorem Board.Sound.of_log {board : Board} (sound : board.Sound) {log : RecordLog} (ok : log.WellFormed)
    (fewer : ∀ record ∈ scan log.region, PnStore.isMessage record = true → record ∈ scan board.log.region) :
    Board.Sound { board with log := log } where
  log := ok
  records := fun record member record' member' message message' =>
    sound.records record (fewer record member message) record' (fewer record' member' message')
      message message'
  queue := sound.queue
  apart := fun entry waits record member message =>
    sound.apart entry waits record (fewer record member message) message

theorem Board.Sound.foreign {board : Board} (sound : board.Sound) (op : Board.ForeignOp) (fate : Fate) :
    Board.Sound { board with log := (board.log.pnPerform op.val fate).2 } := by
  obtain ⟨ok, effect⟩ := sound.log.pnPerform op.val fate
  refine sound.of_log ok ?_
  intro record member message
  rcases (effect.live_iff (live_of_isMessage message)).mp member with added | ⟨old, -, -⟩
  · obtain ⟨-, entry, written, rfl⟩ := RecordLog.performEffect_added added
    have above := op.property entry written
    have below : entry.tag ≤ messageTagMax := of_decide_eq_true (Bool.and_eq_true_iff.mp message).2
    exact absurd above (UInt8.not_lt.mpr below)
  · exact old

theorem Board.Sound.flush {board : Board} (sound : board.Sound) {op : FlushOp} {rest : List FlushOp}
    (front : board.queue = op :: rest) (fate : Fate) :
    Board.Sound ⟨(board.log.pnPerform op fate).2, rest⟩ := by
  obtain ⟨ok, effect⟩ := sound.log.pnPerform op fate
  have entries : (queued rest).Sublist (queued board.queue) := by
    rw [front]
    exact (List.sublist_cons_self op rest).filterMap _
  cases written : op.entry with
  | none =>
    have foreign := sound.foreign ⟨op, fun entry appended => by rw [written] at appended; cases appended⟩ fate
    exact foreign.of_queue entries
  | some entry =>
    have head : queued board.queue = entry :: queued rest := by
      rw [front, queued, List.filterMap_cons_some written]
      rfl
    have waits : entry ∈ queued board.queue := head ▸ List.mem_cons_self
    have later : ∀ other ∈ queued rest, entry.key ≠ other.key := by
      have apart := sound.queue
      rw [head] at apart
      exact (List.pairwise_cons.mp apart).1
    have origin : ∀ record ∈ scan (board.log.pnPerform op fate).2.region, PnStore.isMessage record = true →
        record = board.log.landed entry ∨ record ∈ scan board.log.region := by
      intro record member message
      rcases (effect.live_iff (live_of_isMessage message)).mp member with added | ⟨old, -, -⟩
      · obtain ⟨-, entry', written', same⟩ := RecordLog.performEffect_added added
        rw [written, Option.some.injEq] at written'
        exact .inl (written' ▸ same)
      · exact .inr old
    refine ⟨ok, ?_, sound.queue.sublist entries, ?_⟩
    · intro record member record' member' message message' same
      rcases origin record member message with rfl | old <;>
        rcases origin record' member' message' with rfl | old'
      · rfl
      · exact absurd same.symm (sound.apart entry waits record' old' message')
      · exact absurd same (sound.apart entry waits record old message)
      · exact sound.records record old record' old' message message' same
    · intro other inside record member message
      rcases origin record member message with rfl | old
      · exact later other inside
      · exact sound.apart other (entries.subset inside) record old message

theorem Board.Sound.step {board board' : Board} {event : Board.Event} (sound : board.Sound)
    (single : board.Single event) (stepped : board.step event = some board') : board'.Sound := by
  cases event with
  | append transientId receivedAt stampValue body =>
    simp only [Board.step] at stepped
    split at stepped
    next store appended =>
      obtain rfl := Option.some.inj stepped
      unfold PnStore.append at appended
      split_ifs at appended
      obtain rfl := Except.ok.inj appended
      obtain ⟨waiting, unstored⟩ := single
      refine ⟨sound.log, sound.records, ?_, ?_⟩
      · change (queued (board.queue ++ [_])).Pairwise _
        rw [queued_append, List.pairwise_append]
        refine ⟨sound.queue, List.pairwise_singleton _ _, ?_⟩
        intro entry member entry' last
        obtain rfl := List.mem_singleton.mp last
        obtain ⟨op, inside, written⟩ := List.mem_filterMap.mp member
        have other := waiting op inside
        rw [FlushOp.appends, written] at other
        exact fun same => Bool.false_ne_true (other.symm.trans (beq_iff_eq.mpr same))
      · intro entry member record stored message
        change entry ∈ queued (board.queue ++ [_]) at member
        rw [queued_append] at member
        rcases List.mem_append.mp member with old | last
        · exact sound.apart entry old record stored message
        · obtain rfl := List.mem_singleton.mp last
          exact unstored record stored message
    next => exact Option.some.inj stepped ▸ sound
  | reprice transientId value =>
    obtain rfl := Option.some.inj stepped
    have same : (board.store.setStampValue transientId value).2 = board.store := by
      have ineffective : (board.store.setStampValue transientId value).1 = false := single
      unfold PnStore.setStampValue at ineffective ⊢
      split at ineffective
      · rfl
      · cases ineffective
    rw [same]
    exact sound
  | purge transientId =>
    obtain rfl := Option.some.inj stepped
    exact sound.of_queue (queued_purge board.store transientId)
  | purgeConfirmed transientId =>
    obtain rfl := Option.some.inj stepped
    exact sound.of_queue (queued_purgeConfirmed board.store transientId)
  | flush fate =>
    simp only [Board.step] at stepped
    split at stepped
    next => cases stepped
    next op rest front =>
      obtain rfl := Option.some.inj stepped
      exact sound.flush front fate
  | foreign op fate =>
    obtain rfl := Option.some.inj stepped
    exact sound.foreign op fate
  | cut =>
    obtain rfl := Option.some.inj stepped
    have ok := RecordLog.openRegion_wellFormed sound.log.pages sound.log.fitting
    have mounted := sound.of_log ok (fun record member _ => RecordLog.mem_scan_openRegion member)
    exact mounted.of_queue (List.nil_sublist _)

namespace PnStore

theorem mem_scanMessages {store : PnStore} {record : RawRecord} :
    record ∈ store.scanMessages ↔ record ∈ scan store.region ∧ isMessage record = true ∧
      store.isPurgeMasked record.offset = false := by
  unfold scanMessages
  rw [List.mem_filter, Bool.and_eq_true, Bool.not_eq_true']

theorem contains_eq_false {store : PnStore} {transientId : TransientId}
    (unqueued : ∀ entry ∈ queued store.queue, entry.key ≠ transientId)
    (unseen : ∀ record ∈ store.scanMessages, record.key ≠ transientId) :
    store.contains transientId = false := by
  unfold contains
  rw [Bool.or_eq_false_iff]
  constructor
  · rw [Option.isSome_eq_false_iff, Option.isNone_iff_eq_none, pendingAppendBody, List.findSome?_eq_none_iff]
    intro op member
    cases written : op.entry with
    | none => rfl
    | some entry =>
      have waits : entry ∈ queued store.queue :=
        List.mem_filterMap.mpr ⟨op, List.mem_reverse.mp member, written⟩
      exact if_neg (unqueued entry waits)
  · rw [List.any_eq_false]
    intro record member same
    exact unseen record member (beq_iff_eq.mp same)

theorem stored_transientId {record : RawRecord} {message : StoredMessage}
    (entry : stored record = some message) : message.transientId = record.key := by
  unfold stored at entry
  split at entry
  · cases entry
  · obtain ⟨destinationHash, -, rfl⟩ := Option.map_eq_some_iff.mp entry
    rfl

theorem mem_pageOrder {region : List Page} {page : Nat × Nat} (member : page ∈ pageOrder region) :
    ∃ held, region[page.2]? = some held ∧ held.seq = some page.1 := by
  unfold pageOrder at member
  rw [List.mem_insertionSort] at member
  obtain ⟨⟨held, index⟩, paired, header⟩ := List.mem_filterMap.mp member
  obtain ⟨seq, stored, rfl⟩ := Option.map_eq_some_iff.mp header
  exact ⟨held, List.mem_zipIdx_iff_getElem?.mp paired, stored⟩

theorem ordered_mem_scanMessages {store : PnStore} {message : StoredMessage}
    (member : message ∈ store.forEachOrdered) :
    ∃ record ∈ store.scanMessages, stored record = some message := by
  obtain ⟨record, inside, entry⟩ := List.mem_filterMap.mp member
  obtain ⟨walked, visible⟩ := List.mem_filter.mp inside
  obtain ⟨page, ordered, placed⟩ := List.mem_flatMap.mp walked
  obtain ⟨held, found, -⟩ := mem_pageOrder ordered
  rw [List.getD_eq_getElem?_getD, found, Option.getD_some] at placed
  have scanned : record ∈ scan store.region :=
    List.mem_flatMap.mpr ⟨(held, page.2), List.mem_zipIdx_iff_getElem?.mpr found, placed⟩
  exact ⟨record, List.mem_filter.mpr ⟨scanned, visible⟩, entry⟩

theorem walks_without {store : PnStore} {transientId : TransientId}
    (unseen : ∀ record ∈ store.scanMessages, record.key ≠ transientId) :
    (∀ message ∈ store.forEach, message.transientId ≠ transientId) ∧
      ∀ message ∈ store.forEachOrdered, message.transientId ≠ transientId := by
  constructor
  · intro message member
    obtain ⟨record, inside, entry⟩ := List.mem_filterMap.mp member
    rw [stored_transientId entry]
    exact unseen record inside
  · intro message member
    obtain ⟨record, inside, entry⟩ := ordered_mem_scanMessages member
    rw [stored_transientId entry]
    exact unseen record inside

end PnStore

theorem dropped_append {queue : List FlushOp} {transientId : TransientId} {index : Nat}
    (found : queue.findIdx? (fun op => op.appends transientId) = some index) :
    ∃ before op after entry, queue = before ++ op :: after ∧ op.entry = some entry ∧
      entry.key = transientId ∧ queue.eraseIdx index = before ++ after := by
  obtain ⟨inside, appends, -⟩ := List.findIdx?_eq_some_iff_getElem.mp found
  have split : queue = queue.take index ++ queue[index] :: queue.drop (index + 1) := by
    rw [List.getElem_cons_drop, List.take_append_drop]
  cases written : (queue[index]).entry with
  | none =>
    rw [FlushOp.appends, written] at appends
    cases appends
  | some entry =>
    rw [FlushOp.appends, written] at appends
    exact ⟨_, _, _, entry, split, written, beq_iff_eq.mp appends, List.eraseIdx_eq_take_drop_succ ..⟩

/-- After a purge that removed something, nothing of the id is queued or seen. -/
theorem Board.Sound.purge {board : Board} (sound : board.Sound) {transientId : TransientId} {store : PnStore}
    (purged : board.store.purge transientId = (true, store)) :
    (∀ entry ∈ queued store.queue, entry.key ≠ transientId) ∧
      ∀ record ∈ store.scanMessages, record.key ≠ transientId := by
  unfold PnStore.purge at purged
  split at purged
  next index found =>
    obtain ⟨-, rfl⟩ := Prod.mk.inj purged
    obtain ⟨before, op, after, entry, split, written, key, erased⟩ := dropped_append found
    have whole : queued board.queue = queued before ++ entry :: queued after := by
      change queued board.store.queue = _
      rw [split, queued_append, queued, queued, List.filterMap_cons_some written]
      rfl
    have waits : entry ∈ queued board.queue := by
      rw [whole]
      exact List.mem_append_right _ List.mem_cons_self
    have apart := sound.queue
    rw [whole, List.pairwise_append, List.pairwise_cons] at apart
    constructor
    · intro other member
      dsimp only at member
      rw [erased, queued_append] at member
      rw [← key]
      rcases List.mem_append.mp member with first | last
      · exact apart.2.2 other first entry List.mem_cons_self
      · exact (apart.2.1.1 other last).symm
    · intro record member
      obtain ⟨stored, message, -⟩ := PnStore.mem_scanMessages.mp member
      rw [← key]
      exact sound.apart entry waits record stored message
  next unqueued =>
    have unqueued' : ∀ entry ∈ queued board.queue, entry.key ≠ transientId := by
      intro entry member same
      obtain ⟨op, inside, written⟩ := List.mem_filterMap.mp member
      have absent := List.findIdx?_eq_none_iff.mp unqueued op inside
      rw [FlushOp.appends, written] at absent
      exact Bool.false_ne_true (absent.symm.trans (beq_iff_eq.mpr same))
    split at purged
    next first found =>
      obtain ⟨-, rfl⟩ := Prod.mk.inj purged
      have held := PnStore.mem_scanMessages.mp (List.mem_of_find?_eq_some found)
      have matches' := List.find?_some found
      have key : first.key = transientId := beq_iff_eq.mp matches'
      constructor
      · intro entry member
        dsimp only at member
        rw [queued_append] at member
        rcases List.mem_append.mp member with old | last
        · exact unqueued' entry old
        · cases last
      · intro record member same
        obtain ⟨stored, message, visible⟩ := PnStore.mem_scanMessages.mp member
        have one := sound.records record stored first held.1 message held.2.1 (same.trans key.symm)
        unfold PnStore.isPurgeMasked at visible
        dsimp only at visible
        rw [List.any_append, Bool.or_eq_false_iff, one] at visible
        have aimed : FlushOp.target (.purge first.offset transientId) = some (first.offset, transientId) := rfl
        rw [List.any_cons, aimed] at visible
        simp at visible
    next => cases purged

/-- A store whose runs append no id it already holds, and rewrite no record, forgets what it
purged, and reports a confirmed purge as committed only where the region holds no live record. -/
theorem purged_is_gone (pages : Nat) (two : 2 ≤ pages) (events : List Board.Event) (board : Board)
    (single : Along Board.step Board.Single (Board.fresh pages) events)
    (run : exec Board.step (Board.fresh pages) events = some board) (transientId : TransientId) :
    (∀ store, board.store.purge transientId = (true, store) →
      store.contains transientId = false ∧
        (∀ message ∈ store.forEach, message.transientId ≠ transientId) ∧
        ∀ message ∈ store.forEachOrdered, message.transientId ≠ transientId) ∧
    ((board.store.purgeConfirmed transientId).1 = .ok .committed →
      ∀ record ∈ scan board.log.region, PnStore.isMessage record = true → record.key ≠ transientId) := by
  have sound : board.Sound :=
    exec_invariant_along (fun _ _ _ sound single stepped => sound.step single stepped)
      (Board.fresh_sound two) single run
  constructor
  · intro store purged
    obtain ⟨unqueued, unseen⟩ := sound.purge purged
    exact ⟨PnStore.contains_eq_false unqueued unseen, PnStore.walks_without unseen⟩
  · intro committed
    unfold PnStore.purgeConfirmed PnStore.purge at committed
    cases found : board.store.queue.findIdx? (fun op => op.appends transientId) with
    | some index =>
      obtain ⟨before, op, after, entry, split, written, key, -⟩ := dropped_append found
      have waits : entry ∈ queued board.queue :=
        List.mem_filterMap.mpr ⟨op, by
          change op ∈ board.store.queue
          rw [split]
          exact List.mem_append_right _ List.mem_cons_self, written⟩
      intro record stored message
      rw [← key]
      exact sound.apart entry waits record stored message
    | none =>
      rw [found] at committed
      dsimp only at committed
      split at committed
      next first _ =>
        have longer : ¬ board.store.queue.length + 1 ≤ board.store.queue.length := by omega
        simp [longer] at committed
      next =>
        simp at committed

def sampleId (byte : UInt8) : TransientId := ⟨List.replicate 32 byte, List.length_replicate ..⟩

/-- While a re-price waits in the queue a confirmed purge counts as done beside a live record, and
a re-price that a power cut interrupted leaves two copies, of which a purge takes one. -/
theorem repriced_purge_leaves_record :
    (∃ board record,
      exec Board.step (Board.fresh 2) [.append (sampleId 1) 5 0 (List.replicate 48 7), .flush .lands,
        .reprice (sampleId 1) 9] = some board ∧
      (board.store.purgeConfirmed (sampleId 1)).1 = .ok .committed ∧
      record ∈ scan board.log.region ∧ PnStore.isMessage record = true ∧ record.key = sampleId 1) ∧
    ∃ board,
      exec Board.step (Board.fresh 2) [.append (sampleId 1) 5 0 (List.replicate 48 7), .flush .lands,
        .reprice (sampleId 1) 9, .flush .lands, .cut] = some board ∧
      (board.store.purge (sampleId 1)).1 = true ∧
      (board.store.purge (sampleId 1)).2.contains (sampleId 1) = true :=
  ⟨⟨_, _, rfl, by decide, List.mem_cons_self, by decide, rfl⟩,
    ⟨_, rfl, by decide, by decide⟩⟩

/-- One message is appended, flushed and purged. -/
theorem purged_is_gone_single :
    Along Board.step Board.Single (Board.fresh 2)
      [.append (sampleId 1) 5 0 (List.replicate 48 7), .flush .lands] ∧
    ∃ board, exec Board.step (Board.fresh 2)
        [.append (sampleId 1) 5 0 (List.replicate 48 7), .flush .lands] = some board ∧
      (board.store.purge (sampleId 1)).1 = true ∧
      (board.store.purge (sampleId 1)).2.contains (sampleId 1) = false := by
  have single : Along Board.step Board.Single (Board.fresh 2)
      [.append (sampleId 1) 5 0 (List.replicate 48 7), .flush .lands] := by decide
  obtain ⟨board, run⟩ : ∃ board, exec Board.step (Board.fresh 2)
      [.append (sampleId 1) 5 0 (List.replicate 48 7), .flush .lands] = some board := ⟨_, rfl⟩
  have present : (board.store.purge (sampleId 1)).1 = true := by
    obtain rfl := Option.some.inj run
    decide
  refine ⟨single, board, run, present, ?_⟩
  exact ((purged_is_gone 2 (by decide) _ board single run (sampleId 1)).1 _
    (Prod.ext present rfl)).1

end Leviculum.Store
