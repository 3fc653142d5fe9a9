import Leviculum.Store.PeerStore

/-! When a rewritten record outlives the purge of its older copies. -/

namespace Leviculum.Store

open Propagation

namespace RecordLog

def flushed (log : RecordLog) (ops : List FlushOp) : RecordLog := (log.performAll ops []).2

theorem flushed_nil (log : RecordLog) : log.flushed [] = log := rfl

theorem flushed_cons (log : RecordLog) (op : FlushOp) (rest : List FlushOp) :
    log.flushed (op :: rest) = (log.pnPerform op .lands).2.flushed rest := rfl

theorem flushed_append (log : RecordLog) (first second : List FlushOp) :
    log.flushed (first ++ second) = (log.flushed first).flushed second := by
  induction first generalizing log with
  | nil => rfl
  | cons op rest ih => rw [List.cons_append, flushed_cons, flushed_cons, ih]

theorem WellFormed.flushed {log : RecordLog} (ok : log.WellFormed) (ops : List FlushOp) :
    (log.flushed ops).WellFormed := ok.performAll ops []

theorem performEffect_lands_withdrawn {log : RecordLog} {op : FlushOp} {target : Nat × Key}
    (aimed : op.target = some target) : (log.performEffect op .lands).withdrawn = some target := by
  cases op with
  | append entry => cases aimed
  | purge offset key => exact aimed
  | confirmedPurge offset key => exact aimed

theorem WellFormed.live_flushed {log : RecordLog} (ok : log.WellFormed) {ops : List FlushOp}
    {record : RawRecord} (live : record.live = true) (member : record ∈ scan (log.flushed ops).region) :
    (∃ op ∈ ops, op.entry = some record.toEntry) ∨
      (record ∈ scan log.region ∧ ∀ op ∈ ops, op.target ≠ some (record.offset, record.key)) := by
  induction ops generalizing log with
  | nil => exact .inr ⟨member, nofun⟩
  | cons op rest ih =>
    rw [flushed_cons] at member
    obtain ⟨kept, effect⟩ := ok.pnPerform op .lands
    rcases ih kept member with ⟨later, inside, written⟩ | ⟨stands, untouched⟩
    · exact .inl ⟨later, List.mem_cons_of_mem _ inside, written⟩
    · rcases (effect.live_iff live).mp stands with added | ⟨old, -, other⟩
      · obtain ⟨-, entry, written, rfl⟩ := performEffect_added added
        exact .inl ⟨op, List.mem_cons_self, written⟩
      · refine .inr ⟨old, List.forall_mem_cons.mpr ⟨?_, untouched⟩⟩
        intro aimed
        exact other (performEffect_lands_withdrawn aimed)

theorem WellFormed.live_purges {log : RecordLog} (ok : log.WellFormed) {ops : List FlushOp}
    (purges : ∀ op ∈ ops, op.entry = none) {record : RawRecord} (live : record.live = true) :
    record ∈ scan (log.flushed ops).region ↔
      record ∈ scan log.region ∧ ∀ op ∈ ops, op.target ≠ some (record.offset, record.key) := by
  induction ops generalizing log with
  | nil => exact ⟨fun member => ⟨member, nofun⟩, fun both => both.1⟩
  | cons op rest ih =>
    obtain ⟨purge, later⟩ := List.forall_mem_cons.mp purges
    obtain ⟨kept, effect⟩ := ok.pnPerform op .lands
    rw [flushed_cons, ih kept later, effect.live_iff live, List.forall_mem_cons]
    unfold performEffect
    rw [purge]
    simp [and_assoc]

theorem WellFormed.mem_landed {log : RecordLog} (ok : log.WellFormed) {entry : Entry}
    (fits : entry.body.length ≤ maxBody) :
    log.landed entry ∈ scan (log.pnPerform (.append entry) .lands).2.region := by
  obtain ⟨-, effect⟩ := ok.pnPerform (.append entry) .lands
  refine (effect.live_iff rfl).mpr (.inl ?_)
  change (log.appendEffect entry .lands).added = _
  unfold appendEffect
  rw [if_neg (Nat.not_lt.mpr fits)]
  rfl

end RecordLog

theorem queuePurges_spec (region : List Page) (own : RawRecord → Bool) (key : Key) (queue : List FlushOp) :
    ∃ purges, queuePurges region own key queue = queue ++ purges ∧
      (∀ op ∈ purges, ∃ record ∈ scan region, own record = true ∧
        queue.any (fun other => other.purges record.offset) = false ∧ op = .purge record.offset key) ∧
      ∀ record ∈ scan region, own record = true →
        queue.any (fun other => other.purges record.offset) = false → .purge record.offset key ∈ purges := by
  unfold queuePurges
  induction scan region using List.reverseRecOn with
  | nil => exact ⟨[], (List.append_nil _).symm, nofun, nofun⟩
  | append_singleton records record ih =>
    obtain ⟨purges, same, only, all⟩ := ih
    rw [List.foldl_concat, same, queuePurge]
    by_cases fresh : (own record && !(queue ++ purges).any (fun op => op.purges record.offset)) = true
    · rw [if_pos fresh]
      rw [Bool.and_eq_true, Bool.not_eq_true', List.any_append, Bool.or_eq_false_iff] at fresh
      refine ⟨purges ++ [.purge record.offset key], List.append_assoc .., ?_, ?_⟩
      · intro op member
        rcases List.mem_append.mp member with old | last
        · obtain ⟨held, inside, rest⟩ := only op old
          exact ⟨held, List.mem_append_left _ inside, rest⟩
        · exact ⟨record, List.mem_append_right _ List.mem_cons_self, fresh.1, fresh.2.1,
            List.mem_singleton.mp last⟩
      · intro held member ours unmasked
        rcases List.mem_append.mp member with old | last
        · exact List.mem_append_left _ (all held old ours unmasked)
        · obtain rfl := List.mem_singleton.mp last
          exact List.mem_append_right _ List.mem_cons_self
    · rw [if_neg fresh]
      refine ⟨purges, rfl, ?_, ?_⟩
      · intro op member
        obtain ⟨held, inside, rest⟩ := only op member
        exact ⟨held, List.mem_append_left _ inside, rest⟩
      · intro held member ours unmasked
        rcases List.mem_append.mp member with old | last
        · exact all held old ours unmasked
        · obtain rfl := List.mem_singleton.mp last
          -- a purge of the same offset is among the new ones
          rw [Bool.and_eq_true, not_and, Bool.not_eq_true', List.any_append, unmasked, Bool.false_or,
            Bool.not_eq_false, List.any_eq_true] at fresh
          obtain ⟨op, inside, aims⟩ := fresh ours
          obtain ⟨other, -, -, -, rfl⟩ := only op inside
          have offset : other.offset = held.offset := beq_iff_eq.mp aims
          rw [← offset]
          exact inside

/-- No record the rewrite is about to purge stands where its append lands, once what is queued
before it has been flushed. -/
def Clear (log : RecordLog) (queue : List FlushOp) (own : RawRecord → Bool) (entry : Entry) : Prop :=
  ∀ record ∈ scan log.region, own record = true →
    queue.any (fun op => op.purges record.offset) = false →
    record.offset ≠ ((log.flushed queue).landed entry).offset

instance (log : RecordLog) (queue : List FlushOp) (own : RawRecord → Bool) (entry : Entry) :
    Decidable (Clear log queue own entry) :=
  inferInstanceAs (Decidable (∀ record ∈ scan log.region, own record = true →
    queue.any (fun op => op.purges record.offset) = false →
    record.offset ≠ ((log.flushed queue).landed entry).offset))

/-- Every queued purge names the key of the record at its offset. -/
def Aimed (log : RecordLog) (queue : List FlushOp) : Prop :=
  ∀ op ∈ queue, ∀ target ∈ op.target, ∀ record ∈ scan log.region,
    record.offset = target.1 → record.key = target.2

section Rewritten

variable {log : RecordLog} {queue : List FlushOp} {own : RawRecord → Bool} {entry : Entry}

theorem live_rewritten (ok : log.WellFormed) {record : RawRecord} (live : record.live = true) :
    record ∈ scan (log.flushed (queuePurges log.region own entry.key (queue ++ [.append entry]))).region ↔
      record ∈ scan ((log.flushed queue).pnPerform (.append entry) .lands).2.region ∧
        (record.key = entry.key → ∀ old ∈ scan log.region, own old = true →
          queue.any (fun op => op.purges old.offset) = false → old.offset ≠ record.offset) := by
  obtain ⟨purges, same, only, all⟩ := queuePurges_spec log.region own entry.key (queue ++ [.append entry])
  have quiet : ∀ offset, (queue ++ [FlushOp.append entry]).any (fun op => op.purges offset) =
      queue.any (fun op => op.purges offset) := by
    intro offset
    rw [List.any_append, List.any_cons, List.any_nil]
    exact Bool.or_false _
  have appended := ((ok.flushed queue).pnPerform (.append entry) .lands).1
  rw [same, RecordLog.flushed_append, RecordLog.flushed_append, RecordLog.flushed_cons,
    RecordLog.flushed_nil, appended.live_purges _ live]
  · refine and_congr_right fun _ => ?_
    constructor
    · intro untouched key old stored ours unmasked offset
      refine untouched _ (all old stored ours ((quiet _).trans unmasked)) ?_
      rw [offset, key]
      rfl
    · intro away op member aimed
      obtain ⟨old, stored, ours, unmasked, rfl⟩ := only op member
      rw [FlushOp.target, Option.some.injEq, Prod.mk.injEq] at aimed
      exact away aimed.2.symm old stored ours ((quiet _).symm.trans unmasked) aimed.1
  · intro op member
    obtain ⟨old, -, -, -, rfl⟩ := only op member
    rfl

theorem rewrite_survives (ok : log.WellFormed) (fits : entry.body.length ≤ maxBody)
    (clear : Clear log queue own entry) :
    ∃ record ∈ scan (log.flushed (queuePurges log.region own entry.key (queue ++ [.append entry]))).region,
      record.live = true ∧ record.toEntry = entry := by
  refine ⟨(log.flushed queue).landed entry, ?_, rfl, rfl⟩
  rw [live_rewritten ok rfl]
  exact ⟨(ok.flushed queue).mem_landed fits, fun _ => clear⟩

theorem rewrite_clear (ok : log.WellFormed)
    (ours : ∀ record : RawRecord, record.live = true → record.toEntry = entry → own record = true)
    (aimed : Aimed log queue) (unqueued : ∀ op ∈ queue, op.appends entry.key = false)
    (survives : ∃ record ∈ scan (log.flushed
      (queuePurges log.region own entry.key (queue ++ [.append entry]))).region,
      record.live = true ∧ record.toEntry = entry) : Clear log queue own entry := by
  obtain ⟨record, member, live, content⟩ := survives
  rw [live_rewritten ok live] at member
  obtain ⟨stands, away⟩ := member
  have key : record.key = entry.key := congrArg Entry.key content
  have away' := away key
  have effect := ((ok.flushed queue).pnPerform (.append entry) .lands).2
  rcases (effect.live_iff live).mp stands with added | ⟨before, -, -⟩
  · obtain ⟨-, entry', written, rfl⟩ := RecordLog.performEffect_added added
    obtain rfl := Option.some.inj written
    exact away'
  · exfalso
    rcases ok.live_flushed live before with ⟨op, inside, written⟩ | ⟨old, untouched⟩
    · have absent := unqueued op inside
      rw [FlushOp.appends, written, Option.any_some, content, beq_self_eq_true] at absent
      cases absent
    · by_cases masked : queue.any (fun op => op.purges record.offset) = false
      · exact away' record old (ours record live content) masked rfl
      · rw [Bool.not_eq_false, List.any_eq_true] at masked
        obtain ⟨op, inside, aims⟩ := masked
        cases op with
        | append _ => cases aims
        | confirmedPurge _ _ => cases aims
        | purge offset named =>
          have offset' : offset = record.offset := beq_iff_eq.mp aims
          have named' := aimed _ inside _ rfl record old offset'.symm
          exact untouched _ inside (by rw [offset', named']; rfl)

end Rewritten

theorem body_le_maxBody {log : RecordLog} (ok : log.WellFormed) {record : RawRecord}
    (member : record ∈ scan log.region) : record.body.length ≤ maxBody := by
  obtain ⟨page, found, -, placed⟩ := ok.fitting.mem_scan.mp member
  have stop := ok.fitting page (List.mem_of_getElem? found)
  have bounds := placedFrom_bounds placed
  have short : record.stride ≤ sectorSize - sectorHeaderLen := by
    unfold Page.stop at stop
    omega
  unfold Entry.stride recordStride alignUp headerLen programUnit at short
  unfold maxBody sectorPayload headerLen
  omega

theorem repriced_spec {log : RecordLog} (ok : log.WellFormed) {queue : List FlushOp}
    {transientId : TransientId} {value : UInt8} {entry : Entry}
    (rewrites : PnStore.repriced ⟨log.region, queue⟩ transientId value = some entry) :
    entry.key = transientId ∧ entry.tag ≤ messageTagMax ∧ entry.body.length ≤ maxBody := by
  obtain ⟨record, found, rfl⟩ := Option.map_eq_some_iff.mp rewrites
  have scanned := (List.mem_filter.mp (List.mem_of_find?_eq_some found)).1
  refine ⟨rfl, ?_, body_le_maxBody ok scanned⟩
  change messageTag value ≤ messageTagMax
  unfold messageTag
  split
  next below => exact below
  next => exact UInt8.le_refl _

theorem supersede_unqueued (queue : List FlushOp) (key : Key) :
    ∀ op ∈ PnPeerStore.supersede queue key, op.appends key = false := by
  intro op member
  have kept := (List.mem_filter.mp member).2
  exact Bool.not_eq_true' _ ▸ kept

/-- A saved peer and a re-priced message are live after their flush when the append lands clear of
the old copies, and, where the queued purges name their records and no other append of the key
waits, only then. -/
theorem rewritten_record_survives (log : RecordLog) (ok : log.WellFormed) :
    (∀ (store : PnPeerStore) (record : PeerRecord), store.region = log.region →
      let queue := PnPeerStore.supersede store.queue (peerKey record.destinationHash)
      let clear := Clear log queue (PnPeerStore.isPeer (peerKey record.destinationHash))
        (PnPeerStore.savedEntry record)
      let survives := ∃ held ∈ scan (log.flushed (store.save record).queue).region,
        held.live = true ∧ held.toEntry = PnPeerStore.savedEntry record
      (clear → survives) ∧ (Aimed log queue → survives → clear)) ∧
    (∀ (store : PnStore) (transientId : TransientId) (value : UInt8) (entry : Entry),
      store.region = log.region → store.repriced transientId value = some entry →
      let clear := Clear log store.queue
        (fun record => PnStore.isMessage record && record.key == transientId) entry
      let survives := ∃ held ∈ scan (log.flushed (store.setStampValue transientId value).2.queue).region,
        held.live = true ∧ held.toEntry = entry
      (clear → survives) ∧
        (Aimed log store.queue → (∀ op ∈ store.queue, op.appends transientId = false) →
          survives → clear)) := by
  constructor
  · intro store record region queue clear survives
    have fits : (PnPeerStore.savedEntry record).body.length ≤ maxBody := by
      change (encodePeerRecord record).length ≤ maxBody
      rw [length_encodePeerRecord]
      decide
    have same : survives = ∃ held ∈ scan (log.flushed (queuePurges log.region
        (PnPeerStore.isPeer (peerKey record.destinationHash)) (PnPeerStore.savedEntry record).key
        (queue ++ [.append (PnPeerStore.savedEntry record)]))).region,
        held.live = true ∧ held.toEntry = PnPeerStore.savedEntry record := by
      rw [← region]
      rfl
    rw [same]
    refine ⟨rewrite_survives ok fits, fun aimed => rewrite_clear ok ?_ aimed (supersede_unqueued _ _)⟩
    intro held live content
    unfold PnPeerStore.isPeer
    have tag : held.tag = tagPeer := congrArg Entry.tag content
    have key : held.key = peerKey record.destinationHash := congrArg Entry.key content
    rw [live, tag, key, beq_self_eq_true, beq_self_eq_true]
    rfl
  · intro store transientId value entry region rewrites clear survives
    have here : PnStore.repriced ⟨log.region, store.queue⟩ transientId value = some entry := by
      rw [← region]
      exact rewrites
    obtain ⟨key, tag, fits⟩ := repriced_spec ok here
    have same : survives = ∃ held ∈ scan (log.flushed (queuePurges log.region
        (fun record => PnStore.isMessage record && record.key == transientId) entry.key
        (store.queue ++ [.append entry]))).region, held.live = true ∧ held.toEntry = entry := by
      unfold survives
      rw [PnStore.setStampValue, rewrites, ← region, key]
    rw [same]
    refine ⟨rewrite_survives ok fits, fun aimed unqueued =>
      rewrite_clear ok ?_ aimed (key ▸ unqueued)⟩
    intro held live content
    have tag' : held.tag = entry.tag := congrArg Entry.tag content
    have key' : held.key = entry.key := congrArg Entry.key content
    unfold PnStore.isMessage
    rw [live, tag', key', key, beq_self_eq_true, decide_eq_true tag]
    rfl

def samplePeer (lastHeard : Nat) : PeerRecord where
  destinationHash := FixedBytes.replicate 16 3
  identityHash := none
  publicKeys := none
  peeringKey := none
  transferLimitKb := 4
  syncLimitKb := 10
  stampCost := 0
  stampCostFlexibility := 0
  peeringCost := 0
  peeringTimebase := 1
  lastHeard := lastHeard
  cursor := 0
  isStatic := false

def fillerEntry (length : Nat) : Entry := ⟨(FixedBytes.replicate 32 9), 0, 0, List.replicate length 9⟩

/-- A saved peer, and two messages that fill its page and the next one. -/
def lappedLog : RecordLog :=
  (openRegion [.erased, .erased]).flushed
    ((PnPeerStore.save ⟨[], [], [], []⟩ (samplePeer 1)).queue ++
      [.append (fillerEntry 3828), .append (fillerEntry 4042)])

/-- The save reclaims the page of the old record and lands at its offset, where the purge of the
old record finds the key it expects. -/
theorem save_purges_own_record :
    ¬ ∃ held ∈ scan (lappedLog.flushed
        (PnPeerStore.save ⟨lappedLog.region, [], [], []⟩ (samplePeer 2)).queue).region,
      held.live = true ∧ held.toEntry = PnPeerStore.savedEntry (samplePeer 2) := by
  decide +kernel

def savedLog : RecordLog := (openRegion [.erased, .erased]).flushed [.append (PnPeerStore.savedEntry (samplePeer 1))]

/-- A save beside the old record survives. -/
theorem rewritten_record_survives_saved :
    savedLog.WellFormed ∧
      ∃ held ∈ scan (savedLog.flushed
          (PnPeerStore.save ⟨savedLog.region, [], [], []⟩ (samplePeer 2)).queue).region,
        held.live = true ∧ held.toEntry = PnPeerStore.savedEntry (samplePeer 2) := by
  have ok : savedLog.WellFormed :=
    (RecordLog.openRegion_wellFormed (by decide) (by decide)).flushed _
  have clear : Clear savedLog [] (PnPeerStore.isPeer (peerKey (samplePeer 2).destinationHash))
      (PnPeerStore.savedEntry (samplePeer 2)) := by decide +kernel
  have survives := (rewritten_record_survives savedLog ok).1 ⟨savedLog.region, [], [], []⟩ (samplePeer 2)
    (by dsimp only)
  exact ⟨ok, survives.1 clear⟩

end Leviculum.Store
