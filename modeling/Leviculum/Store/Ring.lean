import Leviculum.Store.Rewrite

/-! A log whose page sequence has not wrapped. The pages then stand in a ring: the page of
sequence `q` is the one at `q % pages`, and an advance reclaims the oldest. -/

namespace Leviculum.Store

namespace RecordLog

structure Ring (log : RecordLog) : Prop extends log.WellFormed where
  head_index : log.active = log.seq % log.region.length
  index : ∀ i page seq, log.region[i]? = some page → page.seq = some seq →
    i = seq % log.region.length ∧ seq ≤ log.seq ∧ log.seq < seq + log.region.length
  /-- The active page holds a record, but for a log that was never written. -/
  newest : log.seq = 0 ∨ ∃ record ∈ scan log.region, record.pageSeq = log.seq

theorem Ring.record {log : RecordLog} (ring : log.Ring) {record : RawRecord} (member : record ∈ scan log.region) :
    record.offset / sectorSize = record.pageSeq % log.region.length ∧ record.pageSeq ≤ log.seq ∧
      log.seq < record.pageSeq + log.region.length := by
  obtain ⟨page, found, header, -⟩ := ring.fitting.mem_scan.mp member
  exact ring.index _ page _ found header

theorem Ring.next_eq {log : RecordLog} (ring : log.Ring) : log.next = (log.seq + 1) % log.region.length := by
  unfold next
  rw [ring.head_index, Nat.mod_add_mod]

theorem nextSeq_eq {log : RecordLog} (small : log.seq + 1 < 2 ^ 32) : log.nextSeq = log.seq + 1 :=
  Nat.mod_eq_of_lt small

theorem ring_apart {pages seq seq' : Nat} (before : seq < seq') (lap : seq' < seq + pages) :
    seq % pages ≠ seq' % pages := by
  intro same
  have whole := Nat.dvd_of_mod_eq_zero (Nat.sub_mod_eq_zero_of_mod_eq same.symm)
  have long := Nat.le_of_dvd (by omega) whole
  omega

theorem Ring.advance_index {log : RecordLog} (ring : log.Ring) (small : log.seq + 1 < 2 ^ 32) {i : Nat}
    {page : Page} {seq : Nat} (found : log.advance.region[i]? = some page) (header : page.seq = some seq) :
    i = seq % log.advance.region.length ∧ seq ≤ log.advance.seq ∧
      log.advance.seq < seq + log.advance.region.length := by
  have pages := ring.pages
  have same : log.advance.region.length = log.region.length := List.length_set ..
  have moved : log.advance.seq = log.seq + 1 := nextSeq_eq small
  rw [same, moved]
  by_cases here : log.next = i
  · subst here
    rw [advance, List.getElem?_set_self ring.next_lt, Option.some.injEq] at found
    subst found
    rw [Option.some.injEq, nextSeq_eq small] at header
    subst header
    exact ⟨ring.next_eq, Nat.le_refl _, by omega⟩
  · rw [advance, List.getElem?_set_ne here] at found
    obtain ⟨index, below, lap⟩ := ring.index i page seq found header
    refine ⟨index, by omega, ?_⟩
    by_contra past
    -- the page of the sequence a lap back is the one the advance takes
    have reclaimed : seq + log.region.length = log.seq + 1 := by omega
    refine here ?_
    rw [ring.next_eq, index, ← reclaimed, Nat.add_mod_right]

/-- What a write that lands does to the log's own fields and to the page headers. -/
structure Moves (log log' : RecordLog) : Prop where
  length : log'.region.length = log.region.length
  head : log'.active = log.active ∧ log'.seq = log.seq ∨
    log'.active = log.advance.active ∧ log'.seq = log.advance.seq
  headers : ∀ i : Nat, (log'.region[i]?).bind Page.seq =
    ((if log'.active = log.active then log else log.advance).region[i]?).bind Page.seq

theorem headers_modify {region : List Page} {index : Nat} {f : Page → Page}
    (keeps : ∀ page, (f page).seq = page.seq) (i : Nat) :
    ((region.modify index f)[i]?).bind Page.seq = (region[i]?).bind Page.seq := by
  rw [List.getElem?_modify]
  cases region[i]? with
  | none => rfl
  | some page =>
    by_cases here : index = i
    · simp [here, keeps]
    · simp [here]

theorem advance_active_ne {log : RecordLog} (ok : log.WellFormed) : log.advance.active ≠ log.active := ok.next_ne

theorem moves_program (log : RecordLog) (entry : Entry) :
    (log.program entry .lands).2.region.length = log.region.length ∧
      (log.program entry .lands).2.active = log.active ∧ (log.program entry .lands).2.seq = log.seq ∧
      ∀ i : Nat, ((log.program entry .lands).2.region[i]?).bind Page.seq = (log.region[i]?).bind Page.seq :=
  ⟨List.length_modify .., rfl, rfl, headers_modify (fun _ => rfl)⟩

theorem WellFormed.moves {log : RecordLog} (ok : log.WellFormed) (op : FlushOp) :
    Moves log (log.pnPerform op .lands).2 := by
  have still : Moves log log := ⟨rfl, .inl ⟨rfl, rfl⟩, fun i => by rw [if_pos rfl]⟩
  have purges : ∀ offset key, Moves log (log.purgeAt offset key .lands).2 := by
    intro offset key
    unfold RecordLog.purgeAt
    split
    · split
      · unfold RecordLog.purge
        split
        · exact still
        · refine ⟨List.length_modify .., .inl ⟨rfl, rfl⟩, fun i => ?_⟩
          rw [if_pos rfl]
          apply headers_modify
          intro page
          rfl
      · exact still
    · exact still
  cases op with
  | append entry =>
    change Moves log (log.append entry .lands).2
    unfold RecordLog.append
    split_ifs with large full
    · exact still
    · obtain ⟨length, active, seq, headers⟩ := moves_program log.advance entry
      refine ⟨length.trans (List.length_set ..), .inr ⟨active, seq⟩, fun i => ?_⟩
      rw [headers i, if_neg]
      intro same
      exact advance_active_ne ok (active.symm.trans same)
    · obtain ⟨length, active, seq, headers⟩ := moves_program log entry
      refine ⟨length, .inl ⟨active, seq⟩, fun i => ?_⟩
      rw [headers i, if_pos active]
  | purge offset key => exact purges offset key
  | confirmedPurge offset key => exact purges offset key

theorem seq_purgeAt (log : RecordLog) (offset : Nat) (key : Key) (fate : Fate) :
    (log.purgeAt offset key fate).2.seq = log.seq := by
  unfold RecordLog.purgeAt
  split
  · split
    · unfold RecordLog.purge
      split
      · rfl
      · split <;> rfl
    · rfl
  · rfl

theorem append_large {log : RecordLog} {entry : Entry} (large : entry.body.length > maxBody) (fate : Fate) :
    log.append entry fate = (false, log) := by
  unfold RecordLog.append
  rw [if_pos large]

theorem seq_append {log : RecordLog} {entry : Entry} (fits : entry.body.length ≤ maxBody) :
    (log.append entry .lands).2.seq = (log.landed entry).pageSeq := by
  unfold RecordLog.append landed
  rw [if_neg (Nat.not_lt.mpr fits)]
  by_cases full : log.Advances entry
  · rw [if_pos (show entry.stride > log.sectorRoom from full)]
    dsimp only
    rw [if_pos full]
    rfl
  · rw [if_neg (show ¬ entry.stride > log.sectorRoom from full)]
    dsimp only
    rw [if_neg full]
    rfl

theorem Moves.header {log log' : RecordLog} (moves : Moves log log') {i : Nat} {page : Page} {seq : Nat}
    (found : log'.region[i]? = some page) (header : page.seq = some seq) :
    ∃ page', (if log'.active = log.active then log else log.advance).region[i]? = some page' ∧
      page'.seq = some seq := by
  have same := moves.headers i
  rw [found, Option.bind_some, header] at same
  exact Option.bind_eq_some_iff.mp same.symm

/-- Every write that lands keeps the ring, as long as the page sequence does not wrap. -/
theorem Ring.pnPerform {log : RecordLog} (ring : log.Ring) (small : log.seq + 1 < 2 ^ 32) (op : FlushOp) :
    (log.pnPerform op .lands).2.Ring := by
  have moves := ring.toWellFormed.moves op
  obtain ⟨ok, effect⟩ := ring.toWellFormed.pnPerform op .lands
  have next := nextSeq_eq small
  refine ⟨ok, ?_, ?_, ?_⟩
  · rw [moves.length]
    rcases moves.head with ⟨active, seq⟩ | ⟨active, seq⟩
    · rw [active, seq]
      exact ring.head_index
    · rw [active, seq]
      change log.next = log.nextSeq % _
      rw [ring.next_eq, next]
  · intro i page seq found header
    obtain ⟨page', found', header'⟩ := moves.header found header
    rw [moves.length]
    rcases moves.head with ⟨active, same⟩ | ⟨active, same⟩
    · rw [if_pos active] at found'
      rw [same]
      exact ring.index i page' seq found' header'
    · rw [if_neg (by rw [active]; exact advance_active_ne ring.toWellFormed)] at found'
      have there := ring.advance_index small found' header'
      rw [same]
      rwa [advance, List.length_set] at there
  · have carried : (log.pnPerform op .lands).2.seq = log.seq → (log.performEffect op .lands).erased = none →
        (log.pnPerform op .lands).2.seq = 0 ∨
          ∃ record ∈ scan (log.pnPerform op .lands).2.region, record.pageSeq = (log.pnPerform op .lands).2.seq := by
      intro same kept
      rw [same]
      rcases ring.newest with zero | ⟨record, member, seq⟩
      · exact .inl zero
      · refine .inr ⟨_, (effect _).mpr (.inr ⟨record, member, ?_, rfl⟩), ?_⟩
        · rw [kept]
          exact fun same => Option.noConfusion rfl (heq_of_eq same)
        · split
          · exact seq
          · exact seq
    cases op with
    | append entry =>
      by_cases large : entry.body.length > maxBody
      · refine carried ?_ ?_
        · change (log.append entry .lands).2.seq = _
          rw [append_large large]
        · change (log.appendEffect entry .lands).erased = none
          unfold appendEffect
          rw [if_pos large]
          rfl
      · exact .inr ⟨log.landed entry, ring.mem_landed (Nat.not_lt.mp large),
          (seq_append (Nat.not_lt.mp large)).symm⟩
    | purge offset key => exact carried (seq_purgeAt ..) rfl
    | confirmedPurge offset key => exact carried (seq_purgeAt ..) rfl

theorem seq_pnPerform_le {log : RecordLog} (small : log.seq + 1 < 2 ^ 32) (op : FlushOp) :
    log.seq ≤ (log.pnPerform op .lands).2.seq ∧
      (log.pnPerform op .lands).2.seq ≤ log.seq + if op.entry.isSome then 1 else 0 := by
  cases op with
  | append entry =>
    change _ ≤ (log.append entry .lands).2.seq ∧ (log.append entry .lands).2.seq ≤ log.seq + 1
    by_cases large : entry.body.length > maxBody
    · rw [append_large large]
      exact ⟨Nat.le_refl _, Nat.le_succ _⟩
    · rw [seq_append (Nat.not_lt.mp large)]
      unfold landed
      dsimp only
      rw [nextSeq_eq small]
      split <;> omega
  | purge offset key =>
    change _ ≤ (log.purgeAt offset key .lands).2.seq ∧ (log.purgeAt offset key .lands).2.seq ≤ log.seq + 0
    rw [seq_purgeAt]
    exact ⟨Nat.le_refl _, Nat.le_refl _⟩
  | confirmedPurge offset key =>
    change _ ≤ (log.purgeAt offset key .lands).2.seq ∧ (log.purgeAt offset key .lands).2.seq ≤ log.seq + 0
    rw [seq_purgeAt]
    exact ⟨Nat.le_refl _, Nat.le_refl _⟩

theorem Ring.not_erased {log : RecordLog} (ring : log.Ring) (small : log.seq + 1 < 2 ^ 32) {op : FlushOp}
    {record : RawRecord} (member : record ∈ scan log.region)
    (recent : (log.pnPerform op .lands).2.seq < record.pageSeq + log.region.length) :
    (log.performEffect op .lands).erased ≠ some (record.offset / sectorSize) := by
  intro erased
  cases op with
  | append entry =>
    change (log.appendEffect entry .lands).erased = _ at erased
    unfold appendEffect at erased
    by_cases large : entry.body.length > maxBody
    · rw [if_pos large] at erased
      cases erased
    rw [if_neg large] at erased
    dsimp only at erased
    split at erased
    next full =>
      obtain ⟨place, below, lap⟩ := ring.record member
      have here := Option.some.inj erased
      rw [ring.next_eq, place] at here
      have moved : (log.pnPerform (.append entry) .lands).2.seq = log.seq + 1 := by
        change (log.append entry .lands).2.seq = _
        rw [seq_append (Nat.not_lt.mp large)]
        change (if log.Advances entry then log.nextSeq else log.seq) = _
        rw [if_pos full.1, nextSeq_eq small]
      rw [moved] at recent
      exact ring_apart (by omega) recent here.symm
    next => cases erased
  | purge offset key => cases erased
  | confirmedPurge offset key => cases erased

theorem Ring.live_kept {log : RecordLog} (ring : log.Ring) (small : log.seq + 1 < 2 ^ 32) {op : FlushOp}
    {record : RawRecord} (live : record.live = true) (member : record ∈ scan log.region)
    (other : op.target ≠ some (record.offset, record.key))
    (recent : (log.pnPerform op .lands).2.seq < record.pageSeq + log.region.length) :
    record ∈ scan (log.pnPerform op .lands).2.region := by
  obtain ⟨-, effect⟩ := ring.toWellFormed.pnPerform op .lands
  refine (effect.live_iff live).mpr (.inr ⟨member, ring.not_erased small member recent, ?_⟩)
  intro withdrawn
  cases op with
  | append entry =>
    change (log.appendEffect entry .lands).withdrawn = _ at withdrawn
    unfold appendEffect at withdrawn
    split at withdrawn <;> cases withdrawn
  | purge offset key => exact other withdrawn
  | confirmedPurge offset key => exact other withdrawn

/-- The number of appends among the writes. -/
def appendsOf (ops : List FlushOp) : Nat := ops.countP (fun op => op.entry.isSome)

theorem length_pnPerform {log : RecordLog} (ok : log.WellFormed) (op : FlushOp) :
    (log.pnPerform op .lands).2.region.length = log.region.length := (ok.moves op).length

theorem Ring.flushed {log : RecordLog} (ring : log.Ring) {ops : List FlushOp}
    (small : log.seq + appendsOf ops + 1 < 2 ^ 32) :
    (log.flushed ops).Ring ∧ log.seq ≤ (log.flushed ops).seq ∧
      (log.flushed ops).seq ≤ log.seq + appendsOf ops ∧
      (log.flushed ops).region.length = log.region.length := by
  induction ops generalizing log with
  | nil => exact ⟨ring, Nat.le_refl _, Nat.le_refl _, rfl⟩
  | cons op rest ih =>
    have count : appendsOf (op :: rest) = appendsOf rest + if op.entry.isSome then 1 else 0 :=
      List.countP_cons ..
    rw [count] at small ⊢
    have step : log.seq + 1 < 2 ^ 32 := by omega
    obtain ⟨above, below⟩ := seq_pnPerform_le step op
    obtain ⟨kept, above', below', length⟩ := ih (ring.pnPerform step op) (by omega)
    rw [flushed_cons]
    refine ⟨kept, by omega, by omega, length.trans (length_pnPerform ring.toWellFormed op)⟩

theorem Ring.live_flush_kept {log : RecordLog} (ring : log.Ring) {ops : List FlushOp}
    (small : log.seq + appendsOf ops + 1 < 2 ^ 32) {record : RawRecord} (live : record.live = true)
    (member : record ∈ scan log.region)
    (other : ∀ op ∈ ops, op.target ≠ some (record.offset, record.key))
    (recent : (log.flushed ops).seq < record.pageSeq + log.region.length) :
    record ∈ scan (log.flushed ops).region := by
  induction ops generalizing log with
  | nil => exact member
  | cons op rest ih =>
    have count : appendsOf (op :: rest) = appendsOf rest + if op.entry.isSome then 1 else 0 :=
      List.countP_cons ..
    rw [count] at small
    have step : log.seq + 1 < 2 ^ 32 := by omega
    obtain ⟨-, below⟩ := seq_pnPerform_le step op
    have ring' := ring.pnPerform step op
    have length := length_pnPerform ring.toWellFormed op
    have small' : (log.pnPerform op .lands).2.seq + appendsOf rest + 1 < 2 ^ 32 := by omega
    obtain ⟨-, above, -, -⟩ := ring'.flushed small'
    rw [flushed_cons] at recent ⊢
    obtain ⟨first, later⟩ := List.forall_mem_cons.mp other
    refine ih ring' small' ?_ later (by rw [length]; exact recent)
    exact ring.live_kept step live member first (Nat.lt_of_le_of_lt above recent)

theorem Ring.landed_apart {log : RecordLog} (ring : log.Ring) {record : RawRecord}
    (member : record ∈ scan log.region) {entry : Entry}
    (recent : log.Advances entry → log.seq + 1 < record.pageSeq + log.region.length) :
    record.offset ≠ (log.landed entry).offset := by
  have positive : 0 < sectorSize := by decide
  obtain ⟨place, below, -⟩ := ring.record member
  unfold landed
  dsimp only
  split
  next full =>
    intro same
    have page : record.offset / sectorSize = log.next := by
      rw [same, Nat.mul_comm, Nat.mul_add_div positive]
      exact Nat.add_zero _
    rw [place, ring.next_eq] at page
    exact ring_apart (by omega) (recent full) page
  next room =>
    intro same
    have bound := ring.cursor_le
    have inside : log.cursor < sectorSize := by
      have stride := stride_pos entry
      unfold Advances sectorRoom at room
      omega
    have page : record.offset / sectorSize = log.active := by
      rw [same, Nat.mul_comm, Nat.mul_add_div positive, Nat.div_eq_of_lt inside, Nat.add_zero]
    have off : record.offset % sectorSize = log.cursor := by
      rw [same, Nat.mul_comm, Nat.mul_add_mod, Nat.mod_eq_of_lt inside]
    obtain ⟨held, found, -, placed⟩ := ring.fitting.mem_scan.mp member
    obtain ⟨head, found', -, stop⟩ := ring.head
    rw [page, found', Option.some.injEq] at found
    subst found
    have bounds := placedFrom_bounds placed
    have stride := stride_pos record.toEntry
    unfold Page.stop at stop
    omega

theorem Ring.newestPage_eq {log : RecordLog} (ring : log.Ring) : newestPage log.region = log.seq := by
  have loop : ∀ (records : List RawRecord) (start : Nat),
      start ≤ records.foldl (fun page record => max page record.pageSeq) start ∧
      (∀ record ∈ records, record.pageSeq ≤
        records.foldl (fun page record => max page record.pageSeq) start) ∧
      ∀ bound, start ≤ bound → (∀ record ∈ records, record.pageSeq ≤ bound) →
        records.foldl (fun page record => max page record.pageSeq) start ≤ bound := by
    intro records
    induction records with
    | nil => exact fun start => ⟨Nat.le_refl _, nofun, fun bound le _ => le⟩
    | cons record rest ih =>
      intro start
      obtain ⟨from_, each, within⟩ := ih (max start record.pageSeq)
      refine ⟨Nat.le_trans (Nat.le_max_left _ _) from_, ?_, ?_⟩
      · exact List.forall_mem_cons.mpr ⟨Nat.le_trans (Nat.le_max_right _ _) from_, each⟩
      · intro bound low all
        obtain ⟨first, later⟩ := List.forall_mem_cons.mp all
        exact within bound (Nat.max_le.mpr ⟨low, first⟩) later
  obtain ⟨-, each, within⟩ := loop (scan log.region) 0
  apply Nat.le_antisymm
  · exact within log.seq (Nat.zero_le _) (fun record member => (ring.record member).2.1)
  · rcases ring.newest with zero | ⟨record, member, same⟩
    · rw [zero]
      exact Nat.zero_le _
    · rw [← same]
      exact each record member

end RecordLog

end Leviculum.Store
