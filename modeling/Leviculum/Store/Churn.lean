import Leviculum.Lib.Execution
import Leviculum.Store.Ring

/-! The operator lists in a log that reclaims its oldest page on every advance: the record-store
task rewrites a list before its page comes up. -/

namespace Leviculum.Store

open Propagation RecordLog Execution

/-- A write of the propagation store: no list is among its tags, and no list's key among its
purges. -/
abbrev StoreOp := { op : FlushOp // (∀ entry ∈ op.entry, ∀ list : BoardList, entry.tag ≠ list.tag) ∧
  ∀ target ∈ op.target, ∀ list : BoardList, target.2 ≠ list.key }

inductive Request where
  | pn (op : StoreOp)
  | write (list : BoardList) (hashes : List DestinationHash)
  | tick

/-- The record-store task: its log, and the page the lists were last checked against. -/
structure StoreTask where
  log : RecordLog
  listsCheckedAt : Nat

namespace StoreTask

/-- A task that has just mounted checks the lists once, whatever the page. -/
def mounted (log : RecordLog) : StoreTask := ⟨log, u32Max⟩

def serve (log : RecordLog) : Request → RecordLog
  | .pn op => (log.pnPerform op.val .lands).2
  | .write list hashes =>
    match boardListWriteOps log.region list hashes with
    | none => log
    | some ops => log.flushed ops
  | .tick => log

/-- One turn of the loop, every flash operation landing. -/
def turn (task : StoreTask) (request : Request) : StoreTask :=
  let log := serve task.log request
  if log.seq ≠ task.listsCheckedAt then ⟨log.flushed (boardListRefreshOps log.region), log.seq⟩
  else { task with log := log }

def step (task : StoreTask) (request : Request) : Option StoreTask := some (task.turn request)

/-- The page sequence stays below the point where it wraps. -/
def Unwrapped (task : StoreTask) (_ : Request) : Prop := task.log.seq + 9 < 2 ^ 32

instance (task : StoreTask) (request : Request) : Decidable (task.Unwrapped request) :=
  inferInstanceAs (Decidable (_ < _))

end StoreTask

def noted (list : BoardList) (last : Option (List DestinationHash)) : Request → Option (List DestinationHash)
  | .write list' hashes => if list' = list ∧ hashes.length ≤ boardListMax then some hashes else last
  | .pn _ => last
  | .tick => last

/-- Every live copy says the list, stands on a page the check counts as fresh at `bound`, and
there is one. -/
structure Held (log : RecordLog) (list : BoardList) (hashes : List DestinationHash) (bound : Nat) : Prop where
  copy : ∃ copy, copy ∈ boardListCopies log.region list
  reads : ∀ copy ∈ boardListCopies log.region list, hashesOf boardListMax copy.body = hashes
  fresh : ∀ copy ∈ boardListCopies log.region list, bound < copy.pageSeq + log.region.length / 2

/-- What the log keeps of a list: the one written last, or no copy at all. -/
def Keeps (log : RecordLog) (list : BoardList) (last : Option (List DestinationHash)) (bound : Nat) : Prop :=
  last.elim (∀ copy, copy ∉ boardListCopies log.region list) (fun hashes => Held log list hashes bound)

theorem Held.read {log : RecordLog} {list : BoardList} {hashes : List DestinationHash} {bound : Nat}
    (held : Held log list hashes bound) : readBoardList log.region list = hashes := by
  obtain ⟨copy, member⟩ := held.copy
  rcases readBoardList_cases log.region list with ⟨none, -⟩ | ⟨newest, stands, read⟩
  · rw [none] at member
    cases member
  · rw [read]
    exact held.reads newest stands

theorem copies_unchanged {log : RecordLog} (ring : log.Ring) {ops : List FlushOp} {list : BoardList}
    (small : log.seq + appendsOf ops + 1 < 2 ^ 32)
    (appends : ∀ op ∈ ops, ∀ entry ∈ op.entry, entry.tag ≠ list.tag)
    (purges : ∀ op ∈ ops, ∀ target ∈ op.target, target.2 ≠ list.key)
    (recent : ∀ copy ∈ boardListCopies log.region list,
      log.seq + appendsOf ops < copy.pageSeq + log.region.length) (copy : RawRecord) :
    copy ∈ boardListCopies (log.flushed ops).region list ↔ copy ∈ boardListCopies log.region list := by
  constructor
  · intro member
    obtain ⟨stands, live, tag, key⟩ := mem_boardListCopies.mp member
    rcases ring.toWellFormed.live_flushed live stands with ⟨op, inside, written⟩ | ⟨old, -⟩
    · exact absurd tag (appends op inside _ written)
    · exact mem_boardListCopies.mpr ⟨old, live, tag, key⟩
  · intro member
    obtain ⟨stands, live, tag, key⟩ := mem_boardListCopies.mp member
    have bound := (ring.flushed small).2.2.1
    refine mem_boardListCopies.mpr ⟨ring.live_flush_kept small live stands ?_ ?_, live, tag, key⟩
    · intro op inside aimed
      exact purges op inside _ aimed key
    · exact Nat.lt_of_le_of_lt bound (recent copy member)

theorem copies_rewritten {log : RecordLog} (ring : log.Ring) {list : BoardList} {body : Bytes}
    {old : List RawRecord} (fits : body.length ≤ maxBody)
    (same : ∀ copy, copy ∈ boardListCopies log.region list ↔ copy ∈ old)
    (recent : ∀ copy ∈ boardListCopies log.region list, log.seq + 1 < copy.pageSeq + log.region.length)
    (copy : RawRecord) :
    copy ∈ boardListCopies (log.flushed (.append ⟨list.key, 0, list.tag, body⟩ ::
        old.map (fun copy => .purge copy.offset list.key))).region list ↔
      copy = log.landed ⟨list.key, 0, list.tag, body⟩ := by
  have purges : ∀ op ∈ old.map (fun copy => FlushOp.purge copy.offset list.key), op.entry = none := by
    intro op member
    obtain ⟨held, -, rfl⟩ := List.mem_map.mp member
    rfl
  obtain ⟨ok, effect⟩ := ring.toWellFormed.pnPerform (.append ⟨list.key, 0, list.tag, body⟩) .lands
  rw [mem_boardListCopies, flushed_cons]
  constructor
  · rintro ⟨stands, live, tag, key⟩
    obtain ⟨after, untouched⟩ := (ok.live_purges purges live).mp stands
    rcases (effect.live_iff live).mp after with added | ⟨before, -, -⟩
    · obtain ⟨-, entry, written, rfl⟩ := performEffect_added added
      obtain rfl := Option.some.inj written
      rfl
    · have held := (same copy).mp (mem_boardListCopies.mpr ⟨before, live, tag, key⟩)
      exact absurd (by rw [key]; rfl) (untouched _ (List.mem_map.mpr ⟨copy, held, rfl⟩))
  · rintro rfl
    refine ⟨(ok.live_purges purges rfl).mpr ⟨ring.mem_landed fits, ?_⟩, rfl, rfl, rfl⟩
    intro op member aimed
    obtain ⟨held, inside, rfl⟩ := List.mem_map.mp member
    have stands := (same held).mpr inside
    rw [FlushOp.target, Option.some.injEq, Prod.mk.injEq] at aimed
    exact ring.landed_apart (mem_boardListCopies.mp stands).1 (fun _ => recent held stands) aimed.1

theorem Keeps.of_copies {log log' : RecordLog} {list : BoardList} {last : Option (List DestinationHash)}
    {bound : Nat} (keeps : Keeps log list last bound)
    (same : ∀ copy, copy ∈ boardListCopies log'.region list ↔ copy ∈ boardListCopies log.region list)
    (length : log'.region.length = log.region.length) : Keeps log' list last bound := by
  cases last with
  | none => exact fun copy member => keeps copy ((same copy).mp member)
  | some hashes =>
    have held : Held log list hashes bound := keeps
    obtain ⟨copy, member⟩ := held.copy
    refine ⟨⟨copy, (same copy).mpr member⟩, fun copy member => held.reads copy ((same copy).mp member), ?_⟩
    intro copy member
    rw [length]
    exact held.fresh copy ((same copy).mp member)

theorem Keeps.recent {log : RecordLog} {list : BoardList} {last : Option (List DestinationHash)} {bound : Nat}
    (keeps : Keeps log list last bound) {copy : RawRecord} (member : copy ∈ boardListCopies log.region list) :
    bound < copy.pageSeq + log.region.length / 2 := by
  cases last with
  | none => exact absurd member (keeps copy)
  | some hashes => exact Held.fresh keeps copy member

theorem appendsOf_rewrite (list : BoardList) (entry : Entry) (old : List RawRecord) :
    appendsOf (.append entry :: old.map (fun copy => .purge copy.offset list.key)) = 1 := by
  have none : (old.map (fun copy => FlushOp.purge copy.offset list.key)).countP
      (fun op => op.entry.isSome) = 0 := by
    rw [List.countP_eq_zero]
    intro op member
    obtain ⟨copy, -, rfl⟩ := List.mem_map.mp member
    nofun
  unfold appendsOf
  rw [List.countP_cons, none]
  rfl

section Rewriting

variable {log : RecordLog} {list : BoardList} {body : Bytes} {old : List RawRecord}

theorem copies_other (ring : log.Ring) (small : log.seq + 2 < 2 ^ 32) {list' : BoardList}
    (apart : list' ≠ list)
    (recent : ∀ copy ∈ boardListCopies log.region list', log.seq + 1 < copy.pageSeq + log.region.length)
    (copy : RawRecord) :
    copy ∈ boardListCopies (log.flushed (.append ⟨list.key, 0, list.tag, body⟩ ::
        old.map (fun copy => .purge copy.offset list.key))).region list' ↔
      copy ∈ boardListCopies log.region list' := by
  have count := appendsOf_rewrite list ⟨list.key, 0, list.tag, body⟩ old
  apply copies_unchanged ring
  · rw [count]
    omega
  · intro op member entry written tag
    rcases List.mem_cons.mp member with rfl | later
    · obtain rfl := Option.some.inj written
      exact apart (BoardList.tag_injective tag).symm
    · obtain ⟨copy, -, rfl⟩ := List.mem_map.mp later
      cases written
  · intro op member target aimed key
    rcases List.mem_cons.mp member with rfl | later
    · cases aimed
    · obtain ⟨copy, -, rfl⟩ := List.mem_map.mp later
      obtain rfl := Option.some.inj aimed
      exact apart (BoardList.key_injective key).symm
  · rw [count]
    exact recent

theorem held_rewritten (ring : log.Ring) (small : log.seq + 2 < 2 ^ 32) (fits : body.length ≤ maxBody)
    (same : ∀ copy, copy ∈ boardListCopies log.region list ↔ copy ∈ old)
    (recent : ∀ copy ∈ boardListCopies log.region list, log.seq + 1 < copy.pageSeq + log.region.length)
    {bound : Nat} (reached : bound ≤ log.seq) :
    Held (log.flushed (.append ⟨list.key, 0, list.tag, body⟩ ::
      old.map (fun copy => .purge copy.offset list.key))) list (hashesOf boardListMax body) bound := by
  have only := copies_rewritten ring fits same recent
  have few : log.seq + appendsOf (.append ⟨list.key, 0, list.tag, body⟩ ::
      old.map (fun copy => .purge copy.offset list.key)) + 1 < 2 ^ 32 := by
    rw [appendsOf_rewrite]
    exact small
  have length := (ring.flushed few).2.2.2
  have pages := ring.pages
  refine ⟨⟨_, (only _).mpr rfl⟩, ?_, ?_⟩
  · intro copy member
    rw [(only copy).mp member]
    rfl
  · intro copy member
    rw [(only copy).mp member, length]
    change bound < (if log.Advances _ then log.nextSeq else log.seq) + _
    rw [nextSeq_eq (by omega)]
    split <;> omega

end Rewriting

theorem length_flatMap_hashes (hashes : List DestinationHash) :
    (hashes.flatMap Subtype.val).length = 16 * hashes.length := by
  induction hashes with
  | nil => rfl
  | cons hash rest ih =>
    rw [List.flatMap_cons, List.length_append, hash.property, ih, List.length_cons]
    omega

/-- Between a check at page `base` and the next one the log moves by three pages at most. -/
structure Current (log : RecordLog) (last : BoardList → Option (List DestinationHash)) (base : Nat) (slack : Nat) :
    Prop where
  ring : log.Ring
  pages : 16 ≤ log.region.length
  above : base ≤ log.seq
  below : log.seq ≤ base + slack
  lists : ∀ list, Keeps log list (last list) base

/-- A request moves the log by one page at most, and is noted. -/
theorem Current.serve {log : RecordLog} {last : BoardList → Option (List DestinationHash)} {base : Nat}
    (current : Current log last base 3) (small : log.seq + 5 < 2 ^ 32) (request : Request) :
    Current (StoreTask.serve log request) (fun list => noted list (last list) request) base 4 := by
  obtain ⟨ring, pages, above, below, lists⟩ := current
  cases request with
  | tick => exact ⟨ring, pages, above, by simp only [StoreTask.serve]; omega, lists⟩
  | pn op =>
    have count : appendsOf [op.val] ≤ 1 := List.countP_le_length
    have few : log.seq + appendsOf [op.val] + 1 < 2 ^ 32 := by omega
    obtain ⟨ring', above', below', length⟩ := ring.flushed few
    refine ⟨ring', ?_, Nat.le_trans above above', ?_, ?_⟩
    · change 16 ≤ (log.flushed [op.val]).region.length
      rw [length]
      exact pages
    · change (log.flushed [op.val]).seq ≤ _
      omega
    · intro list
      refine (lists list).of_copies (copies_unchanged ring few ?_ ?_ ?_) length
      · intro op' member entry written
        obtain rfl := List.mem_singleton.mp member
        exact op.property.1 entry written list
      · intro op' member target aimed
        obtain rfl := List.mem_singleton.mp member
        exact op.property.2 target aimed list
      · intro copy member
        have fresh := (lists list).recent member
        omega
  | write list hashes =>
    unfold StoreTask.serve boardListWriteOps
    dsimp only
    by_cases long : hashes.length > boardListMax
    · rw [if_pos long]
      refine ⟨ring, pages, above, by dsimp only; omega, ?_⟩
      intro list'
      have refused : noted list' (last list') (.write list hashes) = last list' :=
        if_neg (fun both => absurd both.2 (Nat.not_le.mpr long))
      rw [refused]
      exact lists list'
    · rw [if_neg long]
      have fits : (hashes.flatMap Subtype.val).length ≤ maxBody := by
        rw [length_flatMap_hashes]
        have limit : boardListMax = 16 := rfl
        have room : maxBody = 4042 := rfl
        omega
      have count := appendsOf_rewrite list ⟨list.key, 0, list.tag, hashes.flatMap Subtype.val⟩
        (boardListCopies log.region list)
      have few : log.seq + appendsOf (boardListOps log.region list (hashes.flatMap Subtype.val)) + 1 < 2 ^ 32 := by
        unfold boardListOps
        rw [count]
        omega
      obtain ⟨ring', above', below', length⟩ := ring.flushed few
      have one : appendsOf (boardListOps log.region list (hashes.flatMap Subtype.val)) = 1 := count
      refine ⟨ring', ?_, Nat.le_trans above above', ?_, ?_⟩
      · dsimp only
        rw [length]
        exact pages
      · dsimp only
        omega
      · intro list'
        by_cases here : list = list'
        · subst here
          have written : noted list (last list) (.write list hashes) = some hashes :=
            if_pos ⟨rfl, Nat.not_lt.mp long⟩
          rw [written]
          have held := held_rewritten ring (by omega) fits (fun _ => Iff.rfl) (fun copy member => by
            have fresh := (lists list).recent member
            omega) above
          rw [hashesOf_written (Nat.not_lt.mp long)] at held
          exact held
        · have unnoted : noted list' (last list') (.write list hashes) = last list' :=
            if_neg (fun both => here both.1)
          rw [unnoted]
          refine (lists list').of_copies
            (copies_other ring (by omega) (fun same => here same.symm) ?_) length
          intro copy member
          have fresh := (lists list').recent member
          omega

theorem keeps_unrefreshed {log : RecordLog} (ring : log.Ring) {list : BoardList}
    {last : Option (List DestinationHash)} {base : Nat} (keeps : Keeps log list last base)
    (idle : boardListRefresh log.region list = []) : Keeps log list last log.seq := by
  cases last with
  | none => exact keeps
  | some hashes =>
    have held : Held log list hashes base := keeps
    refine ⟨held.copy, held.reads, ?_⟩
    unfold boardListRefresh at idle
    split at idle
    next none =>
      obtain ⟨copy, member⟩ := held.copy
      rw [newestOf_eq_none.mp none] at member
      cases member
    next newest found =>
      split at idle
      next fresh =>
        obtain ⟨young, single⟩ := fresh
        rw [ring.newestPage_eq] at young
        obtain ⟨only, alone⟩ := List.length_eq_one_iff.mp single
        have newest' := newestOf_mem found
        rw [alone, List.mem_singleton] at newest'
        intro copy member
        have below := (ring.record (mem_boardListCopies.mp member).1).2.1
        rw [alone, List.mem_singleton] at member
        subst member newest'
        omega
      next => cases idle

/-- The refresh of some of the lists, planned on the region of `log` and run from a later log. -/
theorem refresh_keeps {log : RecordLog} {last : BoardList → Option (List DestinationHash)} {base : Nat}
    (current : Current log last base 4) (small : log.seq + 4 < 2 ^ 32) (lists : List BoardList)
    (distinct : lists.Nodup) {later : RecordLog} (ring : later.Ring)
    (length : later.region.length = log.region.length) (above : log.seq ≤ later.seq)
    (below : later.seq + lists.length ≤ log.seq + 3)
    (waiting : ∀ list ∈ lists, ∀ copy,
      copy ∈ boardListCopies later.region list ↔ copy ∈ boardListCopies log.region list)
    (done : ∀ list, list ∉ lists → Keeps later list (last list) log.seq) :
    Current (later.flushed (lists.flatMap (boardListRefresh log.region))) last log.seq 3 := by
  have pages := current.pages
  have behind := current.below
  induction lists generalizing later with
  | nil => exact ⟨ring, length ▸ pages, above, below, fun list => done list List.not_mem_nil⟩
  | cons list rest ih =>
    obtain ⟨fresh, distinct'⟩ := List.nodup_cons.mp distinct
    rw [List.length_cons] at below
    rw [List.flatMap_cons, flushed_append]
    cases plan : boardListRefresh log.region list with
    | nil =>
      rw [flushed_nil]
      refine ih distinct' ring length above (by omega)
        (fun other member => waiting other (List.mem_cons_of_mem _ member)) ?_
      intro other outside
      by_cases here : other = list
      · subst here
        exact (keeps_unrefreshed current.ring (current.lists other) plan).of_copies
          (waiting other List.mem_cons_self) length
      · exact done other (fun member => (List.mem_cons.mp member).elim here outside)
    | cons op ops =>
      obtain ⟨newest, member, same⟩ : ∃ newest ∈ boardListCopies log.region list,
          op :: ops = boardListOps log.region list newest.body := by
        unfold boardListRefresh at plan
        split at plan
        next => cases plan
        next newest found =>
          split at plan
          next => cases plan
          next => exact ⟨newest, newestOf_mem found, plan.symm⟩
      rw [same]
      have fits := body_le_maxBody current.ring.toWellFormed (mem_boardListCopies.mp member).1
      have count : appendsOf (boardListOps log.region list newest.body) = 1 :=
        appendsOf_rewrite list _ (boardListCopies log.region list)
      obtain ⟨ring', above', below', length'⟩ := ring.flushed
        (show later.seq + appendsOf (boardListOps log.region list newest.body) + 1 < 2 ^ 32 by omega)
      have recent : ∀ other, ∀ copy ∈ boardListCopies log.region other,
          later.seq + 1 < copy.pageSeq + later.region.length := by
        intro other copy inside
        have young := (current.lists other).recent inside
        rw [length]
        omega
      refine ih distinct' ring' (length'.trans length) (Nat.le_trans above above') (by omega) ?_ ?_
      · intro other inside copy
        have apart : other ≠ list := fun same => fresh (same ▸ inside)
        have before := waiting other (List.mem_cons_of_mem _ inside)
        exact (copies_other ring (by omega) apart
          (fun copy stands => recent other copy ((before copy).mp stands)) copy).trans (before copy)
      · intro other outside
        by_cases here : other = list
        · subst here
          have held := held_rewritten ring (by omega) fits (waiting other List.mem_cons_self)
            (fun copy stands => recent other copy ((waiting other List.mem_cons_self copy).mp stands)) above
          have noted' : last other = some (hashesOf boardListMax newest.body) := by
            have keeps := current.lists other
            cases written : last other with
            | none =>
              rw [written] at keeps
              exact absurd member (keeps newest)
            | some hashes =>
              rw [written] at keeps
              rw [Held.reads keeps newest member]
          rw [noted']
          exact held
        · have kept := done other (fun inside => (List.mem_cons.mp inside).elim here outside)
          refine kept.of_copies (copies_other ring (by omega) here ?_) length'
          intro copy stands
          have young := kept.recent stands
          omega

/-- What the task's loop keeps from one request to the next. -/
def StoreTask.Sound (task : StoreTask) (last : BoardList → Option (List DestinationHash)) : Prop :=
  ∃ base, (task.listsCheckedAt = base ∨ task.listsCheckedAt = u32Max) ∧ Current task.log last base 3

theorem StoreTask.Sound.turn {task : StoreTask} {last : BoardList → Option (List DestinationHash)}
    (sound : task.Sound last) (request : Request) (small : task.Unwrapped request) :
    (task.turn request).Sound (fun list => noted list (last list) request) := by
  obtain ⟨base, checked, current⟩ := sound
  have small' : task.log.seq + 9 < 2 ^ 32 := small
  have served := current.serve (by omega) request
  have behind := served.below
  have start := current.above
  unfold StoreTask.turn
  dsimp only
  by_cases moved : (serve task.log request).seq ≠ task.listsCheckedAt
  · rw [if_pos moved]
    refine ⟨_, .inl rfl, ?_⟩
    exact refresh_keeps served (by omega) BoardList.all (by decide) served.ring rfl (Nat.le_refl _)
      (Nat.le_refl _) (fun _ _ _ => Iff.rfl) (fun list outside => absurd (by cases list <;> decide) outside)
  · rw [if_neg moved]
    have same : (serve task.log request).seq = task.listsCheckedAt := Decidable.not_not.mp moved
    have unmarked : task.listsCheckedAt ≠ u32Max := by
      intro marked
      have top : u32Max = 2 ^ 32 - 1 := rfl
      have reach : (serve task.log request).seq ≤ base + 4 := behind
      omega
    have exactly : (serve task.log request).seq = base := same.trans (checked.resolve_right unmarked)
    exact ⟨base, checked, served.ring, served.pages, served.above, by dsimp only; omega, served.lists⟩

theorem StoreTask.Sound.run {requests : List Request} {task task' : StoreTask}
    {last : BoardList → Option (List DestinationHash)} (sound : task.Sound last)
    (unwrapped : Along StoreTask.step StoreTask.Unwrapped task requests)
    (run : exec StoreTask.step task requests = some task') :
    task'.Sound (fun list => requests.foldl (noted list) (last list)) := by
  induction requests generalizing task last with
  | nil =>
    obtain rfl := Option.some.inj run
    exact sound
  | cons request rest ih =>
    obtain ⟨middle, stepped, run'⟩ := (exec_cons _ _ _ _ _).mp run
    obtain rfl := Option.some.inj stepped
    exact ih (sound.turn request unwrapped.1) (unwrapped.2 _ rfl) run'

end Leviculum.Store
