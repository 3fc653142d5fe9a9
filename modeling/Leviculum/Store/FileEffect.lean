import Leviculum.Store.FileStore

/-! What the calls of a file store do, one lemma for each. -/

namespace Leviculum.Store

open Leviculum.Propagation

/-- What an answer leaves of a writer, whatever becomes of the message. -/
structure Answered (writer : Writer) (ticket : Nat) (writer' : Writer) : Prop where
  issued : writer'.issued = writer.issued
  alive : writer'.alive = writer.alive
  shorter : writer'.tickets.Sublist writer.tickets
  others : ∀ other, other ≠ ticket → writer'.tickets.lookup other = writer.tickets.lookup other

inductive Settled (store : FilePropagationStore) (answer : Nat × Bool) (store' : FilePropagationStore) : Prop
  | direct (none_ : store.writer = none) (same : store' = store)
  | stale (writer writer' : Writer) (was : store.writer = some writer)
      (shape : store' = { store with writer := some writer' })
      (queued : writer'.queued = writer.queued) (answered : Answered writer answer.1 writer')
      (late : ∀ id queued, writer.tickets.lookup answer.1 = some id → writer.queued.lookup id = some queued →
        queued.ticket ≠ answer.1)
  | confirmed (writer writer' : Writer) (id : TransientId) (q : Queued) (was : store.writer = some writer)
      (good : answer.2 = true) (found : writer.queued.lookup id = some q) (ticket : q.ticket = answer.1)
      (shape : store' = { store with index := store.index.insert id q.entry, writer := some writer' })
      (queued : writer'.queued = writer.queued.erase id) (answered : Answered writer answer.1 writer')
  | refused (writer writer' : Writer) (id : TransientId) (q : Queued) (was : store.writer = some writer)
      (bad : answer.2 = false) (found : writer.queued.lookup id = some q) (ticket : q.ticket = answer.1)
      (shape : store' = { store with used := store.used - q.entry.info.size, writer := some writer' })
      (queued : writer'.queued = writer.queued.erase id) (answered : Answered writer answer.1 writer')

theorem lookup_filter_key {V : Type*} (rows : List (Nat × V)) {key other : Nat} (apart : other ≠ key) :
    (rows.filter fun row => row.1 ≠ key).lookup other = rows.lookup other := by
  induction rows with
  | nil => rfl
  | cons row rest ih =>
    obtain ⟨k, v⟩ := row
    by_cases here : k = key
    · subst here
      rw [List.filter_cons_of_neg (by simp), ih, List.lookup_cons, beq_false_of_ne apart]
    · rw [List.filter_cons_of_pos (by simpa using here), List.lookup_cons, List.lookup_cons, ih]

theorem settle_settled (store : FilePropagationStore) (answer : Nat × Bool) :
    Settled store answer (store.settle answer) := by
  unfold FilePropagationStore.settle
  split
  next none_ => exact .direct none_ rfl
  next writer was =>
    dsimp only
    split
    next unknown =>
      refine .stale writer _ was rfl rfl ⟨rfl, rfl, .refl _, fun _ _ => rfl⟩ ?_
      intro id queued known
      rw [unknown] at known
      cases known
    next id known =>
      have answered : ∀ through queued failed, Answered writer answer.1 { writer with
          through := through
          tickets := writer.tickets.filter fun row => row.1 ≠ answer.1
          queued := queued
          failed := failed } := fun _ _ _ =>
        ⟨rfl, rfl, List.filter_sublist, fun _ apart => lookup_filter_key writer.tickets apart⟩
      split
      next absent =>
        refine .stale writer _ was rfl rfl (answered _ _ _) ?_
        intro other queued here found
        cases known.symm.trans here
        rw [absent] at found
        cases found
      next q found =>
        split
        next apart =>
          refine .stale writer _ was rfl rfl (answered _ _ _) ?_
          intro other queued here found'
          cases known.symm.trans here
          cases found.symm.trans found'
          exact apart
        next same =>
          have ticket : q.ticket = answer.1 := Classical.not_not.mp same
          split
          next good => exact .confirmed writer _ id q was good found ticket rfl rfl (answered _ _ _)
          next bad =>
            exact .refused writer _ id q was (Bool.eq_false_iff.mpr bad) found ticket rfl rfl (answered _ _ _)

theorem collect_induction {P : FilePropagationStore → Prop} {store : FilePropagationStore} {done : List (Nat × Bool)}
    (start : P store) (kept : ∀ store answer, P store → P (store.settle answer))
    (closed : ∀ store through, P store → P (store.closeThrough through)) : P (store.collect done) := by
  have settled : ∀ (answers : List (Nat × Bool)) store, P store → P (answers.foldl FilePropagationStore.settle store) := by
    intro answers
    induction answers with
    | nil => exact fun _ now => now
    | cons answer rest ih => exact fun store now => ih _ (kept store answer now)
  unfold FilePropagationStore.collect
  dsimp only
  split
  · exact settled done store start
  · unfold FilePropagationStore.abandon
    split
    · exact settled done store start
    · exact closed _ _ (settled _ _ (settled done store start))

theorem queued_of_writer {store : FilePropagationStore} {writer : Writer} (was : store.writer = some writer) :
    store.queued = writer.queued := by
  rw [FilePropagationStore.queued, was]
  rfl

theorem queued_direct {store : FilePropagationStore} (none_ : store.writer = none) : store.queued = ∅ := by
  rw [FilePropagationStore.queued, none_]
  rfl

theorem queued_closeThrough (store : FilePropagationStore) (through : Nat) :
    (store.closeThrough through).queued = store.queued := by
  unfold FilePropagationStore.closeThrough FilePropagationStore.queued
  cases store.writer with
  | none => rfl
  | some writer => rfl

/-- An append that returns: refused, failed, written, or handed to the writer. -/
inductive Appended (h : Host) (store : FilePropagationStore) (a : Append) (outcome : WriteOutcome) (removed : Bool) :
    Except StorageError Unit → Host → Prop
  | short (error : StorageError) : Appended h store a outcome removed (.error error) h
  | refused (error : StorageError) :
      Appended h store a outcome removed (.error error) { h with store := some (h.collected store), done := [] }
  | direct (synced : Bool) (placed : outcome = .placed synced) (direct : (h.collected store).writer = none)
      (admitted : (h.collected store).admits a = .ok ()) (long : minBodyLen ≤ a.body.length) :
      Appended h store a outcome removed (.ok ())
        { h with
          store := some ((h.collected store).appended a)
          done := []
          folder := h.folder.runAll ((h.collected store).appendSteps a synced removed) }
  | behind (writer : Writer) (was : (h.collected store).writer = some writer) (alive : writer.alive = true)
      (admitted : (h.collected store).admits a = .ok ()) (long : minBodyLen ≤ a.body.length) :
      Appended h store a outcome removed (.ok ())
        { h with
          store := some ((h.collected store).enqueue writer a).1
          done := []
          jobs := h.jobs ++ [((h.collected store).enqueue writer a).2] }

theorem append_appended (h : Host) (store : FilePropagationStore) (a : Append) (outcome : WriteOutcome) (removed : Bool) :
    Appended h store a outcome removed (h.append store a outcome removed).1 (h.append store a outcome removed).2 := by
  unfold Host.append
  split
  · exact .short .corrupt
  next short =>
    have long : minBodyLen ≤ a.body.length := Nat.le_of_not_lt short
    dsimp only
    split
    next error _ => exact .refused error
    next admitted =>
      split
      next writer was =>
        split
        next alive => exact .behind writer was alive admitted long
        next => exact .refused .io
      next direct =>
        split
        · exact .refused .io
        next synced => exact .direct synced rfl direct admitted long

/-- The message a purge takes out of the store. -/
inductive Forgotten (store : FilePropagationStore) (id : TransientId) : FileName → FilePropagationStore → Prop
  | queued (writer : Writer) (q : Queued) (was : store.writer = some writer) (found : writer.queued.lookup id = some q) :
      Forgotten store id q.entry.path
        { store with
          writer := some { writer with queued := writer.queued.erase id }
          used := store.used - q.entry.info.size }
  | indexed (entry : IndexEntry) (absent : store.queued.lookup id = none)
      (found : store.index.lookup id = some entry) :
      Forgotten store id entry.path
        { store with index := store.index.erase id, used := store.used - entry.info.size }

theorem forget_forgotten {store store' : FilePropagationStore} {id : TransientId} {path : FileName}
    (forgot : store.forget id = some (path, store')) : Forgotten store id path store' := by
  unfold FilePropagationStore.forget at forgot
  split at forgot
  next writer q both =>
    obtain ⟨_, was, inside⟩ := Option.bind_eq_some_iff.mp both
    obtain ⟨_, found, same⟩ := Option.map_eq_some_iff.mp inside
    cases same
    cases forgot
    exact .queued writer q was found
  next neither =>
    obtain ⟨entry, found, same⟩ := Option.map_eq_some_iff.mp forgot
    cases same
    refine .indexed entry ?_ found
    cases was : store.writer with
    | none => rw [queued_direct was, AList.lookup_empty]
    | some writer =>
      rw [queued_of_writer was]
      rw [was, Option.bind_some, Option.map_eq_none_iff] at neither
      exact neither

/-- A re-pricing that returns: the message is absent, it failed, or its file was renamed. -/
inductive Repriced (h : Host) (store : FilePropagationStore) (id : TransientId) (value : UInt8) (synced : Bool) :
    Host → Prop
  | left : Repriced h store id value synced { h with store := some (h.collected store).report.2, done := [] }
  | renamed (entry : IndexEntry) (body : Bytes) (found : (h.collected store).report.2.index.lookup id = some entry)
      (there : h.folder.live.lookup entry.path = some body) :
      Repriced h store id value synced
        { h with
          store := some ((h.collected store).report.2.repriced entry value)
          done := []
          folder := h.folder.runAll (FilePropagationStore.repriceSteps entry value body synced) }

theorem setStampValue_repriced (h : Host) (store : FilePropagationStore) (id : TransientId) (value : UInt8)
    (renamed synced : Bool) : Repriced h store id value synced (h.setStampValue store id value renamed synced).2 := by
  unfold Host.setStampValue
  dsimp only
  split
  · exact .left
  next entry found =>
    split
    · exact .left
    next body there =>
      split
      · exact .renamed entry body found there
      · exact .left

theorem report_fields (store : FilePropagationStore) :
    store.report.2.index = store.index ∧ store.report.2.lastSequence = store.lastSequence ∧
      store.report.2.used = store.used ∧ store.report.2.capacity = store.capacity ∧
      store.report.2.queued = store.queued := by
  unfold FilePropagationStore.report
  split
  next writer was => exact ⟨rfl, rfl, rfl, rfl, by rw [queued_of_writer was]; rfl⟩
  · exact ⟨rfl, rfl, rfl, rfl, rfl⟩

inductive Stepped (h : Host) : Host.Event → Host → Prop
  | opened (capacity : Nat) (listing : List MessageFile) (renamed : TransientId → Bool) (closed : h.store = none)
      (listed : listing.Perm h.folder.live.entries) :
      Stepped h (.open capacity listing renamed)
        { h with
          store := some (FilePropagationStore.openWith capacity listing h.folder.live renamed).1
          folder := h.folder.runAll (FilePropagationStore.openWith capacity listing h.folder.live renamed).2 }
  | began (store : FilePropagationStore) (was : h.store = some store) :
      Stepped h .writeBehind { h with store := some store.writeBehind }
  | appended (a : Append) (outcome : WriteOutcome) (removed : Bool) (store : FilePropagationStore) (was : h.store = some store)
      (result : Except StorageError Unit) (h' : Host) (done : Appended h store a outcome removed result h')
      (reply : (h.append store a outcome removed).1 = result) :
      Stepped h (.append a outcome removed) h'
  | unknown (id : TransientId) (removed : Bool) : Stepped h (.purge id removed) h
  | purgedBehind (id : TransientId) (removed : Bool) (store store' : FilePropagationStore) (path : FileName)
      (was : h.store = some store) (forgot : Forgotten store id path store') (behind : store'.writer.any Writer.alive = true) :
      Stepped h (.purge id removed) { h with store := some store', jobs := h.jobs ++ [.remove path] }
  | purged (id : TransientId) (store store' : FilePropagationStore) (path : FileName)
      (was : h.store = some store) (forgot : Forgotten store id path store') (direct : store'.writer.any Writer.alive = false) :
      Stepped h (.purge id true) { h with store := some store', folder := h.folder.change (.unlink path) }
  | purgeFailed (id : TransientId) (store store' : FilePropagationStore) (path : FileName)
      (was : h.store = some store) (forgot : Forgotten store id path store') (direct : store'.writer.any Writer.alive = false) :
      Stepped h (.purge id false) { h with store := some store' }
  | repriced (id : TransientId) (value : UInt8) (renamed synced : Bool) (store : FilePropagationStore)
      (was : h.store = some store) (quiet : h.jobs.any Host.writing = false) (h' : Host)
      (done : Repriced h store id value synced h') :
      Stepped h (.setStampValue id value renamed synced) h'
  | settled (store : FilePropagationStore) (was : h.store = some store) :
      Stepped h .settleWrites { h with store := some (h.collected store).report.2, done := [] }
  | removal (outcome : WriteOutcome) (removed : Bool) (path : FileName) (rest : List Job)
      (next : h.jobs = .remove path :: rest) :
      Stepped h (.work outcome removed)
        { h with jobs := rest, folder := h.folder.runAll ((Job.remove path).steps false removed) }
  | writeFailed (removed : Bool) (ticket : Nat) (path : FileName) (body : Bytes) (supersedes : Option FileName)
      (rest : List Job) (next : h.jobs = .write ticket path body supersedes :: rest) :
      Stepped h (.work .failed removed) { h with jobs := rest, done := h.done ++ [(ticket, false)] }
  | written (synced removed : Bool) (ticket : Nat) (path : FileName) (body : Bytes) (supersedes : Option FileName)
      (rest : List Job) (next : h.jobs = .write ticket path body supersedes :: rest) :
      Stepped h (.work (.placed synced) removed)
        { h with
          jobs := rest
          done := h.done ++ [(ticket, true)]
          folder := h.folder.runAll ((Job.write ticket path body supersedes).steps synced removed) }
  | died (count : Nat) (store : FilePropagationStore) (writer : Writer) (was : h.store = some store)
      (had : store.writer = some writer) :
      Stepped h (.writerDies count)
        { h with
          folder := h.folder.runAll ((h.interrupted .job).take count)
          store := some { store with writer := some { writer with alive := false } }
          jobs := [] }
  | closed (store : FilePropagationStore) (was : h.store = some store) (drained : h.jobs = []) :
      Stepped h .close { h with store := none, done := [] }
  | cut (progress : Host.Progress) (count : Nat) (mask : List Bool)
      (opening : ∀ listing, progress = .opening listing → h.store = none ∧ listing.Perm h.folder.live.entries) :
      Stepped h (.cut progress count mask) (h.cut progress count mask)

theorem purge_stepped {h : Host} {store : FilePropagationStore} (was : h.store = some store) (id : TransientId)
    (removed : Bool) : Stepped h (.purge id removed) (h.purge store id removed).2 := by
  unfold Host.purge
  split
  · exact .unknown id removed
  next path store' forgot =>
    split
    next behind => exact .purgedBehind id removed store store' path was (forget_forgotten forgot) behind
    next direct =>
      have none_ : store'.writer.any Writer.alive = false := Bool.eq_false_iff.mpr direct
      cases removed with
      | true => exact .purged id store store' path was (forget_forgotten forgot) none_
      | false => exact .purgeFailed id store store' path was (forget_forgotten forgot) none_

theorem work_stepped {h : Host} (busy : h.jobs ≠ []) (outcome : WriteOutcome) (removed : Bool) :
    Stepped h (.work outcome removed) (h.work outcome removed) := by
  unfold Host.work
  cases next : h.jobs with
  | nil => exact absurd next busy
  | cons job rest =>
    cases job with
    | remove path => exact .removal outcome removed path rest next
    | write ticket path body supersedes =>
      cases outcome with
      | failed => exact .writeFailed removed ticket path body supersedes rest next
      | placed synced => exact .written synced removed ticket path body supersedes rest next

theorem cut_stepped {h h' : Host} {progress : Host.Progress} {count : Nat} {mask : List Bool}
    (moved : h.step (.cut progress count mask) = some h') : Stepped h (.cut progress count mask) h' := by
  cases progress with
  | setStampValue id value =>
    rw [Host.step] at moved
    split at moved
    · cases moved
    · cases moved
      exact .cut _ _ _ nofun
  | opening listing =>
    rw [Host.step] at moved
    split at moved
    next closed =>
      cases moved
      refine .cut _ _ _ fun other same => ?_
      cases same
      exact ⟨Option.isNone_iff_eq_none.mp closed.1, closed.2⟩
    · cases moved
  | idle | job | append a | purge id =>
    cases moved
    exact .cut _ _ _ nofun

theorem step_stepped {h h' : Host} {e : Host.Event} (moved : h.step e = some h') : Stepped h e h' := by
  cases e with
  | «open» capacity listing renamed =>
    rw [Host.step] at moved
    split at moved
    next closed =>
      cases moved
      exact .opened capacity listing renamed (Option.isNone_iff_eq_none.mp closed.1) closed.2
    · cases moved
  | writeBehind =>
    obtain ⟨store, was, rfl⟩ := Option.map_eq_some_iff.mp moved
    exact .began store was
  | append a outcome removed =>
    obtain ⟨store, was, rfl⟩ := Option.map_eq_some_iff.mp moved
    exact .appended a outcome removed store was _ _ (append_appended h store a outcome removed) rfl
  | purge id removed =>
    obtain ⟨store, was, rfl⟩ := Option.map_eq_some_iff.mp moved
    exact purge_stepped was id removed
  | setStampValue id value renamed synced =>
    rw [Host.step] at moved
    split at moved
    · cases moved
    next quiet =>
      obtain ⟨store, was, rfl⟩ := Option.map_eq_some_iff.mp moved
      exact .repriced id value renamed synced store was (Bool.eq_false_iff.mpr quiet) _
        (setStampValue_repriced h store id value renamed synced)
  | settleWrites =>
    obtain ⟨store, was, rfl⟩ := Option.map_eq_some_iff.mp moved
    exact .settled store was
  | work outcome removed =>
    rw [Host.step] at moved
    split at moved
    · cases moved
    next busy =>
      cases moved
      exact work_stepped (fun idle => busy (idle ▸ rfl)) outcome removed
  | writerDies count =>
    obtain ⟨store, was, rest⟩ := Option.bind_eq_some_iff.mp moved
    split at rest
    next alive =>
      cases rest
      obtain ⟨writer, had, -⟩ := (Option.any_eq_true _ _).mp alive
      unfold Host.writerDies
      rw [had]
      exact .died count store writer was had
    · cases rest
  | close =>
    rw [Host.step] at moved
    split at moved
    next drained =>
      obtain ⟨store, was, rfl⟩ := Option.map_eq_some_iff.mp moved
      exact .closed store was (List.isEmpty_iff.mp drained)
    · cases moved
  | cut progress count mask => exact cut_stepped moved

end Leviculum.Store
