import Leviculum.Store.FileSequence

/-! Every step of a host keeps the sequences it has, and gives new ones above all the old. -/

namespace Leviculum.Store

open Leviculum.Propagation

section Step

variable {h h' : Host} {given : Given}

theorem mem_sequencesIn {files : Files FileName Bytes} {name : FileName} (member : name ∈ files)
    (numbered : name.sequence ≠ 0) : (name.sequence, name.id) ∈ sequencesIn files := by
  obtain ⟨body, inside⟩ := Option.isSome_iff_exists.mp (AList.lookup_isSome.mpr member)
  exact List.mem_map.mpr ⟨⟨name, body⟩,
    List.mem_filter.mpr ⟨AList.mem_lookup_iff.mp inside, decide_eq_true numbered⟩, rfl⟩

theorem mem_placedIn {steps : List (FolderStep FileName Bytes)} {row : Nat × TransientId} :
    row ∈ placedIn steps ↔
      ∃ c name body, .change c ∈ steps ∧ c.placed = some (name, body) ∧ row = (name.sequence, name.id) := by
  rw [placedIn, List.mem_filterMap]
  constructor
  · rintro ⟨step, member, here⟩
    cases step with
    | sync => cases here
    | change c =>
      obtain ⟨⟨name, body⟩, placed, rfl⟩ := Option.map_eq_some_iff.mp here
      exact ⟨c, name, body, member, placed, rfl⟩
  · rintro ⟨c, name, body, member, placed, rfl⟩
    exact ⟨.change c, member, by dsimp only; rw [placed]; rfl⟩

theorem traced_start (files : Files FileName Bytes) : Traced (Host.begin files) where
  counted _ open_ := by cases open_
  store _ open_ := by cases open_
  files found here := by
    rw [Folder.outcome_settled rfl] at here
    subst here
    intro name member
    by_cases zero : name.sequence = 0
    · exact .inl zero
    · exact .inr (mem_sequencesIn member zero)
  jobs _ _ _ _ member := by cases member

theorem finds_spec {listing : List MessageFile} (found : finds given listing = true) :
    (∀ row ∈ given, row.1 ≤ highestSequence (indexOf (listing.filter scanned))) ∧
      highestSequence (indexOf (listing.filter scanned)) +
        (unnumbered (indexOf (listing.filter scanned))).length < 2 ^ 64 := by
  rw [finds, Bool.and_eq_true, List.all_eq_true, decide_eq_true_iff] at found
  exact ⟨fun row member => of_decide_eq_true (found.1 row member), found.2⟩

theorem numbersOf_fresh {listing : List MessageFile} (found : finds given listing = true) :
    ∀ row ∈ given, ∀ new ∈ numbersOf listing, row.1 < new.1 := by
  obtain ⟨below, room⟩ := finds_spec found
  intro row member new fresh
  exact Nat.lt_of_le_of_lt (below row member) (numbersFrom_bounds room new fresh).1

theorem openWith_steps {listing : List MessageFile} (found : finds given listing = true) (capacity : Nat)
    (files : Files FileName Bytes) (renamed : TransientId → Bool) {c : FolderChange FileName Bytes}
    (member : .change c ∈ (FilePropagationStore.openWith capacity listing files renamed).2) {name : FileName}
    {body : Bytes} (placed : c.placed = some (name, body)) : (name.sequence, name.id) ∈ numbersOf listing := by
  obtain ⟨-, room⟩ := finds_spec found
  obtain ⟨-, -, steps⟩ := number_foldl files renamed
    ⟨indexOf (listing.filter scanned), highestSequence (indexOf (listing.filter scanned)), []⟩ room
  rcases steps c member with none_ | ⟨old, other, content, shape, given_⟩
  · cases none_
  · subst shape
    cases placed
    exact given_

theorem Traced.opened (now : Traced (h, given)) {capacity : Nat} {listing : List MessageFile}
    {renamed : TransientId → Bool} (found : finds given listing = true)
    (listed : listing.Perm h.folder.live.entries) :
    Traced ({ h with
        store := some (FilePropagationStore.openWith capacity listing h.folder.live renamed).1
        folder := h.folder.runAll (FilePropagationStore.openWith capacity listing h.folder.live renamed).2 },
      given ++ numbersOf listing) := by
  obtain ⟨below, room⟩ := finds_spec found
  obtain ⟨last, index, -⟩ := number_foldl h.folder.live renamed
    ⟨indexOf (listing.filter scanned), highestSequence (indexOf (listing.filter scanned)), []⟩ room
  refine ⟨?_, ?_, ?_, ?_⟩
  · intro store same row member
    cases same
    show row.1 ≤ (numberAll h.folder.live renamed (indexOf (listing.filter scanned))).lastSequence
    rw [numberAll, last]
    rcases List.mem_append.mp member with old | new
    · exact Nat.le_trans (below row old) (Nat.le_add_right _ _)
    · exact (numbersFrom_bounds room row new).2
  · intro store same
    cases same
    refine ⟨?_, ?_⟩
    · intro id entry here
      rcases index id entry here with scan | ⟨same, new⟩
      · obtain ⟨file, inside, rfl, rfl⟩ := lookup_indexOf scan
        have there : file ∈ h.folder.live.entries := listed.subset (List.mem_filter.mp inside).1
        have member : file.1 ∈ h.folder.live := AList.lookup_isSome.mp
          (Option.isSome_iff_exists.mpr ⟨file.2, AList.mem_lookup_iff.mpr there⟩)
        exact ⟨rfl, (now.files.live file.1 member).mono⟩
      · exact ⟨same, .inr (List.mem_append_right _ new)⟩
    · intro id q here
      rw [queued_direct rfl, AList.lookup_empty] at here
      cases here
  · refine FilesKnown.runAll (fun files found => (now.files files found).mono) ?_
    intro c member name body placed
    exact .inr (List.mem_append_right _ (openWith_steps found capacity _ _ member placed))
  · intro ticket path body supersedes member
    exact (now.jobs ticket path body supersedes member).mono

theorem Traced.collected (now : Traced (h, given)) {store : FilePropagationStore} (was : h.store = some store) :
    StoreKnown given (h.collected store) ∧ ∀ row ∈ given, row.1 ≤ (h.collected store).lastSequence := by
  refine ⟨(now.store store was).collect h.done, ?_⟩
  intro row member
  rw [Host.collected, collect_lastSequence]
  exact now.counted store was row member

theorem Traced.stored (now : Traced (h, given)) {store : FilePropagationStore} (known : StoreKnown given store)
    (counted : ∀ row ∈ given, row.1 ≤ store.lastSequence) {jobs : List Job} {done : List (Nat × Bool)}
    (queue : ∀ ticket path body supersedes, .write ticket path body supersedes ∈ jobs →
      Known given path.sequence path.id) :
    Traced (⟨h.folder, some store, jobs, done⟩, given) := by
  refine ⟨?_, ?_, now.files, queue⟩
  · intro other same
    cases same
    exact counted
  · intro other same
    cases same
    exact known

theorem Forgotten.lastSequence {store store' : FilePropagationStore} {id : TransientId} {path : FileName}
    (forgot : Forgotten store id path store') : store'.lastSequence = store.lastSequence := by
  cases forgot with
  | queued writer q was found => rfl
  | indexed entry absent found => rfl

theorem Traced.ran (now : Traced (h, given)) {steps : List (FolderStep FileName Bytes)}
    (placed : ∀ c, .change c ∈ steps → ∀ name body, c.placed = some (name, body) → Known given name.sequence name.id) :
    Traced ({ h with folder := h.folder.runAll steps }, given) :=
  ⟨now.counted, now.store, FilesKnown.runAll now.files placed, now.jobs⟩

theorem change_mem_appendSteps {store : FilePropagationStore} {a : Append} {synced removed : Bool}
    {c : FolderChange FileName Bytes} (member : .change c ∈ store.appendSteps a synced removed) :
    c = .place (store.pathOf a) a.body ∨ ∃ entry, store.index.lookup a.id = some entry ∧ c = .unlink entry.path := by
  unfold FilePropagationStore.appendSteps at member
  rcases List.mem_append.mp member with first | last
  · rcases List.mem_append.mp first with placed | synced'
    · rw [List.mem_singleton] at placed
      cases placed
      exact .inl rfl
    · split at synced'
      · rw [List.mem_singleton] at synced'
        cases synced'
      · cases synced'
  · split at last
    next entry found =>
      split at last
      · rw [List.mem_singleton] at last
        cases last
        exact .inr ⟨entry, found, rfl⟩
      · cases last
    · cases last

theorem change_mem_jobSteps {job : Job} {synced removed : Bool} {c : FolderChange FileName Bytes}
    (member : .change c ∈ job.steps synced removed) :
    (∃ ticket path body supersedes, job = .write ticket path body supersedes ∧ c = .place path body) ∨
      ∃ path, c = .unlink path ∧ (job = .remove path ∨ ∃ ticket name body, job = .write ticket name body (some path)) := by
  cases job with
  | remove path =>
    change FolderStep.change c ∈ (if removed then [.change (.unlink path)] else []) at member
    split at member
    · rw [List.mem_singleton] at member
      cases member
      exact .inr ⟨path, rfl, .inl rfl⟩
    · cases member
  | write ticket path body supersedes =>
    dsimp only [Job.steps] at member
    rcases List.mem_append.mp member with first | last
    · rcases List.mem_append.mp first with placed | synced'
      · rw [List.mem_singleton] at placed
        cases placed
        exact .inl ⟨ticket, path, body, supersedes, rfl, rfl⟩
      · split at synced'
        · rw [List.mem_singleton] at synced'
          cases synced'
        · cases synced'
    · split at last
      next other =>
        split at last
        · rw [List.mem_singleton] at last
          cases last
          exact .inr ⟨other, rfl, .inr ⟨ticket, path, body, rfl⟩⟩
        · cases last
      · cases last

theorem change_mem_repriceSteps {entry : IndexEntry} {value : UInt8} {body : Bytes} {synced : Bool}
    {c : FolderChange FileName Bytes} (member : .change c ∈ FilePropagationStore.repriceSteps entry value body synced) :
    c = .rename entry.path (FilePropagationStore.repricedPath entry value) body := by
  unfold FilePropagationStore.repriceSteps at member
  rcases List.mem_cons.mp member with here | synced'
  · cases here
    rfl
  · split at synced'
    · rw [List.mem_singleton] at synced'
      cases synced'
    · cases synced'

theorem Traced.job (now : Traced (h, given)) {job : Job} (member : job ∈ h.jobs) {synced removed : Bool}
    {c : FolderChange FileName Bytes} (inside : .change c ∈ job.steps synced removed) {name : FileName} {body : Bytes}
    (placed : c.placed = some (name, body)) : Known given name.sequence name.id := by
  rcases change_mem_jobSteps inside with ⟨ticket, path, content, supersedes, rfl, rfl⟩ | ⟨path, rfl, -⟩
  · cases placed
    exact now.jobs ticket name body supersedes member
  · cases placed

theorem StoreKnown.repriced {store : FilePropagationStore} (known : StoreKnown given store) {id : TransientId}
    {entry : IndexEntry} (found : store.index.lookup id = some entry) (value : UInt8) :
    StoreKnown given (store.repriced entry value) := by
  obtain ⟨own, sequence⟩ := known.index id entry found
  refine ⟨?_, known.queued⟩
  intro other e here
  rcases lookup_insert_cases here with ⟨rfl, rfl⟩ | ⟨-, before⟩
  · exact ⟨rfl, own ▸ sequence⟩
  · exact known.index other e before

theorem StoreKnown.repricedPath {store : FilePropagationStore} (known : StoreKnown given store) {id : TransientId}
    {entry : IndexEntry} (found : store.index.lookup id = some entry) (value : UInt8) :
    Known given (FilePropagationStore.repricedPath entry value).sequence
      (FilePropagationStore.repricedPath entry value).id := by
  obtain ⟨own, sequence⟩ := known.index id entry found
  subst own
  exact sequence

theorem Traced.next (now : Traced (h, given)) {store : FilePropagationStore} (was : h.store = some store)
    (room : store.lastSequence + 1 < 2 ^ 64) (a : Append) :
    ((h.collected store).pathOf a).sequence = (h.collected store).lastSequence + 1 ∧
      nextSequence (h.collected store).lastSequence = (h.collected store).lastSequence + 1 ∧
      ∀ row ∈ given, row.1 < ((h.collected store).pathOf a).sequence := by
  have same : (h.collected store).lastSequence = store.lastSequence := collect_lastSequence store h.done
  have room' : (h.collected store).lastSequence + 1 < 2 ^ 64 := same.symm ▸ room
  have sequence := pathOf_sequence room' a
  refine ⟨sequence, nextSequence_eq room', ?_⟩
  intro row member
  rw [sequence]
  exact Nat.lt_succ_of_le ((now.collected was).2 row member)

theorem Traced.cutShort (now : Traced (h, given)) {progress : Host.Progress}
    (placed : ∀ c, .change c ∈ h.interrupted progress → ∀ name body, c.placed = some (name, body) →
      Known given name.sequence name.id) (count : Nat) (mask : List Bool) :
    Traced (h.cut progress count mask, given) where
  counted _ open_ := by cases open_
  store _ open_ := by cases open_
  files := by
    have ran := FilesKnown.runAll now.files fun c member => placed c (List.mem_of_mem_take (i := count) member)
    exact ran.cut mask
  jobs _ _ _ _ member := by cases member

theorem Traced.cutGiving (now : Traced (h, given)) (progress : Host.Progress) (count : Nat) (mask : List Bool) :
    Traced (h.cut progress count mask, given ++ h.survived progress count mask) where
  counted _ open_ := by cases open_
  store _ open_ := by cases open_
  files := by
    intro files found name member
    have placed : ∀ c, .change c ∈ (h.interrupted progress).take count → ∀ name body, c.placed = some (name, body) →
        Known (given ++ placedIn (h.interrupted progress)) name.sequence name.id := by
      intro c inside other body here
      exact .inr (List.mem_append_right _ (mem_placedIn.mpr ⟨c, other, body, List.mem_of_mem_take inside, here, rfl⟩))
    have ran := FilesKnown.runAll (fun files found => (now.files files found).mono) placed
    have durable : files = (h.cut progress count mask).folder.durable := (Folder.outcome_settled rfl).mp found
    rcases ran.cut mask files found name member with zero | inside
    · exact .inl zero
    · by_cases zero : name.sequence = 0
      · exact .inl zero
      · refine .inr ?_
        rcases List.mem_append.mp inside with old | new
        · exact List.mem_append_left _ old
        · have there := mem_sequencesIn (durable ▸ member) zero
          exact List.mem_append_right _ (List.mem_filter.mpr ⟨new, decide_eq_true there⟩)
  jobs _ _ _ _ member := by cases member

theorem mem_interrupted_job {c : FolderChange FileName Bytes} (member : .change c ∈ h.interrupted .job) :
    ∃ job ∈ h.jobs, .change c ∈ job.steps true true := by
  unfold Host.interrupted at member
  cases first : h.jobs.head? with
  | none =>
    rw [first] at member
    cases member
  | some job =>
    rw [first] at member
    exact ⟨job, List.mem_of_head? first, member⟩

theorem mem_interrupted_append {a : Append} {c : FolderChange FileName Bytes}
    (member : .change c ∈ h.interrupted (.append a)) :
    ∃ store, h.store = some store ∧ (h.collected store).writer = none ∧ (h.collected store).admits a = .ok () ∧
      .change c ∈ (h.collected store).appendSteps a true true := by
  unfold Host.interrupted at member
  dsimp only at member
  split at member
  next store some_ =>
    obtain ⟨before, was, rfl⟩ := Option.map_eq_some_iff.mp some_
    split at member
    next direct admitted => exact ⟨before, was, direct, admitted, member⟩
    · cases member
  · cases member

theorem mem_interrupted_purge {id : TransientId} {c : FolderChange FileName Bytes}
    (member : .change c ∈ h.interrupted (.purge id)) :
    ∃ store store' path, h.store = some store ∧ Forgotten store id path store' ∧ store'.writer.any Writer.alive = false ∧
      c = .unlink path := by
  unfold Host.interrupted at member
  dsimp only at member
  split at member
  next path store' some_ =>
    obtain ⟨store, was, forgot⟩ := Option.bind_eq_some_iff.mp some_
    split at member
    · cases member
    next direct =>
      rw [List.mem_singleton] at member
      cases member
      exact ⟨store, store', path, was, forget_forgotten forgot, Bool.eq_false_iff.mpr direct, rfl⟩
  · cases member

theorem mem_interrupted_setStampValue {id : TransientId} {value : UInt8} {c : FolderChange FileName Bytes}
    (member : .change c ∈ h.interrupted (.setStampValue id value)) :
    ∃ store entry body, h.store = some store ∧ (h.collected store).index.lookup id = some entry ∧
      h.folder.live.lookup entry.path = some body ∧
      c = .rename entry.path (FilePropagationStore.repricedPath entry value) body := by
  unfold Host.interrupted at member
  dsimp only at member
  split at member
  next store some_ =>
    obtain ⟨before, was, rfl⟩ := Option.map_eq_some_iff.mp some_
    split at member
    next entry found =>
      split at member
      next body there => exact ⟨before, entry, body, was, found, there, change_mem_repriceSteps member⟩
      · cases member
    · cases member
  · cases member

theorem Traced.appended (now : Traced (h, given)) {a : Append} {outcome : WriteOutcome} {removed : Bool}
    {store : FilePropagationStore} (was : h.store = some store) (room : store.lastSequence + 1 < 2 ^ 64)
    {result : Except StorageError Unit} (done : Appended h store a outcome removed result h')
    (reply : (h.append store a outcome removed).1 = result) :
    Traced (h', given ++ h.gives (.append a outcome removed)) := by
  obtain ⟨sequence, next, above⟩ := now.next was room a
  obtain ⟨known, counted⟩ := now.collected was
  unfold Host.gives
  rw [was]
  dsimp only
  rw [reply]
  have named : Known (given ++ [(((h.collected store).pathOf a).sequence, a.id)])
      ((h.collected store).pathOf a).sequence a.id := .inr (List.mem_append_right _ List.mem_cons_self)
  have counted' : ∀ row ∈ given ++ [(((h.collected store).pathOf a).sequence, a.id)],
      row.1 ≤ nextSequence (h.collected store).lastSequence := by
    intro row member
    rcases List.mem_append.mp member with old | new
    · rw [next]
      exact Nat.le_succ_of_le (counted row old)
    · cases List.mem_singleton.mp new
      rw [sequence, next]
  have inserted : ∀ id entry, ((h.collected store).index.insert a.id
        (entryOf ((h.collected store).pathOf a) a.body)).lookup id = some entry →
      entry.info.transientId = id ∧
        Known (given ++ [(((h.collected store).pathOf a).sequence, a.id)]) entry.info.sequence id := by
    intro id entry here
    rcases lookup_insert_cases here with ⟨rfl, rfl⟩ | ⟨-, before⟩
    · exact ⟨rfl, named⟩
    · exact known.mono.index id entry before
  cases done with
  | short error =>
    rw [List.append_nil]
    exact now
  | refused error =>
    rw [List.append_nil]
    exact now.stored known counted now.jobs
  | direct synced placed direct admitted long =>
    refine ⟨?_, ?_, ?_, fun ticket path body supersedes member => (now.jobs ticket path body supersedes member).mono⟩
    · intro other same
      cases same
      exact counted'
    · intro other same
      cases same
      exact ⟨inserted, known.mono.queued⟩
    · refine FilesKnown.runAll (fun files found => (now.files files found).mono) ?_
      intro c member name body here
      rcases change_mem_appendSteps member with rfl | ⟨entry, -, rfl⟩
      · cases here
        exact named
      · cases here
  | behind writer was' alive admitted long =>
    refine ⟨?_, ?_, fun files found => (now.files files found).mono, ?_⟩
    · intro other same
      cases same
      exact counted'
    · intro other same
      cases same
      refine ⟨fun id entry here => known.mono.index id entry (lookup_of_lookup_erase here).2, ?_⟩
      intro id q here
      rw [queued_of_writer rfl] at here
      rcases lookup_insert_cases here with ⟨rfl, rfl⟩ | ⟨-, before⟩
      · exact ⟨rfl, named⟩
      · exact known.mono.queued id q (queued_of_writer was' ▸ before)
    · intro ticket path body supersedes member
      rcases List.mem_append.mp member with old | new
      · exact (now.jobs ticket path body supersedes old).mono
      · cases List.mem_singleton.mp new
        exact named

theorem Traced.cut (now : Traced (h, given)) (progress : Host.Progress) (count : Nat) (mask : List Bool) :
    Traced (h.cut progress count mask, given ++ h.gives (.cut progress count mask)) := by
  cases progress with
  | opening listing => exact now.cutGiving (.opening listing) count mask
  | append a => exact now.cutGiving (.append a) count mask
  | idle =>
    rw [show h.gives (.cut .idle count mask) = [] from rfl, List.append_nil]
    refine now.cutShort ?_ count mask
    intro c member
    cases member
  | job =>
    rw [show h.gives (.cut .job count mask) = [] from rfl, List.append_nil]
    refine now.cutShort ?_ count mask
    intro c member name body placed
    obtain ⟨job, inside, steps⟩ := mem_interrupted_job member
    exact now.job inside steps placed
  | purge id =>
    rw [show h.gives (.cut (.purge id) count mask) = [] from rfl, List.append_nil]
    refine now.cutShort ?_ count mask
    intro c member name body placed
    obtain ⟨_, _, path, -, -, -, rfl⟩ := mem_interrupted_purge member
    cases placed
  | setStampValue id value =>
    rw [show h.gives (.cut (.setStampValue id value) count mask) = [] from rfl, List.append_nil]
    refine now.cutShort ?_ count mask
    intro c member name body placed
    obtain ⟨store, entry, content, was, found, -, rfl⟩ := mem_interrupted_setStampValue member
    cases placed
    exact (now.collected was).1.repricedPath found value

theorem Traced.repriced (now : Traced (h, given)) {store : FilePropagationStore} (was : h.store = some store)
    {id : TransientId} {value : UInt8} {synced : Bool} (done : Repriced h store id value synced h') :
    Traced (h', given) := by
  obtain ⟨known, counted⟩ := now.collected was
  obtain ⟨-, last, -⟩ := report_fields (h.collected store)
  have counted' : ∀ row ∈ given, row.1 ≤ (h.collected store).report.2.lastSequence := last.symm ▸ counted
  cases done with
  | left => exact now.stored known.report counted' now.jobs
  | renamed entry body found there =>
    refine Traced.ran (h := ⟨h.folder, some ((h.collected store).report.2.repriced entry value), h.jobs, []⟩)
      (now.stored (known.report.repriced found value) counted' now.jobs) ?_
    intro c member name content placed
    rw [change_mem_repriceSteps member] at placed
    cases placed
    exact known.report.repricedPath found value

theorem Traced.worked (now : Traced (h, given)) {job : Job} {rest : List Job} (next : h.jobs = job :: rest)
    (synced removed : Bool) (done : List (Nat × Bool)) :
    Traced (⟨h.folder.runAll (job.steps synced removed), h.store, rest, done⟩, given) := by
  have first : job ∈ h.jobs := next ▸ List.mem_cons_self
  have ran : Traced ({ h with folder := h.folder.runAll (job.steps synced removed) }, given) :=
    now.ran fun c member name body placed => now.job first member placed
  exact ⟨ran.counted, ran.store, ran.files, fun ticket name body supersedes member =>
    now.jobs ticket name body supersedes (next ▸ List.mem_cons_of_mem _ member)⟩

theorem Traced.step {e : Host.Event} (now : Traced (h, given)) (moved : Stepped h e h')
    (good : Host.sound (h, given) e = true) : Traced (h', given ++ h.gives e) := by
  cases moved with
  | opened capacity listing renamed closed listed =>
    rw [Host.sound, Bool.and_eq_true] at good
    exact now.opened good.1 listed
  | began store was =>
    rw [show h.gives .writeBehind = [] from rfl, List.append_nil]
    refine now.stored (h := h) ?_ ?_ now.jobs
    · unfold FilePropagationStore.writeBehind
      split
      · exact now.store store was
      · refine ⟨(now.store store was).index, ?_⟩
        intro id q here
        rw [queued_of_writer rfl, AList.lookup_empty] at here
        cases here
    · unfold FilePropagationStore.writeBehind
      split
      · exact now.counted store was
      · exact now.counted store was
  | appended a outcome removed store was result h' done reply =>
    rw [Host.sound, was] at good
    exact now.appended was (of_decide_eq_true good) done reply
  | unknown id removed =>
    rw [show h.gives (.purge id removed) = [] from rfl, List.append_nil]
    exact now
  | purgedBehind id removed store store' path was forgot behind =>
    rw [show h.gives (.purge id removed) = [] from rfl, List.append_nil]
    refine now.stored ((now.store store was).forgotten forgot) (forgot.lastSequence ▸ now.counted store was) ?_
    intro ticket name body supersedes member
    rcases List.mem_append.mp member with old | new
    · exact now.jobs ticket name body supersedes old
    · cases List.mem_singleton.mp new
  | purged id store store' path was forgot direct =>
    rw [show h.gives (.purge id true) = [] from rfl, List.append_nil]
    have stored : Traced (⟨h.folder, some store', h.jobs, h.done⟩, given) :=
      now.stored ((now.store store was).forgotten forgot) (forgot.lastSequence ▸ now.counted store was) now.jobs
    exact ⟨stored.counted, stored.store, now.files.change fun files known => known.apply nofun, stored.jobs⟩
  | purgeFailed id store store' path was forgot direct =>
    rw [show h.gives (.purge id false) = [] from rfl, List.append_nil]
    exact now.stored ((now.store store was).forgotten forgot) (forgot.lastSequence ▸ now.counted store was) now.jobs
  | repriced id value renamed synced store was quiet h' done =>
    rw [show h.gives (.setStampValue id value renamed synced) = [] from rfl, List.append_nil]
    exact now.repriced was done
  | settled store was =>
    rw [show h.gives .settleWrites = [] from rfl, List.append_nil]
    obtain ⟨known, counted⟩ := now.collected was
    obtain ⟨-, last, -⟩ := report_fields (h.collected store)
    exact now.stored known.report (last.symm ▸ counted) now.jobs
  | removal outcome removed path rest next =>
    rw [show h.gives (.work outcome removed) = [] from rfl, List.append_nil]
    exact now.worked next _ _ _
  | writeFailed removed ticket path body supersedes rest next =>
    rw [show h.gives (.work .failed removed) = [] from rfl, List.append_nil]
    exact ⟨now.counted, now.store, now.files, fun ticket name body supersedes member =>
      now.jobs ticket name body supersedes (next ▸ List.mem_cons_of_mem _ member)⟩
  | written synced removed ticket path body supersedes rest next =>
    rw [show h.gives (.work (.placed synced) removed) = [] from rfl, List.append_nil]
    exact now.worked next _ _ _
  | died count store writer was had =>
    rw [show h.gives (.writerDies count) = [] from rfl, List.append_nil]
    have ran : Traced ({ h with folder := h.folder.runAll ((h.interrupted .job).take count) }, given) := by
      refine now.ran fun c member name body placed => ?_
      obtain ⟨job, inside, steps⟩ := mem_interrupted_job (List.mem_of_mem_take member)
      exact now.job inside steps placed
    have known := now.store store was
    have known' : StoreKnown given { store with writer := some { writer with alive := false } } := by
      refine ⟨known.index, ?_⟩
      intro id q here
      exact known.queued id q (queued_of_writer had ▸ here)
    refine Traced.stored ran known' (now.counted store was) ?_
    intro ticket path body supersedes member
    cases member
  | closed store was drained =>
    rw [show h.gives .close = [] from rfl, List.append_nil]
    exact ⟨nofun, nofun, now.files, now.jobs⟩
  | cut progress count mask opening => exact now.cut progress count mask

theorem gives_fresh {e : Host.Event} (now : Traced (h, given)) (moved : Stepped h e h')
    (good : Host.sound (h, given) e = true) : ∀ row ∈ given, ∀ new ∈ h.gives e, row.1 < new.1 := by
  intro row member new fresh
  cases moved with
  | opened capacity listing renamed closed listed =>
    rw [Host.sound, Bool.and_eq_true] at good
    exact numbersOf_fresh good.1 row member new fresh
  | appended a outcome removed store was result h' done reply =>
    rw [Host.sound, was] at good
    unfold Host.gives at fresh
    rw [was] at fresh
    dsimp only at fresh
    split at fresh
    · cases List.mem_singleton.mp fresh
      exact (now.next was (of_decide_eq_true good) a).2.2 row member
    · cases fresh
  | cut progress count mask opening =>
    cases progress with
    | opening listing =>
      obtain ⟨c, name, body, inside, placed, rfl⟩ := mem_placedIn.mp (List.mem_of_mem_filter fresh)
      exact numbersOf_fresh good row member _ (openWith_steps good _ _ _ inside placed)
    | append a =>
      obtain ⟨c, name, body, inside, placed, rfl⟩ := mem_placedIn.mp (List.mem_of_mem_filter fresh)
      obtain ⟨store, was, -, -, steps⟩ := mem_interrupted_append inside
      rw [Host.sound, was] at good
      rcases change_mem_appendSteps steps with rfl | ⟨entry, -, rfl⟩
      · cases placed
        exact (now.next was (of_decide_eq_true good) a).2.2 row member
      · cases placed
    | idle | job | purge id | setStampValue id value => cases fresh
  | began | unknown | purgedBehind | purged | purgeFailed | repriced | settled | removal | writeFailed | written | died | closed =>
    cases fresh

end Step

end Leviculum.Store
