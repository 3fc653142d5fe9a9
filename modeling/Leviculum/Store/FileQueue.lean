import Leviculum.Store.FileEffect

/-! The order of a store's writes. Tickets are handed out, worked off and answered in one order, and what
waits in the queue waits for an answer that is still to come, or for the end of a dead writer's answers. -/

namespace Leviculum.Store

open Leviculum.Propagation

def Job.ticket? : Job → Option Nat
  | .write ticket _ _ _ => some ticket
  | .remove _ => none

/-- The tickets whose answers the store has not taken in, in the order in which it will. -/
def Host.answers (h : Host) : List Nat := h.done.map Prod.fst ++ h.jobs.filterMap Job.ticket?

structure Expects (writer : Writer) (answers : List Nat) : Prop where
  issued : ∀ ticket ∈ answers, ticket ≤ writer.issued
  known : ∀ ticket id, writer.tickets.lookup ticket = some id → ticket ≤ writer.issued
  /-- Tickets are kept in the order they were handed out. -/
  sorted : (writer.tickets.map Prod.fst).Pairwise (· < ·)
  owned : ∀ id q, writer.queued.lookup id = some q → writer.tickets.lookup q.ticket = some id ∧
    (q.ticket ∈ answers ∨ writer.alive = false ∧ ∀ ticket ∈ answers, ticket < q.ticket)

structure Ordered (h : Host) : Prop where
  closed : h.store = none → h.jobs = [] ∧ h.done = []
  direct : ∀ store, h.store = some store → store.writer = none → h.jobs = [] ∧ h.done = []
  ascending : h.answers.Pairwise (· < ·)
  expects : ∀ store writer, h.store = some store → store.writer = some writer → Expects writer h.answers
  dead : ∀ store writer, h.store = some store → store.writer = some writer → writer.alive = false → h.jobs = []

theorem settle_steps {P : FilePropagationStore → List (Nat × Bool) → Prop} {store : FilePropagationStore}
    {done : List (Nat × Bool)} (start : P store done)
    (kept : ∀ store answer rest, P store (answer :: rest) → P (store.settle answer) rest) :
    P (done.foldl FilePropagationStore.settle store) [] := by
  induction done generalizing store with
  | nil => exact start
  | cons answer rest ih => exact ih (kept store answer rest start)

theorem settle_writer_none {store : FilePropagationStore} {answer : Nat × Bool} :
    (store.settle answer).writer = none ↔ store.writer = none := by
  cases settle_settled store answer with
  | direct none_ same => rw [same]
  | stale writer writer' was shape => rw [shape, was]; exact ⟨nofun, nofun⟩
  | confirmed writer writer' id q was good found ticket shape => rw [shape, was]; exact ⟨nofun, nofun⟩
  | refused writer writer' id q was bad found ticket shape => rw [shape, was]; exact ⟨nofun, nofun⟩

section Expects

variable {writer writer' : Writer} {answers : List Nat} {answer : Nat}

theorem Expects.known_of_settled (expects : Expects writer (answer :: answers))
    (answered : Answered writer answer writer') :
    ∀ ticket id, writer'.tickets.lookup ticket = some id → ticket ≤ writer'.issued := by
  intro ticket id found
  rw [answered.issued]
  by_cases same : ticket = answer
  · exact same ▸ expects.issued answer List.mem_cons_self
  · exact expects.known ticket id (answered.others ticket same ▸ found)

theorem Expects.waits_of_settled (expects : Expects writer (answer :: answers))
    (answered : Answered writer answer writer') {id : TransientId} {q : Queued}
    (found : writer.queued.lookup id = some q) (apart : q.ticket ≠ answer) :
    writer'.tickets.lookup q.ticket = some id ∧
      (q.ticket ∈ answers ∨ writer'.alive = false ∧ ∀ ticket ∈ answers, ticket < q.ticket) := by
  obtain ⟨owner, waits⟩ := expects.owned id q found
  refine ⟨(answered.others q.ticket apart).trans owner, ?_⟩
  rcases waits with here | ⟨dead, later⟩
  · exact .inl ((List.mem_cons.mp here).resolve_left apart)
  · exact .inr ⟨answered.alive.trans dead, fun ticket member => later ticket (List.mem_cons_of_mem _ member)⟩

theorem Expects.ticket_ne (expects : Expects writer answers) {id other : TransientId} {q p : Queued}
    (found : writer.queued.lookup id = some q) (other_ : writer.queued.lookup other = some p) (apart : other ≠ id) :
    p.ticket ≠ q.ticket := by
  intro same
  have one := (expects.owned id q found).1
  have two := (expects.owned other p other_).1
  rw [same, one] at two
  exact apart (Option.some.inj two).symm

theorem Expects.stale (expects : Expects writer (answer :: answers)) (queued : writer'.queued = writer.queued)
    (answered : Answered writer answer writer')
    (late : ∀ id q, writer.tickets.lookup answer = some id → writer.queued.lookup id = some q → q.ticket ≠ answer) :
    Expects writer' answers where
  issued ticket member := answered.issued ▸ expects.issued ticket (List.mem_cons_of_mem _ member)
  known := expects.known_of_settled answered
  sorted := expects.sorted.sublist (answered.shorter.map _)
  owned id q found := by
    rw [queued] at found
    have owner := (expects.owned id q found).1
    exact expects.waits_of_settled answered found (fun same => late id q (same ▸ owner) found same)

theorem Expects.settled (expects : Expects writer (answer :: answers)) {id : TransientId} {q : Queued}
    (found : writer.queued.lookup id = some q) (ticket : q.ticket = answer)
    (queued : writer'.queued = writer.queued.erase id) (answered : Answered writer answer writer') :
    Expects writer' answers where
  issued ticket member := answered.issued ▸ expects.issued ticket (List.mem_cons_of_mem _ member)
  known := expects.known_of_settled answered
  sorted := expects.sorted.sublist (answered.shorter.map _)
  owned other p here := by
    rw [queued] at here
    obtain ⟨ne, before⟩ := lookup_of_lookup_erase here
    exact expects.waits_of_settled answered before (ticket ▸ expects.ticket_ne found before ne)

theorem Expects.erase (expects : Expects writer answers) (id : TransientId) :
    Expects { writer with queued := writer.queued.erase id } answers where
  issued := expects.issued
  known := expects.known
  sorted := expects.sorted
  owned other q here := expects.owned other q (lookup_of_lookup_erase here).2

end Expects

theorem Expects.open_le (expects : Expects writer answers) {ticket : Nat} (member : ticket ∈ writer.tickets.map Prod.fst) :
    ticket ≤ writer.issued := by
  obtain ⟨⟨ticket, id⟩, inside, rfl⟩ := List.mem_map.mp member
  cases found : writer.tickets.lookup ticket with
  | some id' => exact expects.known ticket id' found
  | none => exact absurd rfl (bne_iff_ne.mp (List.lookup_eq_none_iff.mp found (ticket, id) inside))

theorem Expects.lost (expects : Expects writer []) : Expects writer (writer.tickets.map Prod.fst) where
  issued _ member := expects.open_le member
  known := expects.known
  sorted := expects.sorted
  owned id q found := by
    have owner := (expects.owned id q found).1
    obtain ⟨before, later, split, -⟩ := List.lookup_eq_some_iff.mp owner
    refine ⟨owner, .inl (List.mem_map.mpr ⟨(q.ticket, id), ?_, rfl⟩)⟩
    rw [split]
    exact List.mem_append_right _ List.mem_cons_self

/-! ### Every event -/

section Ordered

variable {h h' : Host}

theorem lookup_append_last {V : Type*} (rows : List (Nat × V)) (key : Nat) (value : V)
    (unknown : rows.lookup key = none) : (rows ++ [(key, value)]).lookup key = some value := by
  rw [List.lookup_append, unknown, Option.none_or, List.lookup_cons_self]

theorem Ordered.settle {folder : MessageFolder} {jobs : List Job} {store : FilePropagationStore} {answer : Nat × Bool}
    {rest : List (Nat × Bool)} (ordered : Ordered ⟨folder, some store, jobs, answer :: rest⟩) :
    Ordered ⟨folder, some (store.settle answer), jobs, rest⟩ where
  closed none_ := by cases none_
  direct other same none_ := by
    cases same
    cases (ordered.direct store rfl (settle_writer_none.mp none_)).2
  ascending := (List.pairwise_cons.mp ordered.ascending).2
  expects other later same was' := by
    cases same
    cases settle_settled store answer with
    | direct none_ same =>
      rw [same, none_] at was'
      cases was'
    | stale writer writer' was shape queued answered late =>
      rw [shape] at was'
      cases was'
      exact (ordered.expects store writer rfl was).stale queued answered late
    | confirmed writer writer' id q was good found ticket shape queued answered =>
      rw [shape] at was'
      cases was'
      exact (ordered.expects store writer rfl was).settled found ticket queued answered
    | refused writer writer' id q was bad found ticket shape queued answered =>
      rw [shape] at was'
      cases was'
      exact (ordered.expects store writer rfl was).settled found ticket queued answered
  dead other later same was' dead := by
    cases same
    cases settle_settled store answer with
    | direct none_ same =>
      rw [same, none_] at was'
      cases was'
    | stale writer writer' was shape queued answered =>
      rw [shape] at was'
      cases was'
      exact ordered.dead store writer rfl was (answered.alive.symm.trans dead)
    | confirmed writer writer' id q was good found ticket shape queued answered =>
      rw [shape] at was'
      cases was'
      exact ordered.dead store writer rfl was (answered.alive.symm.trans dead)
    | refused writer writer' id q was bad found ticket shape queued answered =>
      rw [shape] at was'
      cases was'
      exact ordered.dead store writer rfl was (answered.alive.symm.trans dead)

theorem answers_lost (folder : MessageFolder) (store : Option FilePropagationStore) (writer : Writer) :
    (⟨folder, store, [], writer.tickets.map fun row => (row.1, false)⟩ : Host).answers = writer.tickets.map Prod.fst := by
  unfold Host.answers
  rw [List.filterMap_nil, List.append_nil, List.map_map]
  rfl

theorem Ordered.lost {folder : MessageFolder} {jobs : List Job} {store : FilePropagationStore} {writer : Writer}
    (ordered : Ordered ⟨folder, some store, jobs, []⟩) (was : store.writer = some writer) (dead : writer.alive = false) :
    Ordered ⟨folder, some store, jobs, writer.tickets.map fun row => (row.1, false)⟩ := by
  obtain rfl : jobs = [] := ordered.dead store writer rfl was dead
  have expects : Expects writer [] := ordered.expects store writer rfl was
  refine ⟨nofun, ?_, ?_, ?_, fun _ _ _ _ _ => rfl⟩
  · intro other here none_
    cases here
    cases was.symm.trans none_
  · rw [answers_lost]
    exact expects.sorted
  · intro other later here was'
    cases here
    cases was.symm.trans was'
    rw [answers_lost]
    exact expects.lost

theorem Ordered.closeThrough {folder : MessageFolder} {jobs : List Job} {done : List (Nat × Bool)}
    {store : FilePropagationStore} (ordered : Ordered ⟨folder, some store, jobs, done⟩) (through : Nat) :
    Ordered ⟨folder, some (store.closeThrough through), jobs, done⟩ := by
  have writers : ∀ writer', (store.closeThrough through).writer = some writer' →
      ∃ writer, store.writer = some writer ∧ { writer with through } = writer' := fun writer' was' =>
    Option.map_eq_some_iff.mp was'
  refine ⟨nofun, ?_, ordered.ascending, ?_, ?_⟩
  · intro other here none_
    cases here
    exact ordered.direct store rfl (Option.map_eq_none_iff.mp none_)
  · intro other writer' here was'
    cases here
    obtain ⟨writer, was, rfl⟩ := writers writer' was'
    have expects := ordered.expects store writer rfl was
    exact ⟨expects.issued, expects.known, expects.sorted, expects.owned⟩
  · intro other writer' here was' dead
    cases here
    obtain ⟨writer, was, rfl⟩ := writers writer' was'
    exact ordered.dead store writer rfl was dead

theorem collect_steps {P : FilePropagationStore → List (Nat × Bool) → Prop} {store : FilePropagationStore}
    {done : List (Nat × Bool)} (start : P store done)
    (kept : ∀ store answer rest, P store (answer :: rest) → P (store.settle answer) rest)
    (lost : ∀ store writer, P store [] → store.writer = some writer → writer.alive = false →
      P store (writer.tickets.map fun row => (row.1, false)))
    (closed : ∀ store through, P store [] → P (store.closeThrough through) []) : P (store.collect done) [] := by
  have settled := settle_steps start kept
  unfold FilePropagationStore.collect
  dsimp only
  split
  · exact settled
  next ended =>
    unfold FilePropagationStore.abandon
    split
    · exact settled
    next writer was =>
      rw [was, Option.all_some, Bool.not_eq_true] at ended
      exact closed _ _ (settle_steps (lost _ writer settled was ended) kept)

theorem Ordered.collected (ordered : Ordered h) {store : FilePropagationStore} (was : h.store = some store) :
    Ordered { h with store := some (h.collected store), done := [] } := by
  refine collect_steps (P := fun store done => Ordered { h with store := some store, done := done }) ?_
    (fun _ _ _ now => now.settle) (fun _ _ now was dead => now.lost was dead) (fun _ through now => now.closeThrough through)
  rw [← was]
  exact ordered

theorem Ordered.rewrite (ordered : Ordered h) {store : FilePropagationStore} (was : h.store = some store)
    (store' : FilePropagationStore) (same : store'.writer = store.writer) (folder : MessageFolder) :
    Ordered ⟨folder, some store', h.jobs, h.done⟩ where
  closed none_ := by cases none_
  direct other here none_ := by
    cases here
    exact ordered.direct store was (same ▸ none_)
  ascending := ordered.ascending
  expects other writer here was' := by
    cases here
    exact ordered.expects store writer was (same ▸ was')
  dead other writer here was' := by
    cases here
    exact ordered.dead store writer was (same ▸ was')

theorem report_writer (store : FilePropagationStore) :
    (store.writer = none → store.report.2.writer = none) ∧
    ∀ writer, store.writer = some writer → store.report.2.writer = some { writer with failed := [] } := by
  unfold FilePropagationStore.report
  split
  next writer was =>
    refine ⟨fun none_ => absurd (was.symm.trans none_) nofun, ?_⟩
    intro other here
    cases was.symm.trans here
    rfl
  next none_ => exact ⟨fun _ => none_, fun writer was => absurd (none_.symm.trans was) nofun⟩

theorem Ordered.report {folder : MessageFolder} {jobs : List Job} {done : List (Nat × Bool)}
    {store : FilePropagationStore} (ordered : Ordered ⟨folder, some store, jobs, done⟩) :
    Ordered ⟨folder, some store.report.2, jobs, done⟩ where
  closed none_ := by cases none_
  direct other here none_ := by
    cases here
    cases was : store.writer with
    | none => exact ordered.direct store rfl was
    | some writer =>
      rw [(report_writer store).2 writer was] at none_
      cases none_
  ascending := ordered.ascending
  expects other writer here was' := by
    cases here
    cases was : store.writer with
    | none =>
      rw [(report_writer store).1 was] at was'
      cases was'
    | some before =>
      rw [(report_writer store).2 before was] at was'
      cases was'
      have expects := ordered.expects store before rfl was
      exact ⟨expects.issued, expects.known, expects.sorted, expects.owned⟩
  dead other writer here was' dead := by
    cases here
    cases was : store.writer with
    | none =>
      rw [(report_writer store).1 was] at was'
      cases was'
    | some before =>
      rw [(report_writer store).2 before was] at was'
      cases was'
      exact ordered.dead store before rfl was dead

theorem answers_append_job (h : Host) (job : Job) :
    ({ h with jobs := h.jobs ++ [job] } : Host).answers = h.answers ++ job.ticket?.toList := by
  unfold Host.answers
  rw [List.filterMap_append, List.append_assoc]
  cases job with
  | write ticket path body supersedes => rfl
  | remove path => rfl

/-- An append that the writer is to carry out. -/
theorem Ordered.enqueue {store : FilePropagationStore} {writer : Writer} {a : Append}
    (ordered : Ordered { h with store := some store, done := [] }) (was : store.writer = some writer)
    (alive : writer.alive = true) :
    Ordered { h with
      store := some (store.enqueue writer a).1
      done := []
      jobs := h.jobs ++ [(store.enqueue writer a).2] } where
  closed none_ := by cases none_
  direct other here none_ := by
    cases here
    cases none_
  ascending := by
    have expects := ordered.expects store writer rfl was
    rw [answers_append_job { h with store := some (store.enqueue writer a).1, done := [] }]
    refine List.pairwise_append.mpr ⟨ordered.ascending, List.pairwise_singleton _ _, ?_⟩
    intro ticket member last here
    cases List.mem_singleton.mp here
    exact Nat.lt_succ_of_le (expects.issued ticket member)
  expects other later here was' := by
    cases here
    cases was'
    have expects := ordered.expects store writer rfl was
    rw [answers_append_job { h with store := some (store.enqueue writer a).1, done := [] }]
    have unknown : writer.tickets.lookup (writer.issued + 1) = none := by
      cases found : writer.tickets.lookup (writer.issued + 1) with
      | none => rfl
      | some id => exact absurd (expects.known _ id found) (Nat.not_succ_le_self _)
    refine ⟨?_, ?_, ?_, ?_⟩
    · intro ticket member
      rcases List.mem_append.mp member with old | new
      · exact Nat.le_succ_of_le (expects.issued ticket old)
      · cases List.mem_singleton.mp new
        exact Nat.le_refl _
    · intro ticket id found
      rw [List.lookup_append] at found
      rcases Option.or_eq_some_iff.mp found with old | ⟨-, new⟩
      · exact Nat.le_succ_of_le (expects.known ticket id old)
      · by_cases same : ticket = writer.issued + 1
        · exact Nat.le_of_eq same
        · rw [List.lookup_cons, beq_false_of_ne same] at new
          cases new
    · show ((writer.tickets ++ [(writer.issued + 1, a.id)]).map Prod.fst).Pairwise (· < ·)
      rw [List.map_append]
      refine List.pairwise_append.mpr ⟨expects.sorted, List.pairwise_singleton _ _, ?_⟩
      intro ticket member last here
      cases List.mem_singleton.mp here
      exact Nat.lt_succ_of_le (expects.open_le member)
    · intro id q found
      rcases lookup_insert_cases found with ⟨rfl, rfl⟩ | ⟨-, before⟩
      · exact ⟨lookup_append_last _ _ _ unknown, .inl (List.mem_append_right _ List.mem_cons_self)⟩
      · obtain ⟨owner, waits⟩ := expects.owned id q before
        refine ⟨?_, .inl (List.mem_append_left _ ?_)⟩
        · rw [List.lookup_append, owner]
          rfl
        · rcases waits with here | ⟨dead, -⟩
          · exact here
          · cases alive.symm.trans dead
  dead other later here was' dead := by
    cases here
    cases was'
    cases alive.symm.trans dead

theorem Ordered.forgotten (ordered : Ordered h) {store store' : FilePropagationStore} (was : h.store = some store)
    {id : TransientId} {path : FileName} (forgot : Forgotten store id path store') (folder : MessageFolder) :
    Ordered ⟨folder, some store', h.jobs, h.done⟩ := by
  cases forgot with
  | queued writer q was' found =>
    refine ⟨nofun, ?_, ordered.ascending, ?_, ?_⟩
    · intro other here none_
      cases here
      cases none_
    · intro other later here later'
      cases here
      cases later'
      exact (ordered.expects store writer was was').erase id
    · intro other later here later' dead
      cases here
      cases later'
      exact ordered.dead store writer was was' dead
  | indexed entry absent found =>
    refine ordered.rewrite was _ ?_ folder
    rfl

theorem Ordered.removing (ordered : Ordered h) {store : FilePropagationStore} (was : h.store = some store)
    (behind : store.writer.any Writer.alive = true) (path : FileName) : Ordered { h with jobs := h.jobs ++ [.remove path] } := by
  have same : ({ h with jobs := h.jobs ++ [.remove path] } : Host).answers = h.answers := by
    rw [answers_append_job]
    exact List.append_nil _
  refine ⟨?_, ?_, same.symm ▸ ordered.ascending,
    fun other writer here was' => same.symm ▸ ordered.expects other writer here was', ?_⟩
  · intro none_
    cases was.symm.trans none_
  · intro other here none_
    cases was.symm.trans here
    rw [none_] at behind
    cases behind
  · intro other writer here was' dead
    cases was.symm.trans here
    rw [was', Option.any_some, dead] at behind
    cases behind

theorem Ordered.worked (ordered : Ordered h) {job : Job} {rest : List Job} (next : h.jobs = job :: rest)
    (folder : MessageFolder) (done : List (Nat × Bool)) (answered : done.map Prod.fst = job.ticket?.toList) :
    Ordered ⟨folder, h.store, rest, h.done ++ done⟩ := by
  have same : (⟨folder, h.store, rest, h.done ++ done⟩ : Host).answers = h.answers := by
    unfold Host.answers
    rw [next, List.map_append, List.append_assoc, answered]
    cases job with
    | write ticket path body supersedes => rfl
    | remove path => rfl
  have busy : h.jobs ≠ [] := by rw [next]; exact List.cons_ne_nil _ _
  refine ⟨?_, ?_, same.symm ▸ ordered.ascending,
    fun other writer here was => same.symm ▸ ordered.expects other writer here was, ?_⟩
  · exact fun none_ => absurd (ordered.closed none_).1 busy
  · exact fun store here none_ => absurd (ordered.direct store here none_).1 busy
  · exact fun store writer here was dead => absurd (ordered.dead store writer here was dead) busy

theorem Ordered.died (ordered : Ordered h) {store : FilePropagationStore} {writer : Writer} (was : h.store = some store)
    (had : store.writer = some writer) (folder : MessageFolder) :
    Ordered ⟨folder, some { store with writer := some { writer with alive := false } }, [], h.done⟩ := by
  have expects := ordered.expects store writer was had
  have answers : (⟨folder, some { store with writer := some { writer with alive := false } }, [], h.done⟩ :
      Host).answers = h.done.map Prod.fst := List.append_nil _
  have split := List.pairwise_append.mp (show (h.done.map Prod.fst ++ h.jobs.filterMap Job.ticket?).Pairwise (· < ·) from
    ordered.ascending)
  refine ⟨nofun, ?_, ?_, ?_, fun _ _ _ _ _ => rfl⟩
  · intro other here none_
    cases here
    cases none_
  · rw [answers]
    exact split.1
  · intro other later here was'
    cases here
    cases was'
    rw [answers]
    refine ⟨fun ticket member => expects.issued ticket (List.mem_append_left _ member), expects.known, expects.sorted, ?_⟩
    intro id q found
    obtain ⟨owner, waits⟩ := expects.owned id q found
    refine ⟨owner, ?_⟩
    rcases waits with here | ⟨-, later⟩
    · rcases List.mem_append.mp here with answered | waiting
      · exact .inl answered
      · exact .inr ⟨rfl, fun ticket member => split.2.2 ticket member q.ticket waiting⟩
    · exact .inr ⟨rfl, fun ticket member => later ticket (List.mem_append_left _ member)⟩

theorem Ordered.stopped (folder : MessageFolder) : Ordered ⟨folder, none, [], []⟩ :=
  ⟨fun _ => ⟨rfl, rfl⟩, nofun, List.Pairwise.nil, nofun, nofun⟩

theorem Ordered.step {e : Host.Event} (ordered : Ordered h) (moved : Stepped h e h') : Ordered h' := by
  cases moved with
  | opened capacity listing renamed closed listed =>
    obtain ⟨jobs, done⟩ := ordered.closed closed
    refine ⟨nofun, fun _ _ _ => ⟨jobs, done⟩, ordered.ascending, ?_, fun _ _ _ _ _ => jobs⟩
    intro store writer here was
    cases here
    cases was
  | began store was =>
    unfold FilePropagationStore.writeBehind
    split
    next writer was' => exact ordered.rewrite was _ rfl h.folder
    next none_ =>
      obtain ⟨jobs, done⟩ := ordered.direct store was none_
      refine ⟨nofun, ?_, ordered.ascending, ?_, fun _ _ _ _ _ => jobs⟩
      · intro other here none'
        cases here
        cases none'
      · intro other writer here was'
        cases here
        cases was'
        have quiet : h.answers = [] := by rw [Host.answers, jobs, done]; rfl
        refine ⟨?_, nofun, List.Pairwise.nil, ?_⟩
        · intro ticket member
          have none' : ticket ∈ h.answers := member
          rw [quiet] at none'
          cases none'
        · intro id q found
          rw [AList.lookup_empty] at found
          cases found
  | appended a outcome removed store was result h' done reply =>
    have collected := ordered.collected was
    cases done with
    | short error => exact ordered
    | refused error => exact collected
    | direct synced placed direct admitted long =>
      refine collected.rewrite rfl _ ?_ _
      rfl
    | behind writer was' alive admitted long => exact collected.enqueue was' alive
  | unknown id removed => exact ordered
  | purgedBehind id removed store store' path was forgot behind =>
    exact (ordered.forgotten was forgot h.folder).removing rfl behind path
  | purged id store store' path was forgot direct => exact ordered.forgotten was forgot _
  | purgeFailed id store store' path was forgot direct => exact ordered.forgotten was forgot _
  | repriced id value renamed synced store was quiet h' done =>
    have reported := (ordered.collected was).report
    cases done with
    | left => exact reported
    | renamed entry body found there =>
      refine reported.rewrite rfl _ ?_ _
      rfl
  | settled store was => exact (ordered.collected was).report
  | removal outcome removed path rest next =>
    have worked := ordered.worked next (h.folder.runAll ((Job.remove path).steps false removed)) [] rfl
    rw [List.append_nil] at worked
    exact worked
  | writeFailed removed ticket path body supersedes rest next => exact ordered.worked next _ _ rfl
  | written synced removed ticket path body supersedes rest next => exact ordered.worked next _ _ rfl
  | died count store writer was had => exact ordered.died was had _
  | closed store was drained =>
    have stopped := Ordered.stopped h.folder
    rw [← drained] at stopped
    exact stopped
  | cut progress count mask opening => exact .stopped _

end Ordered

end Leviculum.Store
