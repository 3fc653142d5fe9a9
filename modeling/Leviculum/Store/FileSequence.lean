import Leviculum.Store.FileEffect
import Leviculum.Lib.Execution
import Leviculum.Propagation.OfferSpec

/-! The sequences a file store gives: beside a run stands the list of all it ever gave, with the
messages they went to. -/

namespace Leviculum.Store

open Leviculum.Propagation

abbrev Given := List (Nat × TransientId)

/-- A name without a sequence, or with one that was given to its message. -/
def Known (given : Given) (sequence : Nat) (id : TransientId) : Prop := sequence = 0 ∨ (sequence, id) ∈ given

def numbersFrom (last : Nat) : List IndexEntry → Given
  | [] => []
  | entry :: rest => (nextSequence last, entry.info.transientId) :: numbersFrom (nextSequence last) rest

def numbersOf (listing : List MessageFile) : Given :=
  let index := indexOf (listing.filter scanned)
  numbersFrom (highestSequence index) (unnumbered index)

def sequencesIn (files : Files FileName Bytes) : Given :=
  (files.entries.filter fun file => file.1.sequence ≠ 0).map fun file => (file.1.sequence, file.1.id)

def placedIn (steps : List (FolderStep FileName Bytes)) : Given :=
  steps.filterMap fun step =>
    match step with
    | .change c => c.placed.map fun file => (file.1.sequence, file.1.id)
    | .sync => none

/-- Of a call that was cut short those count that are on the disk. -/
def Host.survived (h : Host) (progress : Host.Progress) (count : Nat) (mask : List Bool) : Given :=
  (placedIn (h.interrupted progress)).filter fun row =>
    decide (row ∈ sequencesIn (h.cut progress count mask).folder.durable)

def Host.gives (h : Host) : Host.Event → Given
  | .open _ listing _ => numbersOf listing
  | .append a outcome removed =>
    match h.store with
    | some store =>
      match (h.append store a outcome removed).1 with
      | .ok () => [(((h.collected store).pathOf a).sequence, a.id)]
      | .error _ => []
    | none => []
  | .cut (.opening listing) count mask => h.survived (.opening listing) count mask
  | .cut (.append a) count mask => h.survived (.append a) count mask
  | _ => []

def Host.begin (files : Files FileName Bytes) : Host × Given := (Host.start files, sequencesIn files)

/-- An opening finds a message with a sequence as high as every one that was given. -/
def finds (given : Given) (listing : List MessageFile) : Bool :=
  let index := indexOf (listing.filter scanned)
  given.all (fun row => row.1 ≤ highestSequence index) &&
    highestSequence index + (unnumbered index).length < 2 ^ 64

/-- Of two files of one message the newer one is listed, or the one that gets a new sequence. -/
def newest (listing : List MessageFile) : Bool :=
  let found := listing.filter scanned
  found.all fun file =>
    ((indexOf found).lookup file.1.id).all fun entry =>
      entry.info.sequence = 0 || file.1.sequence ≤ entry.info.sequence

def Host.sound (at_ : Host × Given) : Host.Event → Bool
  | .open _ listing _ => finds at_.2 listing && newest listing
  | .cut (.opening listing) _ _ => finds at_.2 listing
  | .append _ _ _ | .cut (.append _) _ _ => at_.1.store.all fun store => store.lastSequence + 1 < 2 ^ 64
  | _ => true

/-! ### Opening -/

theorem lookup_indexOf {files : List MessageFile} {id : TransientId} {entry : IndexEntry}
    (found : (indexOf files).lookup id = some entry) :
    ∃ file ∈ files, file.1.id = id ∧ entry = entryOf file.1 file.2 := by
  have loop : ∀ (files : List MessageFile) (index : Index),
      (files.foldl (fun index file => index.insert file.1.id (entryOf file.1 file.2)) index).lookup id = some entry →
      index.lookup id = some entry ∨ ∃ file ∈ files, file.1.id = id ∧ entry = entryOf file.1 file.2 := by
    intro files
    induction files with
    | nil => exact fun index found => .inl found
    | cons file rest ih =>
      intro index found
      rcases ih _ found with here | ⟨other, member, same⟩
      · by_cases own : id = file.1.id
        · subst own
          rw [AList.lookup_insert] at here
          exact .inr ⟨file, List.mem_cons_self, rfl, (Option.some.inj here).symm⟩
        · rw [AList.lookup_insert_ne own] at here
          exact .inl here
      · exact .inr ⟨other, List.mem_cons_of_mem _ member, same⟩
  rcases loop files ∅ found with none_ | inFiles
  · rw [AList.lookup_empty] at none_
    cases none_
  · exact inFiles

theorem mem_entries {index : Index} {entry : IndexEntry} :
    entry ∈ entries index ↔ ∃ id, index.lookup id = some entry := by
  constructor
  · intro member
    obtain ⟨row, inside, rfl⟩ := List.mem_map.mp member
    exact ⟨row.1, AList.mem_lookup_iff.mpr inside⟩
  · rintro ⟨id, found⟩
    exact List.mem_map.mpr ⟨⟨id, entry⟩, AList.mem_lookup_iff.mp found, rfl⟩

theorem nextSequence_eq {last : Nat} (room : last + 1 < 2 ^ 64) : nextSequence last = last + 1 := Nat.mod_eq_of_lt room

theorem numbersFrom_bounds {todo : List IndexEntry} {last : Nat} (room : last + todo.length < 2 ^ 64) :
    ∀ row ∈ numbersFrom last todo, last < row.1 ∧ row.1 ≤ last + todo.length := by
  induction todo generalizing last with
  | nil => nofun
  | cons entry rest ih =>
    rw [List.length_cons] at room
    have next : nextSequence last = last + 1 := nextSequence_eq (by omega)
    intro row member
    unfold numbersFrom at member
    rw [next] at member
    rcases List.mem_cons.mp member with rfl | later
    · exact ⟨Nat.lt_succ_self _, by rw [List.length_cons]; omega⟩
    · have bounds := ih (by omega) row later
      rw [List.length_cons]
      omega

theorem number_spec (files : Files FileName Bytes) (renamed : TransientId → Bool) (state : Numbering) (entry : IndexEntry) :
    (number files renamed state entry).lastSequence = nextSequence state.lastSequence ∧
    ∃ numbered : IndexEntry, numbered.info = { entry.info with sequence := nextSequence state.lastSequence } ∧
      (number files renamed state entry).index = state.index.insert entry.info.transientId numbered ∧
      (((number files renamed state entry).steps = state.steps ∧ numbered.path = entry.path) ∨
        ∃ body, files.lookup entry.path = some body ∧
          numbered.path = .own entry.info.transientId entry.info.receivedAt entry.info.stampValue
            (nextSequence state.lastSequence) ∧
          (number files renamed state entry).steps =
            state.steps ++ [.change (.rename entry.path numbered.path body)]) := by
  unfold number
  dsimp only
  split
  next body found =>
    split
    · exact ⟨rfl, _, rfl, rfl, .inr ⟨body, found, rfl, rfl⟩⟩
    · exact ⟨rfl, _, rfl, rfl, .inl ⟨rfl, rfl⟩⟩
  · exact ⟨rfl, _, rfl, rfl, .inl ⟨rfl, rfl⟩⟩

theorem number_foldl (files : Files FileName Bytes) (renamed : TransientId → Bool) {todo : List IndexEntry}
    (state : Numbering) (room : state.lastSequence + todo.length < 2 ^ 64) :
    let after := todo.foldl (number files renamed) state
    after.lastSequence = state.lastSequence + todo.length ∧
    (∀ id entry, after.index.lookup id = some entry → state.index.lookup id = some entry ∨
      (entry.info.transientId = id ∧ (entry.info.sequence, id) ∈ numbersFrom state.lastSequence todo)) ∧
    (∀ c, .change c ∈ after.steps → .change c ∈ state.steps ∨
      ∃ old name body, c = .rename old name body ∧ (name.sequence, name.id) ∈ numbersFrom state.lastSequence todo) := by
  induction todo generalizing state with
  | nil => exact ⟨rfl, fun _ _ found => .inl found, fun _ member => .inl member⟩
  | cons first rest ih =>
    rw [List.length_cons] at room
    have next : nextSequence state.lastSequence = state.lastSequence + 1 := nextSequence_eq (by omega)
    obtain ⟨last, numbered, info, index, steps⟩ := number_spec files renamed state first
    obtain ⟨lastAfter, indexAfter, stepsAfter⟩ := ih (number files renamed state first)
      (by rw [last, next]; omega)
    rw [last] at lastAfter indexAfter stepsAfter
    refine ⟨?_, ?_, ?_⟩
    · rw [List.foldl_cons, lastAfter, next, List.length_cons]
      omega
    · intro id entry found
      rcases indexAfter id entry found with earlier | ⟨same, later⟩
      · rw [index] at earlier
        by_cases own : id = first.info.transientId
        · subst own
          rw [AList.lookup_insert] at earlier
          cases earlier
          rw [info]
          exact .inr ⟨rfl, List.mem_cons_self⟩
        · rw [AList.lookup_insert_ne own] at earlier
          exact .inl earlier
      · exact .inr ⟨same, List.mem_cons_of_mem _ later⟩
    · intro c member
      rcases stepsAfter c member with earlier | ⟨old, name, body, shape, later⟩
      · rcases steps with ⟨same, -⟩ | ⟨body, -, path, appended⟩
        · exact .inl (same ▸ earlier)
        · rw [appended, List.mem_append, List.mem_singleton] at earlier
          rcases earlier with before | here
          · exact .inl before
          · cases here
            refine .inr ⟨_, _, _, rfl, ?_⟩
            rw [path]
            exact List.mem_cons_self
      · exact .inr ⟨old, name, body, shape, List.mem_cons_of_mem _ later⟩

/-! ### What the run keeps -/

theorem Known.mono {given later : Given} {sequence : Nat} {id : TransientId} (known : Known given sequence id) :
    Known (given ++ later) sequence id := known.imp_right (List.mem_append_left _)

structure StoreKnown (given : Given) (store : FilePropagationStore) : Prop where
  index : ∀ id entry, store.index.lookup id = some entry → entry.info.transientId = id ∧ Known given entry.info.sequence id
  queued : ∀ id q, store.queued.lookup id = some q →
    q.entry.info.transientId = id ∧ Known given q.entry.info.sequence id

def FilesKnown (given : Given) (files : Files FileName Bytes) : Prop :=
  ∀ name, name ∈ files → Known given name.sequence name.id

structure Traced (at_ : Host × Given) : Prop where
  counted : ∀ store, at_.1.store = some store → ∀ row ∈ at_.2, row.1 ≤ store.lastSequence
  store : ∀ store, at_.1.store = some store → StoreKnown at_.2 store
  files : at_.1.folder.Always (FilesKnown at_.2)
  jobs : ∀ ticket path body supersedes, .write ticket path body supersedes ∈ at_.1.jobs →
    Known at_.2 path.sequence path.id

theorem StoreKnown.mono {given later : Given} {store : FilePropagationStore} (known : StoreKnown given store) :
    StoreKnown (given ++ later) store :=
  ⟨fun id entry found => ⟨(known.index id entry found).1, (known.index id entry found).2.mono⟩,
    fun id q found => ⟨(known.queued id q found).1, (known.queued id q found).2.mono⟩⟩

theorem FilesKnown.mono {given later : Given} {files : Files FileName Bytes} (known : FilesKnown given files) :
    FilesKnown (given ++ later) files := fun name member => (known name member).mono

theorem FilesKnown.apply {given : Given} {files : Files FileName Bytes} (known : FilesKnown given files)
    {c : FolderChange FileName Bytes}
    (placed : ∀ name body, c.placed = some (name, body) → Known given name.sequence name.id) :
    FilesKnown given (c.apply files) := by
  intro name member
  rcases FolderChange.mem_apply member with before | here
  · exact known name before
  · obtain ⟨row, shape, rfl⟩ := Option.map_eq_some_iff.mp here
    exact placed row.1 row.2 shape

theorem FilesKnown.runAll {given : Given} {folder : MessageFolder} {steps : List (FolderStep FileName Bytes)}
    (known : folder.Always (FilesKnown given))
    (placed : ∀ c, .change c ∈ steps → ∀ name body, c.placed = some (name, body) → Known given name.sequence name.id) :
    (folder.runAll steps).Always (FilesKnown given) :=
  known.runAll fun c member _ before => before.apply (placed c member)

theorem StoreKnown.settle {given : Given} {store : FilePropagationStore} (known : StoreKnown given store)
    (answer : Nat × Bool) : StoreKnown given (store.settle answer) := by
  cases settle_settled store answer with
  | direct none_ same =>
    rw [same]
    exact known
  | stale writer writer' was shape queued =>
    rw [shape]
    refine ⟨known.index, ?_⟩
    intro id q found
    rw [queued_of_writer rfl, queued, ← queued_of_writer was] at found
    exact known.queued id q found
  | confirmed writer writer' id q was good found ticket shape queued =>
    rw [shape]
    refine ⟨?_, ?_⟩
    · intro other entry here
      rcases lookup_insert_cases here with ⟨rfl, rfl⟩ | ⟨-, before⟩
      · exact known.queued other q (queued_of_writer was ▸ found)
      · exact known.index other entry before
    · intro other p here
      rw [queued_of_writer rfl, queued] at here
      exact known.queued other p (queued_of_writer was ▸ (lookup_of_lookup_erase here).2)
  | refused writer writer' id q was bad found ticket shape queued =>
    rw [shape]
    refine ⟨known.index, ?_⟩
    intro other p here
    rw [queued_of_writer rfl, queued] at here
    exact known.queued other p (queued_of_writer was ▸ (lookup_of_lookup_erase here).2)

theorem StoreKnown.report {given : Given} {store : FilePropagationStore} (known : StoreKnown given store) :
    StoreKnown given store.report.2 := by
  obtain ⟨index, -, -, -, queued⟩ := report_fields store
  refine ⟨?_, ?_⟩
  · rw [index]
    exact known.index
  · rw [queued]
    exact known.queued

theorem StoreKnown.forgotten {given : Given} {store store' : FilePropagationStore} {id : TransientId} {path : FileName}
    (known : StoreKnown given store) (forgot : Forgotten store id path store') : StoreKnown given store' := by
  cases forgot with
  | queued writer q was found =>
    refine ⟨known.index, ?_⟩
    intro other p here
    rw [queued_of_writer rfl] at here
    exact known.queued other p (queued_of_writer was ▸ (lookup_of_lookup_erase here).2)
  | indexed entry absent found =>
    exact ⟨fun other e here => known.index other e (lookup_of_lookup_erase here).2, known.queued⟩

theorem settle_lastSequence (store : FilePropagationStore) (answer : Nat × Bool) :
    (store.settle answer).lastSequence = store.lastSequence := by
  cases settle_settled store answer with
  | direct none_ same => rw [same]
  | stale writer writer' was shape => rw [shape]
  | confirmed writer writer' id q was good found ticket shape => rw [shape]
  | refused writer writer' id q was bad found ticket shape => rw [shape]

theorem StoreKnown.collect {given : Given} {store : FilePropagationStore} (known : StoreKnown given store)
    (done : List (Nat × Bool)) : StoreKnown given (store.collect done) :=
  collect_induction known (fun _ answer now => now.settle answer)
    fun store through now => ⟨now.index, queued_closeThrough store through ▸ now.queued⟩

theorem collect_lastSequence (store : FilePropagationStore) (done : List (Nat × Bool)) :
    (store.collect done).lastSequence = store.lastSequence :=
  collect_induction (P := fun later => later.lastSequence = store.lastSequence) rfl
    (fun later answer same => (settle_lastSequence later answer).trans same) fun _ _ same => same

theorem pathOf_sequence {store : FilePropagationStore} (room : store.lastSequence + 1 < 2 ^ 64) (a : Append) :
    (store.pathOf a).sequence = store.lastSequence + 1 := nextSequence_eq room

end Leviculum.Store
