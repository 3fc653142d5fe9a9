import Leviculum.Lib.Folder
import Leviculum.Propagation.Message
import Mathlib.Data.List.Sort

/-! The propagation store of a host, one file for each message. A store with a writer hands every change
of its directory to a queue and settles an append once the writer has confirmed it. -/

namespace Leviculum.Store

open Leviculum.Propagation

/-- A file name that parses: the scheme of the store, or a layout without a sequence (the reference's,
or an earlier one), of which `text` spells the receive time. -/
inductive FileName where
  | own (id : TransientId) (receivedAt : Nat) (stampValue : UInt8) (sequence : Nat)
  | legacy (text : String) (id : TransientId) (receivedAt : Nat) (stampValue : UInt8)
  deriving DecidableEq

namespace FileName

def id : FileName → TransientId
  | own id _ _ _ => id
  | legacy _ id _ _ => id

def receivedAt : FileName → Nat
  | own _ receivedAt _ _ => receivedAt
  | legacy _ _ receivedAt _ => receivedAt

def stampValue : FileName → UInt8
  | own _ _ stampValue _ => stampValue
  | legacy _ _ _ stampValue => stampValue

def sequence : FileName → Nat
  | own _ _ _ sequence => sequence
  | legacy _ _ _ _ => 0

end FileName

abbrev MessageFolder := Folder FileName Bytes

abbrev MessageFile := Sigma (fun _ : FileName => Bytes)

def u32Limit : Nat := 2 ^ 32

/-- The sequence after this one, a `u64`. -/
def nextSequence (last : Nat) : Nat := (last + 1) % 2 ^ 64

structure IndexEntry where
  info : StoredMessage
  path : FileName
  deriving DecidableEq

abbrev Index := AList (fun _ : TransientId => IndexEntry)

def destinationOf (body : Bytes) : DestinationHash :=
  (FixedBytes.take? 16 body).getD (FixedBytes.replicate 16 0)

def entryOf (path : FileName) (body : Bytes) : IndexEntry where
  info := {
    transientId := path.id
    destinationHash := destinationOf body
    size := body.length % u32Limit
    receivedAt := path.receivedAt
    stampValue := path.stampValue
    sequence := path.sequence }
  path := path

/-! ### Opening -/

/-- A file the scan takes: a name that says no sequence 0, and a body of the length of one. -/
def scanned (file : MessageFile) : Bool :=
  minBodyLen ≤ file.2.length && file.2.length < u32Limit &&
    (match file.1 with
      | .own _ _ _ sequence => decide (sequence ≠ 0)
      | .legacy _ _ _ _ => true)

def indexOf (files : List MessageFile) : Index :=
  files.foldl (fun index file => index.insert file.1.id (entryOf file.1 file.2)) ∅

def entries (index : Index) : List IndexEntry := index.entries.map Sigma.snd

def highestSequence (index : Index) : Nat :=
  (entries index).foldl (fun highest entry => max highest entry.info.sequence) 0

/-- The messages without a sequence, oldest first. -/
def unnumbered (index : Index) : List IndexEntry :=
  ((entries index).filter fun entry => entry.info.sequence = 0).insertionSort fun entry other =>
    entry.info.receivedAt < other.info.receivedAt ∨
      (entry.info.receivedAt = other.info.receivedAt ∧
        Bytes.ofBe entry.info.transientId.val ≤ Bytes.ofBe other.info.transientId.val)

structure Numbering where
  index : Index
  lastSequence : Nat
  /-- The renames that persist the numbers. -/
  steps : List (FolderStep FileName Bytes)

/-- Give one message without a sequence the next one, and rename its file. -/
def number (files : Files FileName Bytes) (renamed : TransientId → Bool) (state : Numbering) (entry : IndexEntry) :
    Numbering :=
  let id := entry.info.transientId
  let sequence := nextSequence state.lastSequence
  let name := FileName.own id entry.info.receivedAt entry.info.stampValue sequence
  let numbered := { entry with info := { entry.info with sequence } }
  match files.lookup entry.path with
  | some body =>
    if renamed id then
      { index := state.index.insert id { numbered with path := name }
        lastSequence := sequence
        steps := state.steps ++ [.change (.rename entry.path name body)] }
    else { state with index := state.index.insert id numbered, lastSequence := sequence }
  | none => { state with index := state.index.insert id numbered, lastSequence := sequence }

def numberAll (files : Files FileName Bytes) (renamed : TransientId → Bool) (index : Index) : Numbering :=
  (unnumbered index).foldl (number files renamed) ⟨index, highestSequence index, []⟩

/-! ### The store -/

structure Queued where
  ticket : Nat
  entry : IndexEntry
  body : Bytes
  deriving DecidableEq

inductive Job where
  | write (ticket : Nat) (path : FileName) (body : Bytes) (supersedes : Option FileName)
  | remove (path : FileName)
  deriving DecidableEq

structure Writer where
  issued : Nat
  through : Nat
  /-- Unsettled appends. -/
  tickets : List (Nat × TransientId)
  queued : AList (fun _ : TransientId => Queued)
  failed : List TransientId
  /-- Whether its thread runs. -/
  alive : Bool

structure FilePropagationStore where
  capacity : Nat
  used : Nat
  index : Index
  lastSequence : Nat
  writer : Option Writer

structure SettledWrites where
  through : Nat
  failed : List TransientId
  deriving DecidableEq

/-- The store, the directory, and what lies between the store and its writer. -/
structure Host where
  folder : MessageFolder
  store : Option FilePropagationStore
  jobs : List Job
  done : List (Nat × Bool)

/-- How a durable write ended: before the rename, or after it, with the directory synced or not. -/
inductive WriteOutcome where
  | failed
  | placed (synced : Bool)
  deriving DecidableEq

namespace FilePropagationStore

def openWith (capacity : Nat) (listing : List MessageFile) (files : Files FileName Bytes)
    (renamed : TransientId → Bool) : FilePropagationStore × List (FolderStep FileName Bytes) :=
  let found := listing.filter scanned
  let numbering := numberAll files renamed (indexOf found)
  ({ capacity
     used := (found.map fun file => file.2.length).sum
     index := numbering.index
     lastSequence := numbering.lastSequence
     writer := none },
    numbering.steps)

def writeBehind (store : FilePropagationStore) : FilePropagationStore :=
  match store.writer with
  | some _ => store
  | none => { store with writer := some ⟨0, 0, [], ∅, [], true⟩ }

def settle (store : FilePropagationStore) (answer : Nat × Bool) : FilePropagationStore :=
  match store.writer with
  | none => store
  | some writer =>
    let writer := { writer with through := max writer.through answer.1 }
    match writer.tickets.lookup answer.1 with
    | none => { store with writer := some writer }
    | some id =>
      let writer := { writer with tickets := writer.tickets.filter fun row => row.1 ≠ answer.1 }
      match writer.queued.lookup id with
      | none => { store with writer := some writer }
      | some queued =>
        if queued.ticket ≠ answer.1 then { store with writer := some writer }
        else
          let writer := { writer with queued := writer.queued.erase id }
          if answer.2 then { store with index := store.index.insert id queued.entry, writer := some writer }
          else
            { store with
              used := store.used - queued.entry.info.size
              writer := some { writer with failed := writer.failed ++ [id] } }

def closeThrough (store : FilePropagationStore) (through : Nat) : FilePropagationStore :=
  { store with writer := store.writer.map fun writer => { writer with through } }

/-- The writer died with appends unconfirmed: all of them failed. -/
def abandon (store : FilePropagationStore) : FilePropagationStore :=
  match store.writer with
  | none => store
  | some writer => ((writer.tickets.map fun row => (row.1, false)).foldl settle store).closeThrough writer.issued

/-- Take in the answers there are, and then that no more will come. -/
def collect (store : FilePropagationStore) (done : List (Nat × Bool)) : FilePropagationStore :=
  let store := done.foldl settle store
  if store.writer.all Writer.alive then store else store.abandon

def report (store : FilePropagationStore) : SettledWrites × FilePropagationStore :=
  match store.writer with
  | some writer => (⟨writer.through, writer.failed⟩, { store with writer := some { writer with failed := [] } })
  | none => (⟨0, []⟩, store)

def queued (store : FilePropagationStore) : AList (fun _ : TransientId => Queued) := (store.writer.map Writer.queued).getD ∅

def previous (store : FilePropagationStore) (id : TransientId) : Option IndexEntry :=
  ((store.queued.lookup id).map Queued.entry).or (store.index.lookup id)

end FilePropagationStore

structure Append where
  id : TransientId
  receivedAt : Nat
  stampValue : UInt8
  body : Bytes
  deriving DecidableEq

namespace FilePropagationStore

def pathOf (store : FilePropagationStore) (a : Append) : FileName :=
  .own a.id a.receivedAt a.stampValue (nextSequence store.lastSequence)

def nextUsed (store : FilePropagationStore) (a : Append) : Nat :=
  store.used - (store.previous a.id).elim 0 (fun entry => entry.info.size) + a.body.length

def admits (store : FilePropagationStore) (a : Append) : Except StorageError Unit :=
  if a.body.length < minBodyLen then .error .corrupt
  else if store.nextUsed a > store.capacity then .error .full
  else .ok ()

def appendSteps (store : FilePropagationStore) (a : Append) (synced removed : Bool) : List (FolderStep FileName Bytes) :=
  [.change (.place (store.pathOf a) a.body)] ++ (if synced then [.sync] else []) ++
    (match store.index.lookup a.id with
      | some entry => if removed ∧ entry.path ≠ store.pathOf a then [.change (.unlink entry.path)] else []
      | none => [])

def appended (store : FilePropagationStore) (a : Append) : FilePropagationStore :=
  { store with
    lastSequence := nextSequence store.lastSequence
    index := store.index.insert a.id (entryOf (store.pathOf a) a.body)
    used := store.nextUsed a }

def enqueue (store : FilePropagationStore) (writer : Writer) (a : Append) : FilePropagationStore × Job :=
  let ticket := writer.issued + 1
  let path := store.pathOf a
  ({ store with
      writer := some { writer with
        issued := ticket
        tickets := writer.tickets ++ [(ticket, a.id)]
        queued := writer.queued.insert a.id ⟨ticket, entryOf path a.body, a.body⟩ }
      index := store.index.erase a.id
      lastSequence := nextSequence store.lastSequence
      used := store.nextUsed a },
    .write ticket path a.body (((store.previous a.id).map IndexEntry.path).filter fun other => other ≠ path))

/-- Drop a message from the queue or the index; the file it lives in. -/
def forget (store : FilePropagationStore) (id : TransientId) : Option (FileName × FilePropagationStore) :=
  match store.writer.bind fun writer => (writer.queued.lookup id).map fun queued => (writer, queued) with
  | some (writer, queued) =>
    some (queued.entry.path,
      { store with
        writer := some { writer with queued := writer.queued.erase id }
        used := store.used - queued.entry.info.size })
  | none =>
    (store.index.lookup id).map fun entry =>
      (entry.path, { store with index := store.index.erase id, used := store.used - entry.info.size })

def repricedPath (entry : IndexEntry) (value : UInt8) : FileName :=
  .own entry.info.transientId entry.info.receivedAt value entry.info.sequence

def repriced (store : FilePropagationStore) (entry : IndexEntry) (value : UInt8) : FilePropagationStore :=
  { store with
    index := store.index.insert entry.info.transientId
      { info := { entry.info with stampValue := value }, path := repricedPath entry value } }

def repriceSteps (entry : IndexEntry) (value : UInt8) (body : Bytes) (synced : Bool) :
    List (FolderStep FileName Bytes) :=
  .change (.rename entry.path (repricedPath entry value) body) :: if synced then [.sync] else []

end FilePropagationStore

def Job.steps (synced removed : Bool) : Job → List (FolderStep FileName Bytes)
  | .write _ path body supersedes =>
    [.change (.place path body)] ++ (if synced then [.sync] else []) ++
      (match supersedes with
        | some other => if removed then [.change (.unlink other)] else []
        | none => [])
  | .remove path => if removed then [.change (.unlink path)] else []

/-! ### Runs -/

namespace Host

/-- The call a power cut interrupts. -/
inductive Progress where
  | idle
  /-- The writer's next job. -/
  | job
  | append (a : Append)
  | purge (id : TransientId)
  | setStampValue (id : TransientId) (value : UInt8)
  | opening (listing : List MessageFile)

inductive Event where
  /-- `listing` is the order in which the directory is read. -/
  | open (capacity : Nat) (listing : List MessageFile) (renamed : TransientId → Bool)
  | writeBehind
  | append (a : Append) (outcome : WriteOutcome) (removed : Bool)
  | purge (id : TransientId) (removed : Bool)
  | setStampValue (id : TransientId) (value : UInt8) (renamed synced : Bool)
  | settleWrites
  | work (outcome : WriteOutcome) (removed : Bool)
  /-- The writer's thread dies after `count` steps of its job, and the jobs behind it are lost. -/
  | writerDies (count : Nat)
  | close
  /-- Power goes after `count` steps of the interrupted call on the directory. -/
  | cut (progress : Progress) (count : Nat) (mask : List Bool)

/-- The store before a call that takes in what the writer finished. -/
def collected (h : Host) (store : FilePropagationStore) : FilePropagationStore := store.collect h.done

def append (h : Host) (store : FilePropagationStore) (a : Append) (outcome : WriteOutcome) (removed : Bool) :
    Except StorageError Unit × Host :=
  if a.body.length < minBodyLen then (.error .corrupt, h)
  else
    let store := h.collected store
    let h := { h with store := some store, done := [] }
    match store.admits a with
    | .error error => (.error error, h)
    | .ok () =>
      match store.writer with
      | some writer =>
        if writer.alive then
          let (store, job) := store.enqueue writer a
          (.ok (), { h with store := some store, jobs := h.jobs ++ [job] })
        else (.error .io, h)
      | none =>
        match outcome with
        | .failed => (.error .io, h)
        | .placed synced =>
          (.ok (),
            { h with
              folder := h.folder.runAll (store.appendSteps a synced removed)
              store := some (store.appended a) })

/-- `removed` is false for an error other than the file being gone already. -/
def purge (h : Host) (store : FilePropagationStore) (id : TransientId) (removed : Bool) :
    Except StorageError Bool × Host :=
  match store.forget id with
  | none => (.ok false, h)
  | some (path, store) =>
    if store.writer.any Writer.alive then (.ok true, { h with store := some store, jobs := h.jobs ++ [.remove path] })
    else if removed then (.ok true, { h with store := some store, folder := h.folder.change (.unlink path) })
    else (.error .io, { h with store := some store })

/-- The flush before it has waited for every write. -/
def setStampValue (h : Host) (store : FilePropagationStore) (id : TransientId) (value : UInt8) (renamed synced : Bool) :
    Except StorageError Bool × Host :=
  let store := (h.collected store).report.2
  let h := { h with store := some store, done := [] }
  match store.index.lookup id with
  | none => (.ok false, h)
  | some entry =>
    match h.folder.live.lookup entry.path with
    | none => (.error .io, h)
    | some body =>
      if renamed then
        (.ok true,
          { h with
            folder := h.folder.runAll (FilePropagationStore.repriceSteps entry value body synced)
            store := some (store.repriced entry value) })
      else (.error .io, h)

def settleWrites (h : Host) (store : FilePropagationStore) : SettledWrites × Host :=
  let (report, store) := (h.collected store).report
  (report, { h with store := some store, done := [] })

def work (h : Host) (outcome : WriteOutcome) (removed : Bool) : Host :=
  match h.jobs with
  | [] => h
  | job :: rest =>
    match job with
    | .remove _ => { h with jobs := rest, folder := h.folder.runAll (job.steps false removed) }
    | .write ticket _ _ _ =>
      match outcome with
      | .failed => { h with jobs := rest, done := h.done ++ [(ticket, false)] }
      | .placed synced =>
        { h with
          jobs := rest
          done := h.done ++ [(ticket, true)]
          folder := h.folder.runAll (job.steps synced removed) }

def interrupted (h : Host) : Progress → List (FolderStep FileName Bytes)
  | .idle => []
  | .job => (h.jobs.head?.map (Job.steps true true)).getD []
  | .append a =>
    match h.store.map h.collected with
    | some store =>
      match store.writer, store.admits a with
      | none, .ok () => store.appendSteps a true true
      | _, _ => []
    | none => []
  | .purge id =>
    match h.store.bind fun store => store.forget id with
    | some (path, store) => if store.writer.any Writer.alive then [] else [.change (.unlink path)]
    | none => []
  | .setStampValue id value =>
    match h.store.map h.collected with
    | some store =>
      match store.index.lookup id with
      | some entry =>
        match h.folder.live.lookup entry.path with
        | some body => FilePropagationStore.repriceSteps entry value body true
        | none => []
      | none => []
    | none => []
  | .opening listing => (FilePropagationStore.openWith 0 listing h.folder.live fun _ => true).2

def writerDies (h : Host) (store : FilePropagationStore) (count : Nat) : Host :=
  { h with
    folder := h.folder.runAll ((h.interrupted .job).take count)
    store := some { store with writer := store.writer.map fun writer => { writer with alive := false } }
    jobs := [] }

def cut (h : Host) (progress : Progress) (count : Nat) (mask : List Bool) : Host where
  folder := (h.folder.runAll ((h.interrupted progress).take count)).cut mask
  store := none
  jobs := []
  done := []

def writing (job : Job) : Bool :=
  match job with
  | .write _ _ _ _ => true
  | .remove _ => false

def step (h : Host) : Event → Option Host
  | .open capacity listing renamed =>
    if h.store.isNone ∧ listing.Perm h.folder.live.entries then
      let (store, steps) := FilePropagationStore.openWith capacity listing h.folder.live renamed
      some { h with store := some store, folder := h.folder.runAll steps }
    else none
  | .writeBehind => h.store.map fun store => { h with store := some store.writeBehind }
  | .append a outcome removed => h.store.map fun store => (h.append store a outcome removed).2
  | .purge id removed => h.store.map fun store => (h.purge store id removed).2
  | .setStampValue id value renamed synced =>
    if h.jobs.any writing then none else h.store.map fun store => (h.setStampValue store id value renamed synced).2
  | .settleWrites => h.store.map fun store => (h.settleWrites store).2
  | .work outcome removed => if h.jobs.isEmpty then none else some (h.work outcome removed)
  | .writerDies count =>
    h.store.bind fun store => if store.writer.any Writer.alive then some (h.writerDies store count) else none
  -- Dropping the store waits for its writer.
  | .close => if h.jobs.isEmpty then h.store.map fun _ => { h with store := none, done := [] } else none
  | .cut (.setStampValue id value) count mask =>
    if h.jobs.any writing then none else some (h.cut (.setStampValue id value) count mask)
  | .cut (.opening listing) count mask =>
    if h.store.isNone ∧ listing.Perm h.folder.live.entries then some (h.cut (.opening listing) count mask) else none
  | .cut progress count mask => some (h.cut progress count mask)

def start (files : Files FileName Bytes) : Host := ⟨⟨files, []⟩, none, [], []⟩

end Host

end Leviculum.Store
