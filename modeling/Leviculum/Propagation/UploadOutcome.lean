import Leviculum.Propagation.Client

/-! Every upload a client submits to a propagation node comes to one outcome. -/

namespace Leviculum.Propagation

/-- What an event tells of the upload on a link. -/
inductive Mark where
  | submitted (id : MessageId)
  | ended (id : MessageId)
  deriving DecidableEq

def PropagationTransportEvent.mark : PropagationTransportEvent → Option (LinkId × Mark)
  | .uploadSubmitted link id _ => some (link, .submitted id)
  | .uploadCompleted link id => some (link, .ended id)
  | .uploadFailed link id _ => some (link, .ended id)
  | .uploadRejected link id _ => some (link, .ended id)
  | _ => none

def allMarks (events : List PropagationTransportEvent) : List (LinkId × Mark) :=
  events.filterMap PropagationTransportEvent.mark

/-- What was said of the uploads on one link, in order. -/
def marks (link : LinkId) (events : List PropagationTransportEvent) : List Mark :=
  ((allMarks events).filter (fun m => m.1 = link)).map Prod.snd

namespace PropagationTransport

def reported : Outcome → List PropagationTransportEvent
  | .ok events => events
  | .error _ => []

inductive Action where
  | ensureLink (destination : DestinationHash)
  | submitUpload (link : LinkId) (id : MessageId) (dataLen : Nat)
  | commitUpload (prepared : PreparedUpload)
  | submitMailboxRequest (link : LinkId) (kind : PropagationRequestKind)
  | close (link : LinkId)
  | cancel (destination : DestinationHash)
  | handleEvent (event : NodeEvent)

/-- A call with what the node answers during it. -/
structure Call where
  node : NodeView
  action : Action

def Call.run (t : PropagationTransport) (call : Call) : Outcome × PropagationTransport :=
  match call.action with
  | .ensureLink destination => t.ensureLink call.node destination
  | .submitUpload link id dataLen => t.submitUpload call.node link id dataLen
  | .commitUpload prepared => t.commitUpload call.node prepared
  | .submitMailboxRequest link kind => t.submitMailboxRequest call.node link kind
  | .close link => (.ok [], t.close link)
  | .cancel destination => (.ok [], t.cancel destination)
  | .handleEvent event => t.handleEvent call.node event

def after (t : PropagationTransport) (log : List PropagationTransportEvent) :
    List Call → PropagationTransport × List PropagationTransportEvent
  | [] => (t, log)
  | call :: calls => after (call.run t).2 (log ++ reported (call.run t).1) calls

/-! ### What a call does to the uploads -/

/-- The link is known and has no upload on it, and the message is not on another one. -/
structure Admits (t : PropagationTransport) (link : LinkId) (id : MessageId) : Prop where
  known : t.linkDestinations.contains link = true
  free : t.pendingUploads.get? link = none
  unsent : t.hasActiveUpload id = false

def PreparedUpload.accepted (prepared : PreparedUpload) (node : NodeView) : Bool :=
  match prepared.representation with
  | .packet => (node.sendPacketOnLink prepared.link).isOk
  | .resource => (node.sendResource prepared.link).isOk

/-- The call forgets no link that has an upload on it, and commits an upload only where a fresh submission would
be admitted. -/
def Call.Sound (t : PropagationTransport) (call : Call) : Prop :=
  match call.action with
  | .ensureLink destination => ∀ link, t.activeLinks.get? destination = some link →
      call.node.linkActive link = false → t.pendingUploads.get? link = none
  | .commitUpload prepared => prepared.accepted call.node = true →
      t.Admits prepared.link prepared.id
  | .handleEvent (.linkEstablished link true) => ∀ destination, t.adoptedDestination call.node link = some destination →
      ∀ other, other ≠ link → t.linkDestinations.get? other = some destination → t.pendingUploads.get? other = none
  | _ => True

/-- One call leaves the uploads alone, or records one, or ends one; and tells so. -/
inductive Changes (t t' : PropagationTransport) (said : List (LinkId × Mark)) : Prop
  | kept (same : t'.pendingUploads = t.pendingUploads) (nothing : said = [])
  | submitted (link : LinkId) (upload : PendingUpload) (admits : t.Admits link upload.id)
      (recorded : t'.pendingUploads = t.pendingUploads.insert link upload)
      (tells : said = [(link, .submitted upload.id)])
  | ended (link : LinkId) (upload : PendingUpload) (was : t.pendingUploads.get? link = some upload)
      (erased : t'.pendingUploads = t.pendingUploads.erase link) (tells : said = [(link, .ended upload.id)])

theorem changes_connect (t : PropagationTransport) (node : NodeView) (destination : DestinationHash) :
    (t.connect node destination).2.pendingUploads = t.pendingUploads ∧ reported (t.connect node destination).1 = [] := by
  unfold connect
  split <;> exact ⟨rfl, rfl⟩

theorem changes_startLink (t : PropagationTransport) (node : NodeView) (destination : DestinationHash) :
    (t.startLink node destination).2.pendingUploads = t.pendingUploads ∧
      reported (t.startLink node destination).1 = [] := by
  unfold startLink
  split_ifs
  · exact ⟨rfl, rfl⟩
  · exact ⟨rfl, rfl⟩
  · exact changes_connect _ node destination

theorem changes_send {t : PropagationTransport} {node : NodeView} {link : LinkId} {id : MessageId}
    {representation : PropagationUploadRepresentation}
    (admits : PreparedUpload.accepted ⟨link, id, representation⟩ node = true → t.Admits link id) :
    Changes t (t.send node link id representation).2 (allMarks (reported (t.send node link id representation).1)) := by
  unfold send
  unfold PreparedUpload.accepted at admits
  cases representation with
  | packet =>
    dsimp only at admits ⊢
    cases sent : node.sendPacketOnLink link with
    | ok packetHash => exact .submitted link ⟨id, .packet packetHash⟩ (admits (by rw [sent]; rfl)) rfl rfl
    | error error => exact .kept rfl rfl
  | resource =>
    dsimp only at admits ⊢
    cases sent : node.sendResource link with
    | ok _ => exact .submitted link ⟨id, .resource⟩ (admits (by rw [sent]; rfl)) rfl rfl
    | error error => exact .kept rfl rfl

theorem changes_beside {t t₁ t' : PropagationTransport} (link : LinkId) (p : PendingUpload → Bool)
    (outcome : MessageId → PropagationTransportEvent) (ends : ∀ id, (outcome id).mark = some (link, .ended id))
    (before : t₁.pendingUploads = t.pendingUploads)
    (after : t'.pendingUploads = (t₁.takeUpload link p outcome).2.pendingUploads) :
    Changes t t' (allMarks (t₁.takeUpload link p outcome).1) := by
  revert after
  unfold takeUpload
  rw [before]
  cases found : (t.pendingUploads.get? link).filter p with
  | none => exact fun after => .kept (after.trans before) rfl
  | some pending =>
    intro after
    have was : t.pendingUploads.get? link = some pending := (Option.filter_eq_some_iff.mp found).1
    refine .ended link pending was after ?_
    simp [allMarks, ends]

theorem allMarks_append (first second : List PropagationTransportEvent) :
    allMarks (first ++ second) = allMarks first ++ allMarks second := List.filterMap_append

theorem changes_handleEvent (t : PropagationTransport) (node : NodeView) (event : NodeEvent) :
    Changes t (t.handleEvent node event).2 (allMarks (reported (t.handleEvent node event).1)) := by
  unfold handleEvent
  split
  next destination =>
    split_ifs
    · obtain ⟨same, nothing⟩ := changes_connect t node destination
      exact .kept same (by rw [nothing]; rfl)
    · exact .kept rfl rfl
  next destination =>
    split_ifs
    · obtain ⟨same, nothing⟩ := changes_connect t node destination
      exact .kept same (by rw [nothing]; rfl)
    · exact .kept rfl rfl
  next link => split <;> exact .kept rfl rfl
  next link request data => split <;> exact .kept rfl rfl
  next link request => split <;> exact .kept rfl rfl
  next link packet => exact changes_beside link _ _ (fun _ => rfl) rfl rfl
  next link packet => exact changes_beside link _ _ (fun _ => rfl) rfl rfl
  next link signal => exact changes_beside link _ _ (fun _ => rfl) rfl rfl
  next link progress transferSize =>
    refine .kept rfl ?_
    cases (t.pendingUploads.get? link).filter PendingUpload.isResource <;> rfl
  next link progress transferSize =>
    refine .kept rfl ?_
    cases t.pendingRequests.values.find? _ <;> rfl
  next link resource segmentIndex totalSegments =>
    exact changes_beside link _ _ (fun _ => rfl) rfl rfl
  next link resource =>
    dsimp only
    split
    · show Changes t _ (allMarks (_ ++ [_]))
      have silent : ∀ kind, allMarks [.requestTimedOut link kind] = [] := fun _ => rfl
      rw [allMarks_append, silent, List.append_nil]
      exact changes_beside link _ _ (fun _ => rfl) rfl rfl
    · exact changes_beside link _ _ (fun _ => rfl) rfl rfl
  next link reason =>
    split
    next destination known =>
      show Changes t _ (allMarks (_ ++ [_]))
      have silent : allMarks [.linkClosed link destination reason] = [] := rfl
      rw [allMarks_append, silent, List.append_nil]
      exact changes_beside link _ _ (fun _ => rfl) rfl rfl
    next => exact .kept rfl rfl
  next => exact .kept rfl rfl

theorem admits_of_ok {t : PropagationTransport} {node : NodeView} {link : LinkId} {id : MessageId}
    (ok : t.admitUpload node link id = .ok ()) : t.Admits link id := by
  unfold admitUpload at ok
  split_ifs at ok with unavailable busy
  simp only [Bool.or_eq_true, Bool.not_eq_true', not_or, Bool.not_eq_false] at unavailable busy
  exact ⟨unavailable.1, OrdMap.contains_eq_false.mp (Bool.eq_false_iff.mpr busy.1), Bool.eq_false_iff.mpr busy.2⟩

theorem changes_run {t : PropagationTransport} {call : Call} (sound : call.Sound t) :
    Changes t (call.run t).2 (allMarks (reported (call.run t).1)) := by
  obtain ⟨node, action⟩ := call
  unfold Call.run
  cases action with
  | ensureLink destination =>
    dsimp only
    unfold ensureLink
    split
    · split_ifs
      · exact .kept rfl rfl
      · obtain ⟨same, nothing⟩ := changes_startLink
          { t with
            activeLinks := t.activeLinks.erase destination
            linkDestinations := t.linkDestinations.erase _ } node destination
        exact .kept same (by rw [nothing]; rfl)
    · obtain ⟨same, nothing⟩ := changes_startLink t node destination
      exact .kept same (by rw [nothing]; rfl)
  | submitUpload link id dataLen =>
    dsimp only
    unfold submitUpload
    split
    next => exact .kept rfl rfl
    next admitted => exact changes_send (fun _ => admits_of_ok admitted)
  | commitUpload prepared => exact changes_send sound
  | submitMailboxRequest link kind =>
    dsimp only
    unfold submitMailboxRequest
    split_ifs
    · exact .kept rfl rfl
    · split <;> exact .kept rfl rfl
  | close link =>
    dsimp only
    unfold close
    split <;> exact .kept rfl rfl
  | cancel destination => exact .kept rfl rfl
  | handleEvent event => exact changes_handleEvent t node event

/-! ### The links of pending uploads -/

/-- Every pending upload is on a link the transport knows, and no message is on two of them. -/
structure Accounted (t : PropagationTransport) : Prop where
  known : ∀ link upload, t.pendingUploads.get? link = some upload → t.linkDestinations.contains link = true
  single : ∀ link other upload upload', t.pendingUploads.get? link = some upload →
    t.pendingUploads.get? other = some upload' → upload.id = upload'.id → link = other

theorem contains_insert_of_contains {K V : Type} [LinearOrder K] {m : OrdMap K V} {key : K}
    (held : m.contains key = true) (other : K) (value : V) : (m.insert other value).contains key = true := by
  unfold OrdMap.contains at held ⊢
  rw [OrdMap.get?_insert]
  split_ifs
  · rfl
  · exact held

theorem contains_erase_of_ne {K V : Type} [LinearOrder K] {m : OrdMap K V} {key other : K}
    (held : m.contains key = true) (apart : key ≠ other) : (m.erase other).contains key = true := by
  unfold OrdMap.contains at held ⊢
  rw [OrdMap.get?_erase, if_neg apart]
  exact held

/-- The links a call forgets have no upload left. -/
def KeepsLinks (t t' : PropagationTransport) : Prop :=
  ∀ link, t.linkDestinations.contains link = true → (t'.pendingUploads.get? link).isSome →
    t'.linkDestinations.contains link = true

theorem keepsLinks_connect (t : PropagationTransport) (node : NodeView) (destination : DestinationHash) :
    ∀ link, t.linkDestinations.contains link = true →
      (t.connect node destination).2.linkDestinations.contains link = true := by
  intro link held
  unfold connect
  split
  · exact held
  · exact contains_insert_of_contains held _ _

theorem keepsLinks_startLink (t : PropagationTransport) (node : NodeView) (destination : DestinationHash) :
    ∀ link, t.linkDestinations.contains link = true →
      (t.startLink node destination).2.linkDestinations.contains link = true := by
  intro link held
  unfold startLink
  split_ifs
  · exact held
  · exact held
  · exact keepsLinks_connect _ node destination link held

theorem linkDestinations_send (t : PropagationTransport) (node : NodeView) (link : LinkId) (id : MessageId)
    (representation : PropagationUploadRepresentation) :
    (t.send node link id representation).2.linkDestinations = t.linkDestinations := by
  unfold send
  split <;> split <;> rfl

theorem linkDestinations_takeUpload (t : PropagationTransport) (link : LinkId) (p : PendingUpload → Bool)
    (outcome : MessageId → PropagationTransportEvent) :
    (t.takeUpload link p outcome).2.linkDestinations = t.linkDestinations := by
  unfold takeUpload
  split <;> rfl

theorem takeUpload_none (t : PropagationTransport) (link : LinkId) (outcome : MessageId → PropagationTransportEvent) :
    (t.takeUpload link (fun _ => true) outcome).2.pendingUploads.get? link = none := by
  unfold takeUpload
  cases found : t.pendingUploads.get? link with
  | none => exact found
  | some pending => exact (OrdMap.get?_erase ..).trans (if_pos rfl)

theorem keepsLinks_handleEvent {t : PropagationTransport} {node : NodeView} {event : NodeEvent}
    (sound : Call.Sound t ⟨node, .handleEvent event⟩) : KeepsLinks t (t.handleEvent node event).2 := by
  intro link held
  have taken : ∀ other p outcome, (t.takeUpload other p outcome).2.linkDestinations.contains link = true := by
    intro other p outcome
    rw [linkDestinations_takeUpload]
    exact held
  unfold handleEvent
  split
  next destination =>
    split_ifs
    · exact fun _ => keepsLinks_connect t node destination link held
    · exact fun _ => held
  next destination =>
    split_ifs
    · exact fun _ => keepsLinks_connect t node destination link held
    · exact fun _ => held
  next established =>
    split
    next destination adopted =>
      intro pending
      show ((t.linkDestinations.retain _).insert established destination).contains link = true
      by_cases same : link = established
      · subst same
        unfold OrdMap.contains
        rw [OrdMap.get?_insert, if_pos rfl]
        rfl
      · refine contains_insert_of_contains ?_ _ _
        obtain ⟨known, found⟩ := Option.isSome_iff_exists.mp held
        have elsewhere : known ≠ destination := by
          rintro rfl
          have none' := sound known adopted link same found
          rw [show (t.adoptLink established known).pendingUploads.get? link = none from none'] at pending
          cases pending
        have kept := (OrdMap.get?_retain (m := t.linkDestinations) (p := fun known' knownDestination =>
          decide (known' = established ∨ knownDestination ≠ destination))).mpr ⟨found, by simp [elsewhere]⟩
        unfold OrdMap.contains
        rw [kept]
        rfl
    next => exact fun _ => held
  next => split <;> exact fun _ => held
  next => split <;> exact fun _ => held
  next => exact fun _ => taken _ _ _
  next => exact fun _ => taken _ _ _
  next => exact fun _ => taken _ _ _
  next => exact fun _ => held
  next => exact fun _ => held
  next => exact fun _ => taken _ _ _
  next =>
    dsimp only
    split <;> exact fun _ => taken _ _ _
  next closed reason =>
    split
    next destination known =>
      intro pending
      dsimp only at pending ⊢
      rw [linkDestinations_takeUpload]
      by_cases same : link = closed
      · subst same
        rw [takeUpload_none] at pending
        cases pending
      · exact contains_erase_of_ne held same
    next => exact fun _ => held
  next => exact fun _ => held

theorem keepsLinks_run {t : PropagationTransport} {call : Call} (sound : call.Sound t) : KeepsLinks t (call.run t).2 := by
  obtain ⟨node, action⟩ := call
  unfold Call.run
  cases action with
  | ensureLink destination =>
    intro link held pending
    dsimp only at pending ⊢
    unfold ensureLink at pending ⊢
    split at pending
    next active found =>
      split_ifs at pending ⊢ with up
      · exact held
      · refine keepsLinks_startLink _ node destination link ?_
        have apart : link ≠ active := by
          rintro rfl
          rw [(changes_startLink _ node destination).1] at pending
          rw [sound link found (Bool.eq_false_iff.mpr up)] at pending
          cases pending
        exact contains_erase_of_ne held apart
    next found => exact keepsLinks_startLink t node destination link held
  | submitUpload link id dataLen =>
    intro other held _
    dsimp only
    unfold submitUpload
    split
    · exact held
    · rw [linkDestinations_send]
      exact held
  | commitUpload prepared =>
    intro other held _
    show (t.send node _ _ _).2.linkDestinations.contains other = true
    rw [linkDestinations_send]
    exact held
  | submitMailboxRequest link kind =>
    intro other held _
    dsimp only
    unfold submitMailboxRequest
    split_ifs
    · exact held
    · split <;> exact held
  | close link =>
    intro other held _
    dsimp only
    unfold close
    split <;> exact held
  | cancel destination => exact fun _ held _ => held
  | handleEvent event => exact keepsLinks_handleEvent sound

theorem not_active {t : PropagationTransport} {id : MessageId} (unsent : t.hasActiveUpload id = false) {link : LinkId}
    {upload : PendingUpload} (held : t.pendingUploads.get? link = some upload) : upload.id ≠ id := by
  intro same
  unfold hasActiveUpload at unsent
  rw [List.any_eq_false] at unsent
  exact unsent upload (OrdMap.mem_values.mpr ⟨link, held⟩) (by simpa using same)

theorem accounted_run {t : PropagationTransport} {call : Call} (sound : call.Sound t) (accounted : t.Accounted) :
    (call.run t).2.Accounted := by
  have keeps := keepsLinks_run sound
  have changes := changes_run sound
  generalize (call.run t).2 = t' at keeps changes
  generalize allMarks (reported (call.run t).1) = said at changes
  cases changes with
  | kept same nothing =>
    refine ⟨?_, ?_⟩
    · intro link upload held
      have before := accounted.known link upload (same ▸ held)
      exact keeps link before (by rw [held]; rfl)
    · rw [same]
      exact accounted.single
  | submitted link upload admits recorded tells =>
    have lookup : ∀ other, t'.pendingUploads.get? other =
        if other = link then some upload else t.pendingUploads.get? other := by
      intro other
      rw [recorded, OrdMap.get?_insert]
      congr
    refine ⟨?_, ?_⟩
    · intro other upload' held
      by_cases here : other = link
      · subst here
        exact keeps other admits.known (by rw [held]; rfl)
      · have before := (lookup other).symm.trans held
        rw [if_neg here] at before
        exact keeps other (accounted.known other upload' before) (by rw [held]; rfl)
    · intro first second one two heldFirst heldSecond same
      rw [lookup] at heldFirst heldSecond
      split_ifs at heldFirst heldSecond with atFirst atSecond atSecond
      · rw [atFirst, atSecond]
      · cases heldFirst
        exact absurd same.symm (not_active admits.unsent heldSecond)
      · cases heldSecond
        exact absurd same (not_active admits.unsent heldFirst)
      · exact accounted.single first second one two heldFirst heldSecond same
  | ended link upload was erased tells =>
    have older : ∀ other upload', t'.pendingUploads.get? other = some upload' →
        t.pendingUploads.get? other = some upload' := by
      intro other upload' held
      rw [erased, OrdMap.get?_erase] at held
      split_ifs at held
      exact held
    refine ⟨?_, ?_⟩
    · intro other upload' held
      exact keeps other (accounted.known other upload' (older other upload' held)) (by rw [held]; rfl)
    · intro first second one two heldFirst heldSecond same
      exact accounted.single first second one two (older _ _ heldFirst) (older _ _ heldSecond) same

/-! ### Whole runs -/

/-- Submissions and outcomes alternate, and the last submission is open exactly while an upload is pending. -/
inductive Paired : List Mark → Option MessageId → Prop
  | nil : Paired [] none
  | submitted {said : List Mark} (id : MessageId) (before : Paired said none) :
      Paired (said ++ [.submitted id]) (some id)
  | ended {said : List Mark} {id : MessageId} (before : Paired said (some id)) : Paired (said ++ [.ended id]) none

theorem marks_append (link : LinkId) (first second : List PropagationTransportEvent) :
    marks link (first ++ second) = marks link first ++ marks link second := by
  unfold marks
  rw [allMarks_append, List.filter_append, List.map_append]

theorem marks_of_allMarks {events : List PropagationTransportEvent} {said : List (LinkId × Mark)}
    (all : allMarks events = said) (link : LinkId) :
    marks link events = (said.filter (fun m => m.1 = link)).map Prod.snd := by
  rw [← all]
  rfl

theorem paired_run {t : PropagationTransport} {call : Call} {log : List PropagationTransportEvent} (sound : call.Sound t)
    (link : LinkId) (paired : Paired (marks link log) ((t.pendingUploads.get? link).map PendingUpload.id)) :
    Paired (marks link (log ++ reported (call.run t).1))
      (((call.run t).2.pendingUploads.get? link).map PendingUpload.id) := by
  have changes := changes_run sound
  rw [marks_append]
  generalize (call.run t).2 = t' at changes
  generalize reported (call.run t).1 = events at changes
  cases changes with
  | kept same nothing =>
    rw [same, marks_of_allMarks nothing, List.filter_nil, List.map_nil, List.append_nil]
    exact paired
  | submitted at' upload admits recorded tells =>
    rw [marks_of_allMarks tells, recorded, OrdMap.get?_insert]
    by_cases here : link = at'
    · subst here
      rw [admits.free] at paired
      simpa using Paired.submitted upload.id paired
    · simpa [here, Ne.symm here] using paired
  | ended at' upload was erased tells =>
    rw [marks_of_allMarks tells, erased, OrdMap.get?_erase]
    by_cases here : link = at'
    · subst here
      rw [was] at paired
      simpa using Paired.ended paired
    · simpa [here, Ne.symm here] using paired

theorem run_paired (calls : List Call) {t : PropagationTransport} {log : List PropagationTransportEvent}
    (accounted : t.Accounted) (paired : ∀ link, Paired (marks link log) ((t.pendingUploads.get? link).map PendingUpload.id))
    (sound : ∀ done call rest, calls = done ++ call :: rest → call.Sound (after t log done).1) :
    (after t log calls).1.Accounted ∧ ∀ link, Paired (marks link (after t log calls).2)
      (((after t log calls).1.pendingUploads.get? link).map PendingUpload.id) := by
  induction calls generalizing t log with
  | nil => exact ⟨accounted, paired⟩
  | cons call calls ih =>
    have here : call.Sound t := sound [] call calls rfl
    exact ih (accounted_run here accounted) (fun link => paired_run here link (paired link))
      (fun done next rest split => sound (call :: done) next rest (by rw [split]; rfl))

theorem Paired.getLast {said : List Mark} {id : MessageId} (paired : Paired said (some id)) :
    said.getLast? = some (.submitted id) := by
  cases paired with
  | submitted _ before => exact List.getLast?_concat

theorem Paired.next {said : List Mark} {pending : Option MessageId} (paired : Paired said pending)
    {before later : List Mark} {id : MessageId} (split : said = before ++ .submitted id :: later) :
    (later = [] ∧ pending = some id) ∨
      ∃ rest, later = .ended id :: rest ∧ ∀ id', rest.head? ≠ some (.ended id') := by
  induction paired generalizing later with
  | nil => simp at split
  | @submitted said last _ ih =>
    rcases List.eq_nil_or_concat' later with rfl | ⟨inner, final, rfl⟩
    · obtain ⟨-, same⟩ := List.append_inj' split rfl
      cases same
      exact .inl ⟨rfl, rfl⟩
    · rw [← List.cons_append, ← List.append_assoc] at split
      obtain ⟨shorter, same⟩ := List.append_inj' split rfl
      cases same
      rcases ih shorter with ⟨-, absurd'⟩ | ⟨rest, rfl, alone⟩
      · cases absurd'
      · refine .inr ⟨rest ++ [.submitted last], rfl, ?_⟩
        intro id' head
        cases rest with
        | nil => cases head
        | cons first rest => exact alone id' head
  | @ended said last open_ ih =>
    rcases List.eq_nil_or_concat' later with rfl | ⟨inner, final, rfl⟩
    · obtain ⟨-, same⟩ := List.append_inj' split rfl
      cases same
    · rw [← List.cons_append, ← List.append_assoc] at split
      obtain ⟨shorter, same⟩ := List.append_inj' split rfl
      cases same
      rcases ih shorter with ⟨rfl, same⟩ | ⟨rest, rfl, alone⟩
      · cases same
        exact .inr ⟨[], rfl, nofun⟩
      · refine .inr ⟨rest ++ [.ended last], rfl, ?_⟩
        intro id' head
        cases rest with
        | nil =>
          have final := open_.getLast
          rw [shorter] at final
          simp at final
        | cons first rest => exact alone id' head

theorem pendingUploads_linkClosed (t : PropagationTransport) (node : NodeView) (link : LinkId) (reason : LinkCloseReason)
    (accounted : t.Accounted) : (t.handleEvent node (.linkClosed link reason)).2.pendingUploads.get? link = none := by
  unfold handleEvent
  dsimp only
  split
  · exact takeUpload_none _ link _
  next unknown =>
    cases held : t.pendingUploads.get? link with
    | none => rfl
    | some upload =>
      have known := accounted.known link upload held
      rw [OrdMap.contains, unknown] at known
      cases known

theorem hasActiveUpload_closed {t : PropagationTransport} (accounted : t.Accounted) {link : LinkId}
    {upload : PendingUpload} (held : t.pendingUploads.get? link = some upload) (node : NodeView)
    (reason : LinkCloseReason) :
    (t.handleEvent node (.linkClosed link reason)).2.hasActiveUpload upload.id = false := by
  obtain ⟨destination, known⟩ := Option.isSome_iff_exists.mp (accounted.known link upload held)
  have erased : (t.handleEvent node (.linkClosed link reason)).2.pendingUploads = t.pendingUploads.erase link := by
    simp only [handleEvent, takeUpload, known, held]
    rfl
  unfold hasActiveUpload
  rw [List.any_eq_false, erased]
  intro other within same
  obtain ⟨elsewhere, found⟩ := OrdMap.mem_values.mp within
  rw [OrdMap.get?_erase] at found
  split_ifs at found with here
  exact here (accounted.single elsewhere link other upload found held (by simpa using same))

/-- Where no call forgets a link with an upload on it and commits are admitted as submissions are, every upload
submitted is open or has had exactly one outcome; handling the end of its link leaves none open. -/
theorem upload_ends_once {calls : List Call}
    (sound : ∀ done call rest, calls = done ++ call :: rest → call.Sound (after .new [] done).1) (link : LinkId) :
    (∀ before id later, marks link (after .new [] calls).2 = before ++ .submitted id :: later →
      (later = [] ∧ ((after .new [] calls).1.pendingUploads.get? link).map PendingUpload.id = some id) ∨
        ∃ rest, later = .ended id :: rest ∧ ∀ id', rest.head? ≠ some (.ended id')) ∧
    ∀ node reason, ∀ closed, closed = (after .new [] calls).1.handleEvent node (.linkClosed link reason) →
      (∀ before id later, marks link ((after .new [] calls).2 ++ reported closed.1) = before ++ .submitted id :: later →
        ∃ rest, later = .ended id :: rest ∧ ∀ id', rest.head? ≠ some (.ended id')) ∧
      closed.2.pendingUploads.get? link = none ∧
      ∀ upload, (after .new [] calls).1.pendingUploads.get? link = some upload →
        closed.2.hasActiveUpload upload.id = false := by
  have start : Accounted .new := ⟨nofun, nofun⟩
  have unopened : ∀ link, Paired (marks link []) ((new.pendingUploads.get? link).map PendingUpload.id) :=
    fun _ => .nil
  obtain ⟨accounted, paired⟩ := run_paired calls start unopened sound
  refine ⟨fun before id later split => (paired link).next split, ?_⟩
  rintro node reason closed rfl
  have closing : Call.Sound (after .new [] calls).1 ⟨node, .handleEvent (.linkClosed link reason)⟩ := trivial
  have gone := pendingUploads_linkClosed (after .new [] calls).1 node link reason accounted
  have ended := paired_run closing link (paired link)
  change Paired (marks link (_ ++ reported ((after .new [] calls).1.handleEvent node (.linkClosed link reason)).1))
    ((((after .new [] calls).1.handleEvent node (.linkClosed link reason)).2.pendingUploads.get? link).map
      PendingUpload.id) at ended
  rw [gone] at ended
  refine ⟨?_, gone, ?_⟩
  · intro before id later split
    rcases ended.next split with ⟨-, open_⟩ | outcome
    · cases open_
    · exact outcome
  · intro upload held
    exact hasActiveUpload_closed accounted held node reason

/-! ### Runs -/

def nodeDestination : DestinationHash := FixedBytes.replicate 16 1
def nodeLink : LinkId := FixedBytes.replicate 16 2
def secondLink : LinkId := FixedBytes.replicate 16 5
def firstMessage : MessageId := FixedBytes.replicate 32 3
def firstPacket : PacketHash := FixedBytes.replicate 32 4

/-- A node with a path to the propagation node, whose first link to it is up or not. -/
def reachable (up : Bool) : NodeView where
  linkActive link := up && link = nodeLink
  linkDestination _ := some nodeDestination
  hasPath _ := true
  connect _ := .ok (if up then nodeLink else secondLink)
  sendPacketOnLink _ := .ok firstPacket
  sendResource _ := .ok ()
  sendRequest _ := .error .request

def submission : List Call :=
  [⟨reachable true, .ensureLink nodeDestination⟩, ⟨reachable true, .handleEvent (.linkEstablished nodeLink true)⟩,
    ⟨reachable true, .submitUpload nodeLink firstMessage 100⟩]

theorem submission_sound : ∀ done call rest, submission = done ++ call :: rest →
    call.Sound (after .new [] done).1 := by
  intro done call rest split
  rcases done with _ | ⟨_, _ | ⟨_, _ | ⟨_, done⟩⟩⟩
  · cases split
    exact nofun
  · cases split
    intro destination adopted other apart known
    rfl
  · cases split
    trivial
  · simp [submission] at split

/-- An upload that is open when its link closes ends then. -/
theorem upload_closed_with_link :
    ((after .new [] submission).1.pendingUploads.get? nodeLink).map PendingUpload.id = some firstMessage ∧
      ((after .new [] submission).1.handleEvent (reachable false) (.linkClosed nodeLink .timeout)).2.hasActiveUpload
        firstMessage = false :=
  ⟨by decide, ((upload_ends_once submission_sound nodeLink).2 (reachable false) .timeout _ rfl).2.2
    ⟨firstMessage, .packet firstPacket⟩ (by decide)⟩

/-- The link is asked for again while it is stale, and then closes: the upload on it never ends. -/
theorem stale_link_orphans_upload :
    marks nodeLink (after .new [] (submission ++ [⟨reachable false, .ensureLink nodeDestination⟩,
        ⟨reachable false, .handleEvent (.linkClosed nodeLink .stale)⟩])).2 = [.submitted firstMessage] ∧
      (after .new [] (submission ++ [⟨reachable false, .ensureLink nodeDestination⟩,
        ⟨reachable false, .handleEvent (.linkClosed nodeLink .stale)⟩])).1.hasActiveUpload firstMessage = true := by
  decide

end PropagationTransport

end Leviculum.Propagation
