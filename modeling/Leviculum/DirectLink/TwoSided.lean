import Leviculum.DirectLink.Commit

/-! The two ends together, over every interleaving of verdicts, timeouts and deliveries. -/

namespace Leviculum.DirectLink

namespace Upgrade

/-- Both ends keep to the exchange, and each queue holds what one end said and the other has not heard. -/
structure Coherent (id : SessionId) (run : Upgrade) : Prop where
  initiator : SaneInitiator id run.initiator
  responder : ∀ party, run.responder = some party → SaneResponder id party
  toInitiator : run.initiator.heard ++ run.toInitiator = (run.responder.map (·.sent)).getD []
  toResponder : (run.responder.map (·.heard)).getD [] ++ run.toResponder = run.initiator.sent

variable {id : SessionId} {run : Upgrade}

theorem coherent_start (id : SessionId) (token : FixedBytes 32) (facilitator : SocketAddr) (protocol : ProbeProtocol)
    (hostPayload : Option Bytes) (nowMs : Nat) : Coherent id (start id token facilitator protocol hostPayload nowMs) where
  initiator := {
    plays := rfl
    named := rfl
    commit := rfl
    address := nofun
    live := fun _ => .discovering
    said := .nothing _
    verdict := fun said => absurd said List.not_mem_nil
    established := fun up => absurd up (by decide : ¬ false = true)
    agreed := fun _ said => absurd said List.not_mem_nil }
  responder := fun _ none => absurd none.symm (Option.some_ne_none _)
  toInitiator := rfl
  toResponder := rfl

theorem take_isSome {session : Session} {signal : Signal} (named : signal.session = session.id) (commit : session.commit = true)
    (nowMs : Nat) (fits : session.role = .initiator ∧ session.phase = .proposing ∧ signal.kind = .accept ∨
      session.role = .initiator ∧ session.phase = .awaitingReady ∧ (signal.kind = .ready ∨ signal.kind = .reject) ∨
      (session.phase = .punching ∨ session.phase = .committing) ∧ (signal.kind = .complete ∨ signal.kind = .reject)) :
    (session.take signal nowMs).isSome := by
  rcases fits with ⟨role, phase, kind⟩ | ⟨role, phase, kind | kind⟩ | ⟨phase | phase, kind | kind⟩
  all_goals cases signal <;> simp [Signal.kind] at kind
  · simp [Session.take, named, role, phase]
  · simp [Session.take, named, role, phase]
  · simp [Session.take, named, role, phase]
  all_goals cases role : session.role <;> simp [Session.take, named, role, phase, commit]

theorem Coherent.order_initiator (coherent : Coherent id run) {signal : Signal} {rest : List Signal}
    (queue : run.toInitiator = signal :: rest) :
    ∃ party, run.responder = some party ∧ run.initiator.heard ++ signal :: rest = party.sent := by
  have order := coherent.toInitiator
  rw [queue] at order
  cases there : run.responder with
  | none =>
    rw [there, Option.map_none, Option.getD_none] at order
    exact absurd order (by simp)
  | some party =>
    rw [there, Option.map_some, Option.getD_some] at order
    exact ⟨party, rfl, order⟩

theorem Coherent.initiator_asked (coherent : Coherent id run) {party : Party} (there : run.responder = some party) :
    kinds run.initiator.sent ≠ [] := by
  have order := congrArg kinds coherent.toResponder
  rw [there, Option.map_some, Option.getD_some, kinds, List.map_append] at order
  have said := (coherent.responder party there).said
  rw [← order]
  generalize kinds party.sent = theirs at said
  change ResponderSaid theirs (party.heard.map Signal.kind) at said
  generalize party.heard.map Signal.kind = heard at said
  cases said <;> simp

theorem Coherent.initiator_fits (coherent : Coherent id run) (alive : run.initiator.ended = false) {signal : Signal}
    {rest : List Signal} (queue : run.toInitiator = signal :: rest) (nowMs : Nat) :
    (run.initiator.session.take signal nowMs).isSome ∧ signal.Agreed id ∧
      ∃ theirs, ResponderSaid (kinds run.initiator.heard ++ signal.kind :: kinds rest) theirs := by
  obtain ⟨party, there, order⟩ := coherent.order_initiator queue
  have sane := coherent.responder party there
  have mine := coherent.initiator
  have agreed : signal.Agreed id := sane.agreed signal (by rw [← order]; simp)
  have said := sane.said
  rw [← order, kinds, List.map_append, List.map_cons] at said
  have asked := coherent.initiator_asked there
  refine ⟨?_, agreed, _, said⟩
  apply take_isSome (agreed.1.trans mine.named.symm) mine.commit
  have at_ := mine.live alive
  change ResponderSaid (kinds run.initiator.heard ++ signal.kind :: kinds rest) _ at said
  rw [mine.plays]
  generalize run.initiator.session.phase = phase at at_ ⊢
  generalize run.initiator.session.peerCommitted = first at at_
  generalize kinds run.initiator.sent = saidMine at at_ asked
  generalize kinds run.initiator.heard = heard at at_ said
  generalize signal.kind = kind at said ⊢
  generalize kinds rest = later at said
  generalize kinds party.heard = theirs at said
  cases at_ with
  | discovering => exact absurd rfl asked
  | proposing => cases said <;> simp
  | awaitingReady => cases said <;> simp
  | punching => cases said <;> simp
  | heardComplete => cases said
  | committing => cases said <;> simp
  | connected first => cases said

theorem Coherent.responder_fits (coherent : Coherent id run) {party : Party} (there : run.responder = some party)
    (alive : party.ended = false) {signal : Signal} {rest : List Signal} (queue : run.toResponder = signal :: rest)
    (nowMs : Nat) :
    (party.session.take signal nowMs).isSome ∧
      ∃ theirs, InitiatorSaid (kinds party.heard ++ signal.kind :: kinds rest) theirs := by
  have order := coherent.toResponder
  rw [there, Option.map_some, Option.getD_some, queue] at order
  have sane := coherent.responder party there
  have mine := coherent.initiator
  have agreed : signal.Agreed id := mine.agreed signal (by rw [← order]; simp)
  have said := mine.said
  rw [← order, kinds, List.map_append, List.map_cons] at said
  refine ⟨?_, _, said⟩
  have heard := congrArg kinds coherent.toInitiator
  rw [there, Option.map_some, Option.getD_some, kinds, List.map_append] at heard
  apply take_isSome (agreed.1.trans sane.named.symm) sane.commit
  have at_ := sane.live alive
  change InitiatorSaid (kinds party.heard ++ signal.kind :: kinds rest) _ at said
  change kinds run.initiator.heard ++ kinds run.toInitiator = _ at heard
  rw [sane.plays]
  generalize party.session.phase = phase at at_ ⊢
  generalize party.session.peerCommitted = first at at_
  generalize kinds party.sent = saidTheirs at at_ heard
  generalize kinds party.heard = heardTheirs at at_ said
  generalize signal.kind = kind at said ⊢
  generalize kinds rest = later at said
  generalize kinds run.initiator.heard = heardMine at said heard
  cases at_ with
  | discovering => cases said <;> simp at heard
  | punching => cases said <;> simp
  | heardComplete => cases said
  | committing => cases said <;> simp
  | connected first => cases said

theorem Coherent.request_first (coherent : Coherent id run) (none : run.responder = none) {signal : Signal}
    {rest : List Signal} (queue : run.toResponder = signal :: rest) : signal.kind = .request ∧ rest = [] := by
  have order := coherent.toResponder
  have unheard := coherent.toInitiator
  rw [none, Option.map_none, Option.getD_none] at order unheard
  rw [List.nil_append, queue] at order
  have said := coherent.initiator.said
  rw [← order, (List.append_eq_nil_iff.mp unheard).1, kinds, List.map_cons] at said
  change InitiatorSaid (signal.kind :: kinds rest) [] at said
  have alone : kinds rest = [] := by
    generalize signal.kind = kind at said
    generalize kinds rest = later at said ⊢
    cases said
    rfl
  constructor
  · generalize signal.kind = kind at said ⊢
    generalize kinds rest = later at said
    cases said
    rfl
  · exact List.map_eq_nil_iff.mp alone

theorem sent_news {before after : Party} (more : ∃ new, after.sent = before.sent ++ new) :
    before.sent ++ news before after = after.sent := by
  obtain ⟨new, shape⟩ := more
  rw [news, shape, List.drop_left]

theorem input_says (party : Party) (input : Input) :
    (party.input input).heard = party.heard ∧ ∃ new, (party.input input).sent = party.sent ++ new := by
  cases input <;> exact ⟨rfl, _, rfl⟩

theorem takeRequest_sane {signal : Signal} (agreed : signal.Agreed id) (asks : signal.kind = .request) (token : FixedBytes 32)
    (nowMs : Nat) : ∃ party, takeRequest token signal nowMs = some party ∧ SaneResponder id party ∧ party.heard = [signal] := by
  cases signal with
  | request session facilitator initiatorPublic protocol initiatorLocal commit hostPayload =>
    refine ⟨_, rfl, ?_, rfl⟩
    exact {
      plays := rfl
      named := agreed.1
      commit := agreed.2
      address := fun _ => Option.some_ne_none _
      live := fun _ => .discovering
      said := .accept _
      verdict := fun said => by simp [kinds, sends, Signal.kind] at said
      established := fun up => absurd up (by decide : ¬ false = true)
      agreed := by
        intro other member
        obtain rfl : other = .accept session := by simpa [sends, Session.respond] using member
        exact ⟨agreed.1, trivial⟩ }
  | accept _ => cases asks
  | reject _ _ => cases asks
  | ready _ _ _ _ => cases asks
  | complete _ => cases asks

theorem coherent_initiator (coherent : Coherent id run) (input : Input) : Coherent id (run.step (.initiator input)) := by
  rw [step]
  split
  · exact coherent
  next alive =>
    have alive : run.initiator.ended = false := by simpa using alive
    have moved := Party.input_moved coherent.initiator.commit alive
      (fun role => absurd (coherent.initiator.plays.symm.trans role) (by decide)) input
    obtain ⟨heard, more⟩ := input_says run.initiator input
    refine ⟨initiator_moved coherent.initiator alive moved, coherent.responder, ?_, ?_⟩
    · show (run.initiator.input input).heard ++ run.toInitiator = _
      rw [heard]
      exact coherent.toInitiator
    · show _ ++ (run.toResponder ++ news run.initiator (run.initiator.input input)) = _
      rw [← List.append_assoc, coherent.toResponder]
      exact sent_news more

theorem coherent_responder (coherent : Coherent id run) (input : Input) : Coherent id (run.step (.responder input)) := by
  simp only [step]
  cases there : run.responder with
  | none => exact coherent
  | some party =>
    dsimp only
    split
    · exact coherent
    next alive =>
      have alive : party.ended = false := by simpa using alive
      have sane := coherent.responder party there
      have moved := Party.input_moved sane.commit alive (fun _ => sane.address rfl) input
      obtain ⟨heard, more⟩ := input_says party input
      have queued := coherent.toInitiator
      have pending := coherent.toResponder
      rw [there, Option.map_some, Option.getD_some] at queued pending
      refine ⟨coherent.initiator, ?_, ?_, ?_⟩
      · intro other same
        obtain rfl := Option.some.inj same
        exact responder_moved sane alive moved
      · show run.initiator.heard ++ (run.toInitiator ++ news party (party.input input)) = (party.input input).sent
        rw [← List.append_assoc, queued]
        exact sent_news more
      · show (party.input input).heard ++ run.toResponder = _
        rw [heard]
        exact pending

theorem coherent_deliverToInitiator (coherent : Coherent id run) (nowMs : Nat) :
    Coherent id (run.step (.deliverToInitiator nowMs)) := by
  simp only [step]
  split
  · exact coherent
  next alive =>
    have alive : run.initiator.ended = false := by simpa using alive
    cases queue : run.toInitiator with
    | nil => exact coherent
    | cons signal rest =>
      obtain ⟨taken, agreed, theirs, order⟩ := coherent.initiator_fits alive queue nowMs
      have took := Party.hear_took coherent.initiator.commit alive taken
      have queued := coherent.toInitiator
      rw [queue] at queued
      refine ⟨initiator_took coherent.initiator alive agreed order took, coherent.responder, ?_, ?_⟩
      · show run.initiator.heard ++ [signal] ++ rest = _
        rw [List.append_assoc]
        exact queued
      · show _ ++ (run.toResponder ++ news run.initiator (run.initiator.hear signal nowMs)) = _
        rw [← List.append_assoc, coherent.toResponder]
        exact sent_news ⟨_, rfl⟩

theorem coherent_takeRequest (coherent : Coherent id run) {signal : Signal} {rest : List Signal}
    (there : run.responder = none) (queue : run.toResponder = signal :: rest) (nowMs : Nat) :
    Coherent id (run.step (.deliverToResponder nowMs)) := by
  have queued := coherent.toInitiator
  have pending := coherent.toResponder
  obtain ⟨asks, last⟩ := coherent.request_first there queue
  rw [there, Option.map_none, Option.getD_none] at queued pending
  rw [queue, List.nil_append] at pending
  have agreed := coherent.initiator.agreed signal (by rw [← pending]; simp)
  obtain ⟨party, taken, sane, heard⟩ := takeRequest_sane agreed asks run.initiator.session.token nowMs
  simp only [step, queue, there, taken]
  refine ⟨coherent.initiator, ?_, ?_, ?_⟩
  · intro other same
    obtain rfl := Option.some.inj same
    exact sane
  · show run.initiator.heard ++ (run.toInitiator ++ party.sent) = party.sent
    rw [← List.append_assoc, queued, List.nil_append]
  · show party.heard ++ rest = _
    rw [heard]
    exact pending

theorem coherent_deliverToResponder (coherent : Coherent id run) (nowMs : Nat) :
    Coherent id (run.step (.deliverToResponder nowMs)) := by
  cases queue : run.toResponder with
  | nil =>
    simp only [step, queue]
    exact coherent
  | cons signal rest =>
    cases there : run.responder with
    | none => exact coherent_takeRequest coherent there queue nowMs
    | some party =>
      simp only [step, queue, there]
      split
      · exact coherent
      next alive =>
        have alive : party.ended = false := by simpa using alive
        have queued := coherent.toInitiator
        have pending := coherent.toResponder
        have sane := coherent.responder party there
        obtain ⟨taken, theirs, order⟩ := coherent.responder_fits there alive queue nowMs
        have took := Party.hear_took sane.commit alive taken
        rw [there, Option.map_some, Option.getD_some] at queued pending
        rw [queue] at pending
        refine ⟨coherent.initiator, ?_, ?_, ?_⟩
        · intro other same
          obtain rfl := Option.some.inj same
          exact responder_took sane alive order took
        · show run.initiator.heard ++ (run.toInitiator ++ news party (party.hear signal nowMs)) = (party.hear signal nowMs).sent
          rw [← List.append_assoc, queued]
          exact sent_news ⟨_, rfl⟩
        · show party.heard ++ [signal] ++ rest = _
          rw [List.append_assoc]
          exact pending

theorem coherent_step (coherent : Coherent id run) (event : Event) : Coherent id (run.step event) := by
  cases event with
  | initiator input => exact coherent_initiator coherent input
  | responder input => exact coherent_responder coherent input
  | deliverToInitiator nowMs => exact coherent_deliverToInitiator coherent nowMs
  | deliverToResponder nowMs => exact coherent_deliverToResponder coherent nowMs

theorem coherent_run (coherent : Coherent id run) (events : List Event) : Coherent id (events.foldl step run) := by
  induction events generalizing run with
  | nil => exact coherent
  | cons event rest ih => exact ih (coherent_step coherent event)

theorem Coherent.both_verdicts (coherent : Coherent id run)
    (up : run.initiator.established = true ∨ ∃ party, run.responder = some party ∧ party.established = true) :
    run.initiator.verdict = some true ∧ ∃ party, run.responder = some party ∧ party.verdict = some true := by
  have mine := coherent.initiator
  rcases up with up | ⟨party, there, up⟩
  · obtain ⟨said, heard⟩ := mine.established up
    have queued := congrArg kinds coherent.toInitiator
    cases there : run.responder with
    | none =>
      rw [there, Option.map_none, Option.getD_none, kinds, List.map_append] at queued
      have silent := (List.append_eq_nil_iff.mp queued).1
      rw [kinds, silent] at heard
      cases heard
    | some party =>
      rw [there, Option.map_some, Option.getD_some, kinds, List.map_append] at queued
      have theirs := (coherent.responder party there).verdict (by rw [← queued]; exact List.mem_append_left _ heard)
      exact ⟨mine.verdict said, party, rfl, theirs⟩
  · obtain ⟨said, heard⟩ := (coherent.responder party there).established up
    have pending := congrArg kinds coherent.toResponder
    rw [there, Option.map_some, Option.getD_some, kinds, List.map_append] at pending
    refine ⟨mine.verdict (by rw [← pending]; exact List.mem_append_left _ heard), party, there, ?_⟩
    exact (coherent.responder party there).verdict said

/-- In every run an end is established only after both punch verdicts were success, and no signal reaches a
live end in a phase that has no use for it. -/
theorem commit_is_two_sided (id : SessionId) (token : FixedBytes 32) (facilitator : SocketAddr) (protocol : ProbeProtocol)
    (hostPayload : Option Bytes) (startMs : Nat) (events : List Event) :
    let run := events.foldl step (start id token facilitator protocol hostPayload startMs)
    (run.initiator.established = true ∨ (∃ party, run.responder = some party ∧ party.established = true) →
      run.initiator.verdict = some true ∧ ∃ party, run.responder = some party ∧ party.verdict = some true) ∧
    (run.initiator.ended = false → ∀ signal rest, run.toInitiator = signal :: rest → ∀ nowMs,
      (run.initiator.session.take signal nowMs).isSome) ∧
    (∀ signal rest, run.toResponder = signal :: rest →
      (run.responder = none → ∀ nowMs, (takeRequest token signal nowMs).isSome) ∧
      ∀ party, run.responder = some party → party.ended = false → ∀ nowMs, (party.session.take signal nowMs).isSome) := by
  intro run
  have coherent : Coherent id run := coherent_run (coherent_start id token facilitator protocol hostPayload startMs) events
  refine ⟨coherent.both_verdicts, ?_, ?_⟩
  · intro alive signal rest queue nowMs
    exact (coherent.initiator_fits alive queue nowMs).1
  · intro signal rest queue
    constructor
    · intro none nowMs
      have pending := coherent.toResponder
      rw [none, Option.map_none, Option.getD_none, queue, List.nil_append] at pending
      have agreed := coherent.initiator.agreed signal (by rw [← pending]; simp)
      obtain ⟨party, taken, -⟩ := takeRequest_sane agreed (coherent.request_first none queue).1 token nowMs
      rw [taken, Option.isSome_some]
    · intro party there alive nowMs
      exact (coherent.responder_fits there alive queue nowMs).1

example :
    let address := SocketAddr.v4 (FixedBytes.replicate 4 1) 5000
    let run := [Event.initiator (.probed address [] 1), .deliverToResponder 2, .deliverToInitiator 3,
      .responder (.probed address [] 4), .responder (.punched true 5), .deliverToInitiator 6, .deliverToInitiator 7,
      .initiator (.punched true 8), .deliverToResponder 9].foldl step
        (start (FixedBytes.replicate 16 7) (FixedBytes.replicate 32 9) address .rnsp none 0)
    run.initiator.established = true ∧ run.responder.map (·.established) = some true := by
  decide

end Upgrade

end Leviculum.DirectLink
