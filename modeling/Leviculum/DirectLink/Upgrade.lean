import Leviculum.DirectLink.Signal

/-! One direct-link upgrade attempt: every input returns the steps its caller must carry out. -/

namespace Leviculum.DirectLink

inductive Role where
  | initiator
  | responder
  deriving DecidableEq

inductive Phase where
  | discovering
  | proposing
  | awaitingReady
  | punching
  /-- This side's punch succeeded, and the peer's verdict is awaited. -/
  | committing
  | connected
  deriving DecidableEq

inductive Failure where
  | rejected (reason : UInt8)
  | probeFailed
  | timeout
  | punchFailed
  | glare
  deriving DecidableEq

inductive Step where
  | send (signal : Signal)
  | probe (server : SocketAddr) (protocol : ProbeProtocol)
  | punch (peer : SocketAddr) (alternates : List SocketAddr)
  | established
  | failed (failure : Failure)
  deriving DecidableEq

def discoverTimeoutMs : Nat := 10000
def proposeTimeoutMs : Nat := 10000
def readyTimeoutMs : Nat := 10000
def punchTimeoutMs : Nat := 12000
def commitTimeoutMs : Nat := 12000

def isGlobalV6 (ip : FixedBytes 16) : Bool := (ip.val.headD 0) &&& 0xe0 == 0x20

/-- The peer's host candidates worth punching. -/
def sameNatAlternates (ownPublic peerPublic : SocketAddr) (peerLocal : List SocketAddr) : List SocketAddr :=
  let sameNat := ownPublic.ip = peerPublic.ip
  (peerLocal.filter (fun address => address ≠ peerPublic ∧ address.port ≠ 0)).filter (fun address =>
    match address.ip with
    | .v6 ip => isGlobalV6 ip
    | .v4 _ => sameNat)

structure Session where
  id : SessionId
  role : Role
  phase : Phase
  phaseSinceMs : Nat
  token : FixedBytes 32
  facilitator : SocketAddr
  protocol : ProbeProtocol
  peerPublic : Option SocketAddr
  peerLocal : List SocketAddr
  ownPublic : Option SocketAddr
  /-- Both ends agreed to the two-sided commit, as far as this side knows. -/
  commit : Bool
  /-- The peer's COMPLETE arrived while this side was still punching. -/
  peerCommitted : Bool
  hostPayload : Option Bytes

namespace Session

def initiate (id : SessionId) (token : FixedBytes 32) (facilitator : SocketAddr) (protocol : ProbeProtocol) (nowMs : Nat) :
    Session × List Step :=
  ({ id, role := .initiator, phase := .discovering, phaseSinceMs := nowMs, token, facilitator, protocol
     peerPublic := none, peerLocal := [], ownPublic := none, commit := true, peerCommitted := false
     hostPayload := none },
    [.probe facilitator protocol])

def respond (id : SessionId) (token : FixedBytes 32) (facilitator initiatorPublic : SocketAddr)
    (initiatorLocal : List SocketAddr) (protocol : ProbeProtocol) (nowMs : Nat) : Session × List Step :=
  ({ id, role := .responder, phase := .discovering, phaseSinceMs := nowMs, token, facilitator, protocol
     peerPublic := some initiatorPublic, peerLocal := initiatorLocal, ownPublic := none, commit := false
     peerCommitted := false, hostPayload := none },
    [.send (.accept id), .probe facilitator protocol])

def setCommit (session : Session) (commit : Bool) : Session := { session with commit }

def setHostPayload (session : Session) (payload : Option Bytes) : Session := { session with hostPayload := payload }

/-- When the current phase times out; the source's sum saturates. -/
def deadlineMs (session : Session) : Option Nat :=
  let budget := match session.phase with
    | .discovering => some discoverTimeoutMs
    | .proposing => some proposeTimeoutMs
    | .awaitingReady => some readyTimeoutMs
    | .punching => some punchTimeoutMs
    | .committing => some commitTimeoutMs
    | .connected => none
  budget.map (fun budget => min (session.phaseSinceMs + budget) (2 ^ 64 - 1))

def enter (session : Session) (phase : Phase) (nowMs : Nat) : Session := { session with phase, phaseSinceMs := nowMs }

def probedWithLocal (session : Session) (address : SocketAddr) (localAddresses : List SocketAddr) (nowMs : Nat) :
    Session × List Step :=
  if session.phase ≠ .discovering then (session, [])
  else
    match session.role with
    | .initiator =>
      ({ session.enter .proposing nowMs with ownPublic := some address, hostPayload := none },
        [.send (.request session.id session.facilitator address session.protocol localAddresses session.commit
          session.hostPayload)])
    | .responder =>
      match session.peerPublic with
      | none => (session, [.failed .timeout])
      | some peer =>
        (session.enter .punching nowMs,
          [.send (.ready session.id address localAddresses session.commit),
            .punch peer (sameNatAlternates address peer session.peerLocal)])

def probeFailed (session : Session) : Session × List Step :=
  if session.phase ≠ .discovering then (session, [])
  else
    match session.role with
    | .responder => (session, [.send (.reject session.id rejectUnsupported), .failed .probeFailed])
    | .initiator => (session, [.failed .probeFailed])

/-- What a signal does that fits the phase; `none` for one that does not. -/
def take (session : Session) (signal : Signal) (nowMs : Nat) : Option (Session × List Step) :=
  if signal.session ≠ session.id then none
  else
    match session.role, session.phase, signal with
    | .initiator, .proposing, .accept _ => some (session.enter .awaitingReady nowMs, [])
    | .initiator, .proposing, .reject _ reason | .initiator, .awaitingReady, .reject _ reason =>
      some (session, [.failed (if reason = rejectGlare then .glare else .rejected reason)])
    | .initiator, .awaitingReady, .ready _ responderPublic responderLocal commit =>
      some ({ session.enter .punching nowMs with
          commit := session.commit && commit
          peerPublic := some responderPublic
          peerLocal := responderLocal },
        [.punch responderPublic (match session.ownPublic with
          | some own => sameNatAlternates own responderPublic responderLocal
          | none => [])])
    | _, .punching, .complete _ => if session.commit then some ({ session with peerCommitted := true }, []) else none
    | _, .committing, .complete _ => some (session.enter .connected nowMs, [.established])
    | _, .punching, .reject _ reason | _, .committing, .reject _ reason =>
      if session.commit then some (session, [.failed (.rejected reason)]) else none
    | _, _, _ => none

/-- A signal for this session arrived; one that does not fit the phase is ignored. -/
def signal (session : Session) (signal : Signal) (nowMs : Nat) : Session × List Step :=
  (session.take signal nowMs).getD (session, [])

def punched (session : Session) (succeeded : Bool) (nowMs : Nat) : Session × List Step :=
  if session.phase ≠ .punching then (session, [])
  else if session.commit = false then
    if succeeded then (session.enter .connected nowMs, [.established]) else (session, [.failed .punchFailed])
  else if succeeded then
    if session.peerCommitted then (session.enter .connected nowMs, [.send (.complete session.id), .established])
    else (session.enter .committing nowMs, [.send (.complete session.id)])
  else (session, [.send (.reject session.id rejectPunchFailed), .failed .punchFailed])

/-- Fail the session if its phase deadline has passed. -/
def poll (session : Session) (nowMs : Nat) : Session × List Step :=
  match session.deadlineMs with
  | none => (session, [])
  | some deadline =>
    if deadline ≤ nowMs then
      (session, [.failed (match session.phase with
        | .discovering => .probeFailed
        | .punching => .punchFailed
        | _ => .timeout)])
    else (session, [])

end Session

end Leviculum.DirectLink

/-! Both ends of an upgrade and the ordered channel between them. -/

namespace Leviculum.DirectLink

/-- One end, with what it has reported and exchanged so far. -/
structure Party where
  session : Session
  /-- It reported a failure, and takes no further step. -/
  ended : Bool
  established : Bool
  /-- The punch verdict its session took. -/
  verdict : Option Bool
  sent : List Signal
  heard : List Signal

def sends (steps : List Step) : List Signal :=
  steps.filterMap (fun step => match step with
    | .send signal => some signal
    | _ => none)

def Party.carry (party : Party) (answer : Session × List Step) : Party :=
  { party with
    session := answer.1
    ended := party.ended || answer.2.any (fun step => match step with
      | .failed _ => true
      | _ => false)
    established := party.established || answer.2.any (fun step => match step with
      | .established => true
      | _ => false)
    sent := party.sent ++ sends answer.2 }

/-- Inputs of one end, besides the signals of the other. -/
inductive Input where
  | probed (address : SocketAddr) (localAddresses : List SocketAddr) (nowMs : Nat)
  | probeFailed
  | punched (succeeded : Bool) (nowMs : Nat)
  | poll (nowMs : Nat)

def Party.input (party : Party) : Input → Party
  | .probed address localAddresses nowMs => party.carry (party.session.probedWithLocal address localAddresses nowMs)
  | .probeFailed => party.carry party.session.probeFailed
  | .punched succeeded nowMs =>
    { party.carry (party.session.punched succeeded nowMs) with
      verdict := if party.session.phase = .punching then some succeeded else party.verdict }
  | .poll nowMs => party.carry (party.session.poll nowMs)

def Party.hear (party : Party) (signal : Signal) (nowMs : Nat) : Party :=
  { party.carry (party.session.signal signal nowMs) with heard := party.heard ++ [signal] }

structure Upgrade where
  initiator : Party
  /-- The responder's session exists from the REQUEST on. -/
  responder : Option Party
  toResponder : List Signal
  toInitiator : List Signal

inductive Event where
  | initiator (input : Input)
  | responder (input : Input)
  | deliverToInitiator (nowMs : Nat)
  | deliverToResponder (nowMs : Nat)

namespace Upgrade

/-- What an end has newly sent goes to the back of the queue. -/
def news (before after : Party) : List Signal := after.sent.drop before.sent.length

def start (id : SessionId) (token : FixedBytes 32) (facilitator : SocketAddr) (protocol : ProbeProtocol)
    (hostPayload : Option Bytes) (nowMs : Nat) : Upgrade where
  initiator := {
    session := (Session.initiate id token facilitator protocol nowMs).1.setHostPayload hostPayload
    ended := false, established := false, verdict := none, sent := [], heard := [] }
  responder := none
  toResponder := []
  toInitiator := []

/-- The responder takes a REQUEST, with the commit it offers. -/
def takeRequest (token : FixedBytes 32) (request : Signal) (nowMs : Nat) : Option Party :=
  match request with
  | .request session facilitator initiatorPublic protocol initiatorLocal commit _ =>
    let (fresh, steps) := Session.respond session token facilitator initiatorPublic initiatorLocal protocol nowMs
    some { session := fresh.setCommit commit, ended := false, established := false, verdict := none
           sent := sends steps, heard := [request] }
  | _ => none

def step (run : Upgrade) : Event → Upgrade
  | .initiator input =>
    if run.initiator.ended then run
    else
      let after := run.initiator.input input
      { run with initiator := after, toResponder := run.toResponder ++ news run.initiator after }
  | .responder input =>
    match run.responder with
    | none => run
    | some party =>
      if party.ended then run
      else
        let after := party.input input
        { run with responder := some after, toInitiator := run.toInitiator ++ news party after }
  | .deliverToInitiator nowMs =>
    if run.initiator.ended then run
    else
      match run.toInitiator with
      | [] => run
      | signal :: rest =>
        let after := run.initiator.hear signal nowMs
        { run with initiator := after, toInitiator := rest, toResponder := run.toResponder ++ news run.initiator after }
  | .deliverToResponder nowMs =>
    match run.toResponder with
    | [] => run
    | signal :: rest =>
      match run.responder with
      | none =>
        match takeRequest run.initiator.session.token signal nowMs with
        | none => { run with toResponder := rest }
        | some party => { run with responder := some party, toResponder := rest, toInitiator := run.toInitiator ++ party.sent }
      | some party =>
        if party.ended then run
        else
          let after := party.hear signal nowMs
          { run with responder := some after, toResponder := rest, toInitiator := run.toInitiator ++ news party after }

end Upgrade

/-! ### What one input and one signal can do -/

/-- What becomes of an end under the two-sided commit, whatever its input. -/
inductive Moved (party : Party) : Party → Prop where
  | stay : Moved party party
  | fail : Moved party { party with ended := true }
  | request (address : SocketAddr) (localAddresses : List SocketAddr) (nowMs : Nat) :
      party.session.phase = .discovering → party.session.role = .initiator →
      Moved party { party with
        session := { party.session.enter .proposing nowMs with ownPublic := some address, hostPayload := none }
        sent := party.sent ++ [.request party.session.id party.session.facilitator address party.session.protocol
          localAddresses true party.session.hostPayload] }
  | ready (address : SocketAddr) (localAddresses : List SocketAddr) (nowMs : Nat) :
      party.session.phase = .discovering → party.session.role = .responder →
      Moved party { party with
        session := party.session.enter .punching nowMs
        sent := party.sent ++ [.ready party.session.id address localAddresses true] }
  | unsupported : party.session.phase = .discovering → party.session.role = .responder →
      Moved party { party with
        ended := true
        sent := party.sent ++ [.reject party.session.id rejectUnsupported] }
  | connect (nowMs : Nat) : party.session.phase = .punching → party.session.peerCommitted = true →
      Moved party { party with
        session := party.session.enter .connected nowMs
        established := true
        verdict := some true
        sent := party.sent ++ [.complete party.session.id] }
  | commit (nowMs : Nat) : party.session.phase = .punching → party.session.peerCommitted = false →
      Moved party { party with
        session := party.session.enter .committing nowMs
        verdict := some true
        sent := party.sent ++ [.complete party.session.id] }
  | giveUp : party.session.phase = .punching →
      Moved party { party with
        ended := true
        verdict := some false
        sent := party.sent ++ [.reject party.session.id rejectPunchFailed] }

/-- What becomes of an end when it takes a signal. -/
inductive Took (party : Party) (signal : Signal) : Party → Prop where
  | accepted (nowMs : Nat) : party.session.role = .initiator → party.session.phase = .proposing →
      signal = .accept party.session.id →
      Took party signal { party with
        session := party.session.enter .awaitingReady nowMs
        heard := party.heard ++ [signal] }
  | refused : Took party signal { party with ended := true, heard := party.heard ++ [signal] }
  | readied (address : SocketAddr) (localAddresses : List SocketAddr) (commit : Bool) (nowMs : Nat) :
      party.session.role = .initiator → party.session.phase = .awaitingReady →
      signal = .ready party.session.id address localAddresses commit →
      Took party signal { party with
        session := { party.session.enter .punching nowMs with
          commit := commit
          peerPublic := some address
          peerLocal := localAddresses }
        heard := party.heard ++ [signal] }
  | early : party.session.phase = .punching → signal = .complete party.session.id →
      Took party signal { party with
        session := { party.session with peerCommitted := true }
        heard := party.heard ++ [signal] }
  | completed (nowMs : Nat) : party.session.phase = .committing → signal = .complete party.session.id →
      Took party signal { party with
        session := party.session.enter .connected nowMs
        established := true
        heard := party.heard ++ [signal] }

namespace Party

variable {party : Party}

theorem carry_nothing : party.carry (party.session, []) = party := by
  simp [carry, sends]

theorem carry_failed (failure : Failure) : party.carry (party.session, [.failed failure]) = { party with ended := true } := by
  simp [carry, sends]

theorem input_moved (commit : party.session.commit = true) (alive : party.ended = false)
    (address : party.session.role = .responder → party.session.peerPublic ≠ none) (input : Input) :
    Moved party (party.input input) := by
  cases input with
  | probed own localAddresses nowMs =>
    by_cases phase : party.session.phase = .discovering
    · cases role : party.session.role with
      | initiator =>
        have moved := Moved.request own localAddresses nowMs phase role
        simpa [Party.input, carry, Session.probedWithLocal, phase, role, sends, commit, alive] using moved
      | responder =>
        obtain ⟨peer, known⟩ := Option.ne_none_iff_exists'.mp (address role)
        have moved := Moved.ready own localAddresses nowMs phase role
        simpa [Party.input, carry, Session.probedWithLocal, phase, role, known, sends, commit, alive] using moved
    · have still : party.input (.probed own localAddresses nowMs) = party := by
        simp [Party.input, Session.probedWithLocal, phase, carry_nothing]
      rw [still]
      exact .stay
  | probeFailed =>
    by_cases phase : party.session.phase = .discovering
    · cases role : party.session.role with
      | initiator =>
        have failed : party.input .probeFailed = { party with ended := true } := by
          simp [Party.input, Session.probeFailed, phase, role, carry_failed]
        rw [failed]
        exact .fail
      | responder =>
        have moved := Moved.unsupported phase role
        simpa [Party.input, carry, Session.probeFailed, phase, role, sends, alive] using moved
    · have still : party.input .probeFailed = party := by
        simp [Party.input, Session.probeFailed, phase, carry_nothing]
      rw [still]
      exact .stay
  | punched succeeded nowMs =>
    by_cases phase : party.session.phase = .punching
    · cases succeeded with
      | false =>
        have moved := Moved.giveUp phase
        simpa [Party.input, carry, Session.punched, phase, sends, commit, alive] using moved
      | true =>
        cases first : party.session.peerCommitted with
        | true =>
          have moved := Moved.connect nowMs phase first
          simpa [Party.input, carry, Session.punched, phase, first, sends, commit, alive] using moved
        | false =>
          have moved := Moved.commit nowMs phase first
          simpa [Party.input, carry, Session.punched, phase, first, sends, commit, alive] using moved
    · have still : party.input (.punched succeeded nowMs) = party := by
        simp [Party.input, Session.punched, phase, carry_nothing]
      rw [still]
      exact .stay
  | poll nowMs =>
    have outcome : party.input (.poll nowMs) = party ∨ party.input (.poll nowMs) = { party with ended := true } := by
      simp only [Party.input, Session.poll]
      split
      · exact .inl carry_nothing
      · split
        · exact .inr (carry_failed _)
        · exact .inl carry_nothing
    rcases outcome with still | failed
    · rw [still]
      exact .stay
    · rw [failed]
      exact .fail

theorem hear_took (commit : party.session.commit = true) (alive : party.ended = false) {signal : Signal} {nowMs : Nat}
    (taken : (party.session.take signal nowMs).isSome) : Took party signal (party.hear signal nowMs) := by
  have named : signal.session = party.session.id := by
    by_contra other
    simp [Session.take, other] at taken
  cases signal with
  | request => simp [Session.take] at taken
  | accept session =>
    obtain rfl : session = party.session.id := named
    cases role : party.session.role <;> cases phase : party.session.phase <;>
      simp [Session.take, role, phase, Signal.session] at taken
    have took := Took.accepted nowMs role phase rfl
    simpa [hear, Session.signal, Session.take, role, phase, Signal.session, carry, sends, alive] using took
  | reject session reason =>
    obtain rfl : session = party.session.id := named
    have failed : ∃ failure, party.session.take (.reject party.session.id reason) nowMs =
        some (party.session, [.failed failure]) := by
      cases role : party.session.role <;> cases phase : party.session.phase <;>
        simp [Session.take, role, phase, Signal.session, commit] at taken ⊢
    obtain ⟨failure, took⟩ := failed
    have heard : party.hear (.reject party.session.id reason) nowMs =
        { party with ended := true, heard := party.heard ++ [.reject party.session.id reason] } := by
      simp [hear, Session.signal, took, carry, sends]
    rw [heard]
    exact .refused
  | ready session address localAddresses offered =>
    obtain rfl : session = party.session.id := named
    cases role : party.session.role <;> cases phase : party.session.phase <;>
      simp [Session.take, role, phase, Signal.session] at taken
    have took := Took.readied address localAddresses offered nowMs role phase rfl
    simpa [hear, Session.signal, Session.take, role, phase, Signal.session, carry, sends, alive, commit] using took
  | complete session =>
    obtain rfl : session = party.session.id := named
    have waiting : party.session.phase = .punching ∨ party.session.phase = .committing := by
      cases role : party.session.role <;> cases phase : party.session.phase <;>
        simp [Session.take, role, phase, Signal.session] at taken ⊢
    rcases waiting with phase | phase
    · have took := Took.early phase rfl
      simpa [hear, Session.signal, Session.take, phase, Signal.session, carry, sends, alive, commit] using took
    · have took := Took.completed nowMs phase rfl
      simpa [hear, Session.signal, Session.take, phase, Signal.session, carry, sends, alive] using took

end Party

end Leviculum.DirectLink
