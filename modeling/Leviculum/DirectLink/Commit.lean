import Leviculum.DirectLink.Upgrade
import Mathlib.Data.List.Basic

/-! The two-sided commit over every run: what each end has said and heard fixes its phase, so every signal
fits when it arrives, and nobody moves alone. -/

namespace Leviculum.DirectLink

inductive Kind where
  | request
  | accept
  | ready
  | complete
  | reject
  deriving DecidableEq

def Signal.kind : Signal → Kind
  | .request .. => .request
  | .accept _ => .accept
  | .ready .. => .ready
  | .complete _ => .complete
  | .reject .. => .reject

/-- A signal of this session that stands by the two-sided commit. -/
def Signal.Agreed (id : SessionId) (signal : Signal) : Prop :=
  signal.session = id ∧ match signal with
    | .request _ _ _ _ _ commit _ => commit = true
    | .ready _ _ _ commit => commit = true
    | _ => True

def kinds (signals : List Signal) : List Kind := signals.map Signal.kind

/-- Where a live initiator stands: its phase, whether the peer committed, what it said and what it heard. -/
inductive InitiatorAt : Phase → Bool → List Kind → List Kind → Prop where
  | discovering : InitiatorAt .discovering false [] []
  | proposing : InitiatorAt .proposing false [.request] []
  | awaitingReady : InitiatorAt .awaitingReady false [.request] [.accept]
  | punching : InitiatorAt .punching false [.request] [.accept, .ready]
  | heardComplete : InitiatorAt .punching true [.request] [.accept, .ready, .complete]
  | committing : InitiatorAt .committing false [.request, .complete] [.accept, .ready]
  | connected (first : Bool) : InitiatorAt .connected first [.request, .complete] [.accept, .ready, .complete]

inductive ResponderAt : Phase → Bool → List Kind → List Kind → Prop where
  | discovering : ResponderAt .discovering false [.accept] [.request]
  | punching : ResponderAt .punching false [.accept, .ready] [.request]
  | heardComplete : ResponderAt .punching true [.accept, .ready] [.request, .complete]
  | committing : ResponderAt .committing false [.accept, .ready, .complete] [.request]
  | connected (first : Bool) : ResponderAt .connected first [.accept, .ready, .complete] [.request, .complete]

theorem InitiatorAt.of_discovering {first : Bool} {said heard : List Kind} (at_ : InitiatorAt .discovering first said heard) :
    first = false ∧ said = [] ∧ heard = [] := by
  cases at_
  exact ⟨rfl, rfl, rfl⟩

theorem InitiatorAt.of_punching {first : Bool} {said heard : List Kind} (at_ : InitiatorAt .punching first said heard) :
    said = [.request] ∧ heard = if first then [.accept, .ready, .complete] else [.accept, .ready] := by
  cases at_ <;> exact ⟨rfl, rfl⟩

theorem ResponderAt.of_discovering {first : Bool} {said heard : List Kind} (at_ : ResponderAt .discovering first said heard) :
    first = false ∧ said = [.accept] ∧ heard = [.request] := by
  cases at_
  exact ⟨rfl, rfl, rfl⟩

theorem ResponderAt.of_punching {first : Bool} {said heard : List Kind} (at_ : ResponderAt .punching first said heard) :
    said = [.accept, .ready] ∧ heard = if first then [.request, .complete] else [.request] := by
  cases at_ <;> exact ⟨rfl, rfl⟩

/-- What an initiator may have said by the end, and what it had heard by then. -/
inductive InitiatorSaid : List Kind → List Kind → Prop where
  | nothing (heard : List Kind) : InitiatorSaid [] heard
  | request (heard : List Kind) : InitiatorSaid [.request] heard
  | complete (later : List Kind) : InitiatorSaid [.request, .complete] (.accept :: .ready :: later)
  | reject (later : List Kind) : InitiatorSaid [.request, .reject] (.accept :: .ready :: later)

inductive ResponderSaid : List Kind → List Kind → Prop where
  | accept (later : List Kind) : ResponderSaid [.accept] (.request :: later)
  | unsupported (later : List Kind) : ResponderSaid [.accept, .reject] (.request :: later)
  | ready (later : List Kind) : ResponderSaid [.accept, .ready] (.request :: later)
  | complete (later : List Kind) : ResponderSaid [.accept, .ready, .complete] (.request :: later)
  | reject (later : List Kind) : ResponderSaid [.accept, .ready, .reject] (.request :: later)

/-- One end keeps to the exchange. -/
structure Sane (id : SessionId) (role : Role) (At : Phase → Bool → List Kind → List Kind → Prop)
    (Said : List Kind → List Kind → Prop) (party : Party) : Prop where
  plays : party.session.role = role
  named : party.session.id = id
  commit : party.session.commit = true
  address : role = .responder → party.session.peerPublic ≠ none
  live : party.ended = false →
    At party.session.phase party.session.peerCommitted (kinds party.sent) (kinds party.heard)
  said : Said (kinds party.sent) (kinds party.heard)
  verdict : .complete ∈ kinds party.sent → party.verdict = some true
  established : party.established = true → .complete ∈ kinds party.sent ∧ .complete ∈ kinds party.heard
  agreed : ∀ signal ∈ party.sent, signal.Agreed id

abbrev SaneInitiator (id : SessionId) : Party → Prop := Sane id .initiator InitiatorAt InitiatorSaid

abbrev SaneResponder (id : SessionId) : Party → Prop := Sane id .responder ResponderAt ResponderSaid

variable {id : SessionId} {party : Party}

theorem Sane.fail {role : Role} {At : Phase → Bool → List Kind → List Kind → Prop} {Said : List Kind → List Kind → Prop}
    (sane : Sane id role At Said party) : Sane id role At Said { party with ended := true } :=
  { sane with live := fun alive => absurd alive (by decide : ¬ true = false) }

theorem mem_agreed {signals : List Signal} {signal : Signal} (all : ∀ other ∈ signals, other.Agreed id)
    (one : signal.Agreed id) : ∀ other ∈ signals ++ [signal], other.Agreed id := by
  intro other member
  rcases List.mem_append.mp member with old | new
  · exact all other old
  · exact List.mem_singleton.mp new ▸ one

theorem kinds_concat (signals : List Signal) (signal : Signal) : kinds (signals ++ [signal]) = kinds signals ++ [signal.kind] := by
  rw [kinds, List.map_append]
  rfl

section Speaks

variable {role : Role} {At : Phase → Bool → List Kind → List Kind → Prop} {Said : List Kind → List Kind → Prop}

/-- An end says one thing more, and stays who it is. -/
structure Speaks (party : Party) (signal : Signal) (after : Party) : Prop where
  role : after.session.role = party.session.role
  named : after.session.id = party.session.id
  commit : after.session.commit = party.session.commit
  address : after.session.peerPublic = party.session.peerPublic
  first : after.session.peerCommitted = party.session.peerCommitted
  sent : after.sent = party.sent ++ [signal]
  heard : after.heard = party.heard

theorem Sane.speaks (sane : Sane id role At Said party) {signal : Signal} {after : Party} (more : Speaks party signal after)
    (agreed : signal.Agreed id)
    (live : after.ended = false →
      At after.session.phase party.session.peerCommitted (kinds party.sent ++ [signal.kind]) (kinds party.heard))
    (said : Said (kinds party.sent ++ [signal.kind]) (kinds party.heard))
    (verdict : .complete ∈ kinds party.sent ++ [signal.kind] → after.verdict = some true)
    (established : after.established = true →
      .complete ∈ kinds party.sent ++ [signal.kind] ∧ .complete ∈ kinds party.heard) : Sane id role At Said after where
  plays := more.role.trans sane.plays
  named := more.named.trans sane.named
  commit := more.commit.trans sane.commit
  address := fun responds => more.address ▸ sane.address responds
  live := by
    rw [more.sent, more.heard, more.first, kinds_concat]
    exact live
  said := by
    rw [more.sent, more.heard, kinds_concat]
    exact said
  verdict := by
    rw [more.sent, kinds_concat]
    exact verdict
  established := by
    rw [more.sent, more.heard, kinds_concat]
    exact established
  agreed := by
    rw [more.sent]
    exact mem_agreed sane.agreed agreed

theorem Sane.not_established (sane : Sane id role At Said party) (unsaid : .complete ∉ kinds party.sent) :
    party.established ≠ true := fun up => unsaid (sane.established up).1

end Speaks

theorem initiator_moved (sane : SaneInitiator id party) (alive : party.ended = false) {after : Party}
    (moved : Moved party after) : SaneInitiator id after := by
  have at_ := sane.live alive
  cases moved with
  | stay => exact sane
  | fail => exact sane.fail
  | request address localAddresses nowMs phase _ =>
    rw [phase] at at_
    obtain ⟨first, said, heard⟩ := at_.of_discovering
    have down := sane.not_established (by simp [said])
    refine sane.speaks ⟨rfl, rfl, rfl, rfl, rfl, rfl, rfl⟩ ⟨sane.named, rfl⟩ ?_ ?_ ?_ (fun up => absurd up down)
    · intro _
      rw [said, heard, first]
      exact .proposing
    · rw [said, heard]
      exact .request _
    · simp [said, Signal.kind]
  | ready address localAddresses nowMs _ role => exact absurd (sane.plays.symm.trans role) (by decide)
  | unsupported _ role => exact absurd (sane.plays.symm.trans role) (by decide)
  | connect nowMs phase first =>
    rw [phase, first] at at_
    obtain ⟨said, heard⟩ := at_.of_punching
    rw [if_pos rfl] at heard
    refine sane.speaks ⟨rfl, rfl, rfl, rfl, rfl, rfl, rfl⟩ ⟨sane.named, trivial⟩ ?_ ?_ (fun _ => rfl) ?_
    · intro _
      rw [said, heard]
      exact .connected _
    · rw [said, heard]
      exact .complete _
    · simp [heard, Signal.kind]
  | commit nowMs phase first =>
    rw [phase, first] at at_
    obtain ⟨said, heard⟩ := at_.of_punching
    rw [if_neg Bool.false_ne_true] at heard
    have down := sane.not_established (by simp [said])
    refine sane.speaks ⟨rfl, rfl, rfl, rfl, rfl, rfl, rfl⟩ ⟨sane.named, trivial⟩ ?_ ?_ (fun _ => rfl) (fun up => absurd up down)
    · intro _
      rw [said, heard, first]
      exact .committing
    · rw [said, heard]
      exact .complete _
  | giveUp phase =>
    rw [phase] at at_
    obtain ⟨said, heard⟩ := at_.of_punching
    have down := sane.not_established (by simp [said])
    refine sane.speaks ⟨rfl, rfl, rfl, rfl, rfl, rfl, rfl⟩ ⟨sane.named, trivial⟩ nofun ?_ ?_ (fun up => absurd up down)
    · rw [said, heard]
      cases party.session.peerCommitted <;> exact .reject _
    · simp [said, Signal.kind]

theorem responder_moved (sane : SaneResponder id party) (alive : party.ended = false) {after : Party}
    (moved : Moved party after) : SaneResponder id after := by
  have at_ := sane.live alive
  cases moved with
  | stay => exact sane
  | fail => exact sane.fail
  | request address localAddresses nowMs _ role => exact absurd (sane.plays.symm.trans role) (by decide)
  | ready address localAddresses nowMs phase _ =>
    rw [phase] at at_
    obtain ⟨first, said, heard⟩ := at_.of_discovering
    have down := sane.not_established (by simp [said])
    refine sane.speaks ⟨rfl, rfl, rfl, rfl, rfl, rfl, rfl⟩ ⟨sane.named, rfl⟩ ?_ ?_ ?_ (fun up => absurd up down)
    · intro _
      rw [said, heard, first]
      exact .punching
    · rw [said, heard]
      exact .ready _
    · simp [said, Signal.kind]
  | unsupported phase _ =>
    rw [phase] at at_
    obtain ⟨-, said, heard⟩ := at_.of_discovering
    have down := sane.not_established (by simp [said])
    refine sane.speaks ⟨rfl, rfl, rfl, rfl, rfl, rfl, rfl⟩ ⟨sane.named, trivial⟩ nofun ?_ ?_ (fun up => absurd up down)
    · rw [said, heard]
      exact .unsupported _
    · simp [said, Signal.kind]
  | connect nowMs phase first =>
    rw [phase, first] at at_
    obtain ⟨said, heard⟩ := at_.of_punching
    rw [if_pos rfl] at heard
    refine sane.speaks ⟨rfl, rfl, rfl, rfl, rfl, rfl, rfl⟩ ⟨sane.named, trivial⟩ ?_ ?_ (fun _ => rfl) ?_
    · intro _
      rw [said, heard]
      exact .connected _
    · rw [said, heard]
      exact .complete _
    · simp [heard, Signal.kind]
  | commit nowMs phase first =>
    rw [phase, first] at at_
    obtain ⟨said, heard⟩ := at_.of_punching
    rw [if_neg Bool.false_ne_true] at heard
    have down := sane.not_established (by simp [said])
    refine sane.speaks ⟨rfl, rfl, rfl, rfl, rfl, rfl, rfl⟩ ⟨sane.named, trivial⟩ ?_ ?_ (fun _ => rfl) (fun up => absurd up down)
    · intro _
      rw [said, heard, first]
      exact .committing
    · rw [said, heard]
      exact .complete _
  | giveUp phase =>
    rw [phase] at at_
    obtain ⟨said, heard⟩ := at_.of_punching
    have down := sane.not_established (by simp [said])
    refine sane.speaks ⟨rfl, rfl, rfl, rfl, rfl, rfl, rfl⟩ ⟨sane.named, trivial⟩ nofun ?_ ?_ (fun up => absurd up down)
    · rw [said, heard]
      cases party.session.peerCommitted <;> exact .reject _
    · simp [said, Signal.kind]

theorem InitiatorSaid.hear {said heard : List Kind} (before : InitiatorSaid said heard) (kind : Kind) :
    InitiatorSaid said (heard ++ [kind]) := by
  cases before with
  | nothing => exact .nothing _
  | request => exact .request _
  | complete => exact .complete _
  | reject => exact .reject _

theorem ResponderSaid.hear {said heard : List Kind} (before : ResponderSaid said heard) (kind : Kind) :
    ResponderSaid said (heard ++ [kind]) := by
  cases before with
  | accept => exact .accept _
  | unsupported => exact .unsupported _
  | ready => exact .ready _
  | complete => exact .complete _
  | reject => exact .reject _

theorem initiator_took (sane : SaneInitiator id party) (alive : party.ended = false) {signal : Signal} {after : Party}
    (agreed : signal.Agreed id) {rest theirs : List Kind} (order : ResponderSaid (kinds party.heard ++ signal.kind :: rest) theirs)
    (took : Took party signal after) : SaneInitiator id after := by
  have at_ := sane.live alive
  have said := sane.said.hear signal.kind
  rw [← kinds_concat] at said
  have kept : party.established = true → .complete ∈ kinds party.sent ∧ .complete ∈ kinds (party.heard ++ [signal]) := by
    intro up
    rw [kinds_concat]
    exact ⟨(sane.established up).1, List.mem_append_left _ (sane.established up).2⟩
  cases took with
  | accepted nowMs _ phase shape =>
    refine ⟨sane.plays, sane.named, sane.commit, nofun, ?_, said, sane.verdict, kept, sane.agreed⟩
    intro _
    rw [phase] at at_
    show InitiatorAt .awaitingReady party.session.peerCommitted _ _
    rw [kinds_concat, shape]
    generalize party.session.peerCommitted = first at at_ ⊢
    generalize kinds party.sent = mine at at_ ⊢
    generalize kinds party.heard = heard at at_ ⊢
    cases at_
    exact .awaitingReady
  | refused => exact ⟨sane.plays, sane.named, sane.commit, nofun, nofun, said, sane.verdict, kept, sane.agreed⟩
  | readied address localAddresses commit nowMs _ phase shape =>
    have offered : commit = true := by
      rw [shape] at agreed
      exact agreed.2
    refine ⟨sane.plays, sane.named, offered, nofun, ?_, said, sane.verdict, kept, sane.agreed⟩
    intro _
    rw [phase] at at_
    show InitiatorAt .punching party.session.peerCommitted _ _
    rw [kinds_concat, shape]
    generalize party.session.peerCommitted = first at at_ ⊢
    generalize kinds party.sent = mine at at_ ⊢
    generalize kinds party.heard = heard at at_ ⊢
    cases at_
    exact .punching
  | early phase shape =>
    refine ⟨sane.plays, sane.named, sane.commit, nofun, ?_, said, sane.verdict, kept, sane.agreed⟩
    intro _
    rw [phase] at at_
    show InitiatorAt party.session.phase true _ _
    rw [phase, kinds_concat, shape]
    rw [shape] at order
    generalize party.session.peerCommitted = first at at_
    generalize kinds party.sent = mine at at_ ⊢
    generalize kinds party.heard = heard at at_ order ⊢
    cases at_ with
    | punching => exact .heardComplete
    | heardComplete => cases order
  | completed nowMs phase shape =>
    rw [phase] at at_
    have place : InitiatorAt .connected party.session.peerCommitted (kinds party.sent) (kinds (party.heard ++ [signal])) ∧
        .complete ∈ kinds party.sent := by
      rw [kinds_concat, shape]
      generalize party.session.peerCommitted = first at at_ ⊢
      generalize kinds party.sent = mine at at_ ⊢
      generalize kinds party.heard = heard at at_ ⊢
      cases at_
      exact ⟨.connected _, by simp⟩
    refine ⟨sane.plays, sane.named, sane.commit, nofun, fun _ => place.1, said, sane.verdict, ?_, sane.agreed⟩
    intro _
    refine ⟨place.2, ?_⟩
    rw [kinds_concat, shape]
    exact List.mem_append_right _ (List.mem_singleton_self _)

theorem responder_took (sane : SaneResponder id party) (alive : party.ended = false) {signal : Signal} {after : Party}
    {rest theirs : List Kind} (order : InitiatorSaid (kinds party.heard ++ signal.kind :: rest) theirs)
    (took : Took party signal after) : SaneResponder id after := by
  have at_ := sane.live alive
  have said := sane.said.hear signal.kind
  rw [← kinds_concat] at said
  have kept : party.established = true → .complete ∈ kinds party.sent ∧ .complete ∈ kinds (party.heard ++ [signal]) := by
    intro up
    rw [kinds_concat]
    exact ⟨(sane.established up).1, List.mem_append_left _ (sane.established up).2⟩
  cases took with
  | accepted nowMs role _ _ => exact absurd (sane.plays.symm.trans role) (by decide)
  | refused => exact ⟨sane.plays, sane.named, sane.commit, sane.address, nofun, said, sane.verdict, kept, sane.agreed⟩
  | readied address localAddresses commit nowMs role _ _ => exact absurd (sane.plays.symm.trans role) (by decide)
  | early phase shape =>
    refine ⟨sane.plays, sane.named, sane.commit, sane.address, ?_, said, sane.verdict, kept, sane.agreed⟩
    intro _
    rw [phase] at at_
    show ResponderAt party.session.phase true _ _
    rw [phase, kinds_concat, shape]
    rw [shape] at order
    generalize party.session.peerCommitted = first at at_
    generalize kinds party.sent = mine at at_ ⊢
    generalize kinds party.heard = heard at at_ order ⊢
    cases at_ with
    | punching => exact .heardComplete
    | heardComplete => cases order
  | completed nowMs phase shape =>
    rw [phase] at at_
    have place : ResponderAt .connected party.session.peerCommitted (kinds party.sent) (kinds (party.heard ++ [signal])) ∧
        .complete ∈ kinds party.sent := by
      rw [kinds_concat, shape]
      generalize party.session.peerCommitted = first at at_ ⊢
      generalize kinds party.sent = mine at at_ ⊢
      generalize kinds party.heard = heard at at_ ⊢
      cases at_
      exact ⟨.connected _, by simp⟩
    refine ⟨sane.plays, sane.named, sane.commit, sane.address, fun _ => place.1, said, sane.verdict, ?_, sane.agreed⟩
    intro _
    refine ⟨place.2, ?_⟩
    rw [kinds_concat, shape]
    exact List.mem_append_right _ (List.mem_singleton_self _)

end Leviculum.DirectLink
