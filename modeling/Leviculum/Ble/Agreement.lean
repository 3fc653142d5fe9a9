import Leviculum.Ble.Registry
import Leviculum.Lib.Execution
import Mathlib.Data.List.Perm.Subperm

/-! Two boards that dial each other. Each reads the other's identity on the connection it dialled, judges it and hands
its handshake over; the other end judges the connection when the handshake arrives. A refused or displaced connection is
torn down, and both ends clear their slots of it when they notice. -/

namespace Leviculum.Ble

open Execution

inductive Side where
  | a
  | b
  deriving DecidableEq

namespace Side

def other : Side → Side
  | .a => .b
  | .b => .a

@[simp] theorem other_other (side : Side) : side.other.other = side := by cases side <;> rfl

@[simp] theorem other_ne (side : Side) : side.other ≠ side := by cases side <;> decide

@[simp] theorem ne_other (side : Side) : side ≠ side.other := by cases side <;> decide

theorem eq_or (side of : Side) : side = of ∨ side = of.other := by cases side <;> cases of <;> decide

end Side

/-- Who they are, the slots of the two connections on each board, and the ATT MTU of each connection, which both ends
read. A connection goes by the side that dialled it. -/
structure Setup (n : Nat) where
  identity : Side → Identity
  apart : ∀ side, identity side ≠ identity side.other
  mtu : Side → Nat
  slot : Side → Side → Fin n
  slot_ne : ∀ board dialler, slot board dialler ≠ slot board dialler.other

/-- How far a connection has come: its dialler has not read the identity, has handed over the handshake, or this was
judged at the other end. -/
inductive Stage where
  | fresh
  | sent
  | delivered
  deriving DecidableEq

structure Pair (n : Nat) where
  board : Side → PeerRegistry n
  alive : Side → Bool
  stage : Side → Stage

/-- The calls that do not concern the link between the two. -/
inductive Aside (n : Nat) where
  | linkUp (slot : Fin n) (peer : Identity) (origin : Origin) (attMtu nowMs : Nat)
  | linkDown (slot : Fin n)
  | noteHeard (slot : Fin n) (nowMs : Nat)
  | noteData (slot : Fin n) (nowMs : Nat)
  | connUp (slot : Fin n) (addr nowMs : Nat)
  | connDown (slot : Fin n)

inductive Event (n : Nat) where
  | read (dialler : Side) (nowMs : Nat)
  | handshake (dialler : Side) (nowMs : Nat)
  | down (board dialler : Side)
  | aside (board : Side) (call : Aside n)

variable {n : Nat}

/-- A connection torn down by a board that has judged the one `dialler` dialled. -/
def Setup.torn (setup : Setup n) (board dialler : Side) : LinkUp n → Side → Bool
  | .accepted _, _ => false
  | .refused _ _, connection => connection = dialler
  | .displaced old _, connection => setup.slot board connection = old

/-- Another slot than those of the two connections. -/
def Setup.Spare (setup : Setup n) (board : Side) (slot : Fin n) : Prop :=
  slot ≠ setup.slot board board ∧ slot ≠ setup.slot board board.other

instance (setup : Setup n) (board : Side) (slot : Fin n) : Decidable (setup.Spare board slot) :=
  inferInstanceAs (Decidable (_ ∧ _))

namespace Aside

def apart (setup : Setup n) (board : Side) : Aside n → Bool
  | .linkUp slot peer _ _ _ => peer ≠ setup.identity board.other ∧ setup.Spare board slot
  | .linkDown slot => setup.Spare board slot
  | .noteHeard _ _ | .noteData _ _ | .connUp _ _ _ | .connDown _ => true

def run (r : PeerRegistry n) : Aside n → PeerRegistry n
  | .linkUp slot peer origin attMtu nowMs => (r.linkUp slot peer origin attMtu nowMs).1
  | .linkDown slot => (r.linkDown slot).1
  | .noteHeard slot nowMs => r.noteHeard slot nowMs
  | .noteData slot nowMs => r.noteData slot nowMs
  | .connUp slot addr nowMs => r.connUp slot addr nowMs
  | .connDown slot => r.connDown slot

end Aside

namespace Pair

def judge (setup : Setup n) (s : Pair n) (board dialler : Side) (origin : Origin) (stage : Stage) (nowMs : Nat) : Pair n :=
  let judged := (s.board board).linkUp (setup.slot board dialler) (setup.identity board.other) origin (setup.mtu dialler) nowMs
  { board := Function.update s.board board judged.1
    alive := fun connection => s.alive connection && !setup.torn board dialler judged.2 connection
    stage := Function.update s.stage dialler stage }

def Held (setup : Setup n) (s : Pair n) (board dialler : Side) : Prop :=
  (s.board board).slots (setup.slot board dialler) = some (setup.identity board.other)

instance (setup : Setup n) (s : Pair n) (board dialler : Side) : Decidable (s.Held setup board dialler) :=
  inferInstanceAs (Decidable (_ = _))

def step (setup : Setup n) (s : Pair n) : Event n → Option (Pair n)
  | .read dialler nowMs =>
    if s.alive dialler = true ∧ s.stage dialler = .fresh then
      some (s.judge setup dialler dialler .outgoing .sent nowMs)
    else none
  | .handshake dialler nowMs =>
    if s.alive dialler = true ∧ s.stage dialler = .sent then
      some (s.judge setup dialler.other dialler .incoming .delivered nowMs)
    else none
  | .down board dialler =>
    if s.alive dialler = false ∧ s.Held setup board dialler then
      some { s with board := Function.update s.board board ((s.board board).linkDown (setup.slot board dialler)).1 }
    else none
  | .aside board call =>
    if call.apart setup board then
      some { s with board := Function.update s.board board (call.run (s.board board)) }
    else none

/-- The alive links to the other board were heard from within the limit. -/
def Heard (setup : Setup n) (s : Pair n) (board : Side) (nowMs : Nat) : Prop :=
  ∀ dialler, s.alive dialler = true → s.Held setup board dialler →
    nowMs - (s.board board).lastHeardMs (setup.slot board dialler) < linkAbandonedMs

def Calm (setup : Setup n) (s : Pair n) : Event n → Prop
  | .read dialler nowMs => s.Heard setup dialler nowMs
  | .handshake dialler nowMs => s.Heard setup dialler.other nowMs
  | .down _ _ | .aside _ _ => True

/-- Neither board knows the other yet. -/
structure Start (setup : Setup n) (s : Pair n) : Prop where
  own : ∀ board, (s.board board).localIdentity = setup.identity board
  unlinked : ∀ board slot, (s.board board).slots slot ≠ some (setup.identity board.other)
  alive : ∀ dialler, s.alive dialler = true
  fresh : ∀ dialler, s.stage dialler = .fresh

/-- Nothing is left to judge or to clear. -/
def Quiet (setup : Setup n) (s : Pair n) : Prop :=
  (∀ dialler nowMs, s.step setup (.read dialler nowMs) = none) ∧
    (∀ dialler nowMs, s.step setup (.handshake dialler nowMs) = none) ∧
    ∀ board dialler, s.step setup (.down board dialler) = none

end Pair

/-! ### The books of a board -/

namespace Setup

variable {setup : Setup n}

/-- The connection that the rule prefers when both ends judge it late. -/
def Wins (setup : Setup n) (dialler : Side) : Prop :=
  usableMtu (setup.mtu dialler.other) < usableMtu (setup.mtu dialler) ∨
    usableMtu (setup.mtu dialler) = usableMtu (setup.mtu dialler.other) ∧
      Below (setup.identity dialler) (setup.identity dialler.other)

theorem wins_or (setup : Setup n) (dialler : Side) (loses : ¬ setup.Wins dialler) : setup.Wins dialler.other := by
  unfold Wins at loses ⊢
  rw [not_or, not_and] at loses
  rw [Side.other_other]
  by_cases level : usableMtu (setup.mtu dialler.other) = usableMtu (setup.mtu dialler)
  · exact .inr ⟨level, below_of_not (setup.apart dialler).symm (loses.2 level.symm)⟩
  · exact .inl (by omega)

theorem slot_inj {board one two : Side} (same : setup.slot board one = setup.slot board two) : one = two := by
  rcases Side.eq_or one two with rfl | rfl
  · rfl
  · exact absurd same.symm (setup.slot_ne board two)

def origin (board dialler : Side) : Origin := if dialler = board then .outgoing else .incoming

/-- The registry of a board: who it is, and of the links to the other board no more than the two connections, each under
the origin and the MTU it was made with. -/
structure Booked (setup : Setup n) (board : Side) (r : PeerRegistry n) : Prop where
  own : r.localIdentity = setup.identity board
  places : ∀ slot, r.slots slot = some (setup.identity board.other) → ∃ dialler, slot = setup.slot board dialler
  links : ∀ dialler, r.slots (setup.slot board dialler) = some (setup.identity board.other) →
    r.origins (setup.slot board dialler) = origin board dialler ∧ r.attMtus (setup.slot board dialler) = setup.mtu dialler

theorem Booked.register {board : Side} {r : PeerRegistry n} (booked : setup.Booked board r) (dialler : Side) (nowMs : Nat) :
    setup.Booked board (r.register (setup.slot board dialler) (setup.identity board.other) (origin board dialler)
      (setup.mtu dialler) nowMs) where
  own := booked.own
  places := by
    intro slot held
    by_cases here : slot = setup.slot board dialler
    · exact ⟨dialler, here⟩
    · simp only [PeerRegistry.register, Function.update_of_ne here] at held
      exact booked.places slot held
  links := by
    intro connection held
    unfold PeerRegistry.register at held ⊢
    by_cases here : setup.slot board connection = setup.slot board dialler
    · obtain rfl := slot_inj here
      simp only [Function.update_self]
      exact ⟨trivial, trivial⟩
    · simp only [Function.update_of_ne here] at held ⊢
      exact booked.links connection held

theorem Booked.elsewhere {board : Side} {r after : PeerRegistry n} (booked : setup.Booked board r)
    (own : after.localIdentity = r.localIdentity)
    (places : ∀ slot, after.slots slot = some (setup.identity board.other) → r.slots slot = some (setup.identity board.other))
    (links : ∀ dialler, after.slots (setup.slot board dialler) = some (setup.identity board.other) →
      after.origins (setup.slot board dialler) = r.origins (setup.slot board dialler) ∧
        after.attMtus (setup.slot board dialler) = r.attMtus (setup.slot board dialler)) : setup.Booked board after where
  own := own.trans booked.own
  places := fun slot held => booked.places slot (places slot held)
  links := by
    intro dialler held
    obtain ⟨sameOrigin, sameMtu⟩ := links dialler held
    rw [sameOrigin, sameMtu]
    exact booked.links dialler (places _ held)

theorem Spare.ne {board : Side} {slot : Fin n} (spare : setup.Spare board slot) (dialler : Side) :
    setup.slot board dialler ≠ slot := by
  rcases Side.eq_or dialler board with rfl | rfl
  · exact spare.1.symm
  · exact spare.2.symm

theorem linkDown_fst (r : PeerRegistry n) (slot : Fin n) :
    (r.linkDown slot).1.localIdentity = r.localIdentity ∧
      (r.linkDown slot).1.slots = Function.update r.slots slot none ∧
      (r.linkDown slot).1.origins = r.origins ∧
      ∀ other, other ≠ slot → (r.linkDown slot).1.attMtus other = r.attMtus other := by
  unfold PeerRegistry.linkDown
  split
  next empty =>
    refine ⟨rfl, ?_, rfl, fun _ _ => rfl⟩
    rw [← empty, Function.update_eq_self]
  next => exact ⟨rfl, rfl, rfl, fun other apart => Function.update_of_ne apart _ _⟩

theorem Booked.linkDown {board : Side} {r : PeerRegistry n} (booked : setup.Booked board r) (slot : Fin n) :
    setup.Booked board (r.linkDown slot).1 := by
  obtain ⟨own, slots, origins, attMtus⟩ := linkDown_fst r slot
  refine booked.elsewhere own ?_ ?_
  · intro other held
    rw [slots] at held
    by_cases here : other = slot
    · rw [here, Function.update_self] at held
      cases held
    · rwa [Function.update_of_ne here] at held
  · intro dialler held
    rw [slots] at held
    by_cases here : setup.slot board dialler = slot
    · rw [here, Function.update_self] at held
      cases held
    · exact ⟨by rw [origins], attMtus _ here⟩

theorem Booked.aside {board : Side} {r : PeerRegistry n} (booked : setup.Booked board r) {call : Aside n}
    (apart : call.apart setup board = true) :
    setup.Booked board (call.run r) ∧
      ∀ dialler, (call.run r).slots (setup.slot board dialler) = r.slots (setup.slot board dialler) := by
  cases call with
  | linkUp slot peer origin attMtu nowMs =>
    obtain ⟨other, spare⟩ := of_decide_eq_true apart
    show setup.Booked board (r.linkUp slot peer origin attMtu nowMs).1 ∧
      ∀ dialler, (r.linkUp slot peer origin attMtu nowMs).1.slots _ = _
    rcases PeerRegistry.linkUp_fst r slot peer origin attMtu nowMs with same | same
    · rw [same]
      exact ⟨booked, fun _ => rfl⟩
    · rw [same]
      refine ⟨booked.elsewhere rfl ?_ ?_, ?_⟩
      · intro place held
        unfold PeerRegistry.register at held
        by_cases here : place = slot
        · rw [here] at held
          simp only [Function.update_self, Option.some.injEq] at held
          exact absurd held other
        · simpa only [Function.update_of_ne here] using held
      · intro dialler _
        exact ⟨Function.update_of_ne (spare.ne dialler) _ _, Function.update_of_ne (spare.ne dialler) _ _⟩
      · intro dialler
        exact Function.update_of_ne (spare.ne dialler) _ _
  | linkDown slot =>
    have spare : setup.Spare board slot := of_decide_eq_true apart
    refine ⟨booked.linkDown slot, ?_⟩
    intro dialler
    show (r.linkDown slot).1.slots _ = _
    rw [(linkDown_fst r slot).2.1, Function.update_of_ne (spare.ne dialler)]
  | noteHeard slot nowMs => exact ⟨booked.elsewhere rfl (fun _ held => held) (fun _ _ => ⟨rfl, rfl⟩), fun _ => rfl⟩
  | noteData slot nowMs => exact ⟨booked.elsewhere rfl (fun _ held => held) (fun _ _ => ⟨rfl, rfl⟩), fun _ => rfl⟩
  | connUp slot addr nowMs => exact ⟨booked.elsewhere rfl (fun _ held => held) (fun _ _ => ⟨rfl, rfl⟩), fun _ => rfl⟩
  | connDown slot => exact ⟨booked.elsewhere rfl (fun _ held => held) (fun _ _ => ⟨rfl, rfl⟩), fun _ => rfl⟩

end Setup

namespace Pair

variable {setup : Setup n} {s : Pair n}

/-! ### One judgement -/

/-- The boards once one of them has taken a connection. -/
def registered (setup : Setup n) (s : Pair n) (board dialler : Side) (nowMs : Nat) : Side → PeerRegistry n :=
  Function.update s.board board ((s.board board).register (setup.slot board dialler) (setup.identity board.other)
    (Setup.origin board dialler) (setup.mtu dialler) nowMs)

theorem held_registered {board dialler : Side} {nowMs : Nat} {alive : Side → Bool} {stage : Side → Stage}
    (place connection : Side) :
    Held setup ⟨s.registered setup board dialler nowMs, alive, stage⟩ place connection ↔
      place = board ∧ connection = dialler ∨ s.Held setup place connection := by
  unfold Held registered
  dsimp only
  by_cases here : place = board
  · subst here
    rw [Function.update_self]
    by_cases same : connection = dialler
    · simp [same, PeerRegistry.register]
    · have apart : setup.slot place connection ≠ setup.slot place dialler := fun equal => same (Setup.slot_inj equal)
      simp [same, PeerRegistry.register, Function.update_of_ne apart]
  · rw [Function.update_of_ne here]
    simp [here]

theorem booked_registered (booked : ∀ board, setup.Booked board (s.board board)) (board dialler : Side) (nowMs : Nat)
    (place : Side) : setup.Booked place (s.registered setup board dialler nowMs place) := by
  unfold registered
  by_cases here : place = board
  · subst here
    rw [Function.update_self]
    exact (booked place).register dialler nowMs
  · rw [Function.update_of_ne here]
    exact booked place

section Judge

variable {board dialler : Side} {stage : Stage} {nowMs : Nat}

theorem judge_alone (booked : setup.Booked board (s.board board))
    (alone : ∀ connection, s.Held setup board connection → connection = dialler) :
    s.judge setup board dialler (Setup.origin board dialler) stage nowMs =
      ⟨s.registered setup board dialler nowMs, s.alive, Function.update s.stage dialler stage⟩ := by
  have only : ∀ slot, (s.board board).slots slot = some (setup.identity board.other) → slot = setup.slot board dialler := by
    intro slot held
    obtain ⟨connection, rfl⟩ := booked.places slot held
    rw [alone connection held]
  obtain ⟨registry, first, outcome⟩ := PeerRegistry.linkUp_alone only (Setup.origin board dialler)
    (setup.mtu dialler) nowMs
  unfold judge registered
  simp only [registry, outcome, Setup.torn, Bool.not_false, Bool.and_true]

theorem judge_second (booked : setup.Booked board (s.board board)) (old : s.Held setup board dialler.other)
    (fresh : ¬ s.Held setup board dialler) :
    s.judge setup board dialler (Setup.origin board dialler) stage nowMs =
      if ((s.board board).verdict (setup.slot board dialler.other) (setup.identity board.other)
          (Setup.origin board dialler) (setup.mtu dialler) nowMs).isKeepNew then
        ⟨s.registered setup board dialler nowMs, Function.update s.alive dialler.other false,
          Function.update s.stage dialler stage⟩
      else ⟨s.board, Function.update s.alive dialler false, Function.update s.stage dialler stage⟩ := by
  have only : ∀ slot, (s.board board).slots slot = some (setup.identity board.other) →
      slot = setup.slot board dialler.other := by
    intro slot held
    obtain ⟨connection, rfl⟩ := booked.places slot held
    rcases Side.eq_or connection dialler with rfl | rfl
    · exact absurd held fresh
    · rfl
  obtain ⟨decision, outcome⟩ := PeerRegistry.linkUp_second old only (setup.slot_ne board dialler).symm
    (Setup.origin board dialler) (setup.mtu dialler) nowMs
  have torn : ∀ gone, (fun connection => s.alive connection && !decide (connection = gone)) =
      Function.update s.alive gone false := by
    intro gone
    funext connection
    by_cases here : connection = gone
    · simp [here]
    · simp [here]
  unfold judge registered
  simp only [outcome]
  split_ifs with keeps
  · have places : ∀ connection, decide (setup.slot board connection = setup.slot board dialler.other) =
        decide (connection = dialler.other) := by
      intro connection
      exact decide_eq_decide.mpr ⟨Setup.slot_inj, congrArg _⟩
    simp only [Setup.torn, places, torn]
  · simp only [Setup.torn, torn, Function.update_eq_self]

end Judge

/-! ### The invariant -/

/-- While both connections live, this one is held by its dialler once the identity is read and by the other end once the
handshake is judged; that is before the other one is read. -/
structure Underway (setup : Setup n) (s : Pair n) (dialler : Side) : Prop where
  own : s.Held setup dialler dialler ↔ s.stage dialler ≠ .fresh
  taken : s.Held setup dialler.other dialler ↔ s.stage dialler = .delivered
  first : s.stage dialler = .delivered → s.stage dialler.other = .fresh

/-- What holds at any moment. Once a connection is torn down the other one lives, its dialler holds it, and the other end
holds it or will take it. -/
structure Agreeing (setup : Setup n) (s : Pair n) : Prop where
  booked : ∀ board, setup.Booked board (s.board board)
  both : ∀ dialler, s.alive dialler = true → s.alive dialler.other = true → s.Underway setup dialler
  one : ∀ dialler, s.alive dialler.other = false →
    s.alive dialler = true ∧ s.Held setup dialler dialler ∧ s.stage dialler ≠ .fresh ∧
      (s.Held setup dialler.other dialler ↔ s.stage dialler = .delivered) ∧
      (s.stage dialler = .sent → s.Held setup dialler.other dialler.other → setup.Wins dialler)

theorem agreeing_start (start : s.Start setup) : s.Agreeing setup where
  booked := fun board =>
    { own := start.own board
      places := fun slot held => absurd held (start.unlinked board slot)
      links := fun dialler held => absurd held (start.unlinked board _) }
  both := by
    intro dialler _ _
    have unheld : ∀ board connection, ¬ s.Held setup board connection := fun board _ => start.unlinked board _
    exact ⟨by simp [unheld, start.fresh], by simp [unheld, start.fresh], fun _ => start.fresh _⟩
  one := by
    intro dialler dead
    rw [start.alive] at dead
    cases dead

theorem agreeing_of_one (dialler : Side) (booked : ∀ board, setup.Booked board (s.board board))
    (dead : s.alive dialler.other = false) (alive : s.alive dialler = true) (own : s.Held setup dialler dialler)
    (past : s.stage dialler ≠ .fresh) (taken : s.Held setup dialler.other dialler ↔ s.stage dialler = .delivered)
    (wins : s.stage dialler = .sent → s.Held setup dialler.other dialler.other → setup.Wins dialler) :
    s.Agreeing setup where
  booked := booked
  both := by
    intro connection here there
    rcases Side.eq_or connection dialler with rfl | rfl
    · rw [dead] at there
      cases there
    · rw [dead] at here
      cases here
  one := by
    intro connection gone
    rcases Side.eq_or connection dialler with rfl | rfl
    · exact ⟨alive, own, past, taken, wins⟩
    · rw [Side.other_other, alive] at gone
      cases gone

theorem agreeing_of_both (dialler : Side) (booked : ∀ board, setup.Booked board (s.board board))
    (alive : s.alive dialler = true) (living : s.alive dialler.other = true) (underway : s.Underway setup dialler)
    (other : s.Underway setup dialler.other) : s.Agreeing setup where
  booked := booked
  both := by
    intro connection _ _
    rcases Side.eq_or connection dialler with rfl | rfl
    · exact underway
    · exact other
  one := by
    intro connection gone
    rcases Side.eq_or connection dialler with rfl | rfl
    · rw [living] at gone
      cases gone
    · rw [Side.other_other, alive] at gone
      cases gone

theorem Agreeing.read (agreeing : s.Agreeing setup) {dialler : Side} (alive : s.alive dialler = true)
    (fresh : s.stage dialler = .fresh) {nowMs : Nat} (heard : s.Heard setup dialler nowMs) :
    (s.judge setup dialler dialler .outgoing .sent nowMs).Agreeing setup := by
  have origin : Setup.origin dialler dialler = .outgoing := if_pos rfl
  -- were the other connection gone, this one would have been read
  have living : s.alive dialler.other = true := by
    by_contra dead
    exact (agreeing.one dialler (Bool.eq_false_iff.mpr dead)).2.2.1 fresh
  obtain ⟨own, taken, -⟩ := agreeing.both dialler alive living
  obtain ⟨own', taken', late'⟩ := agreeing.both dialler.other living (by rwa [Side.other_other])
  rw [Side.other_other] at taken' late'
  have unread : ¬ s.Held setup dialler dialler := fun held => own.mp held fresh
  have untaken : ¬ s.Held setup dialler.other dialler := by
    rw [taken, fresh]
    decide
  rw [← origin]
  by_cases met : s.Held setup dialler dialler.other
  · -- the other board's handshake was there first
    have delivered := taken'.mp met
    have quiet := heard dialler.other living met
    obtain ⟨oldOrigin, oldMtu⟩ := (agreeing.booked dialler).links dialler.other met
    rw [judge_second (agreeing.booked dialler) met unread]
    split_ifs with keeps
    · have verdict := (PeerRegistry.verdict_outgoing quiet (by rw [oldOrigin]; exact if_neg (Side.other_ne _))).mp
        (by rwa [origin] at keeps)
      rw [oldMtu, (agreeing.booked dialler).own] at verdict
      refine agreeing_of_one dialler (booked_registered agreeing.booked dialler dialler nowMs) ?_ ?_ ?_ ?_ ?_ ?_
      · exact Function.update_self ..
      · show Function.update s.alive dialler.other false dialler = true
        rw [Function.update_of_ne (Side.ne_other _), alive]
      · exact (held_registered _ _).mpr (.inl ⟨rfl, rfl⟩)
      · show Function.update s.stage dialler .sent dialler ≠ .fresh
        rw [Function.update_self]
        decide
      · show _ ↔ Function.update s.stage dialler .sent dialler = .delivered
        rw [held_registered, Function.update_self]
        simp [untaken]
      · intro _ _
        have floor := minUsableMtu_le (setup.mtu dialler)
        unfold Setup.Wins
        by_cases more : minUsableMtu < usableMtu (setup.mtu dialler)
        · exact .inl (by omega)
        · exact .inr ⟨by omega, below_of_not (setup.apart dialler) verdict.2⟩
    · refine agreeing_of_one dialler.other agreeing.booked ?_ ?_ ?_ ?_ ?_ ?_
      · show Function.update s.alive dialler false dialler.other.other = false
        rw [Side.other_other, Function.update_self]
      · show Function.update s.alive dialler false dialler.other = true
        rw [Function.update_of_ne (Side.other_ne _), living]
      · exact own'.mpr (by rw [delivered]; decide)
      · show Function.update s.stage dialler .sent dialler.other ≠ .fresh
        rw [Function.update_of_ne (Side.other_ne _), delivered]
        decide
      · show s.Held setup dialler.other.other dialler.other ↔ Function.update s.stage dialler .sent dialler.other = .delivered
        rw [Side.other_other, Function.update_of_ne (Side.other_ne _)]
        exact taken'
      · show Function.update s.stage dialler .sent dialler.other = .sent → _
        rw [Function.update_of_ne (Side.other_ne _), delivered]
        intro sent
        cases sent
  · have early : s.stage dialler.other ≠ .delivered := fun delivered => met (taken'.mpr delivered)
    rw [judge_alone (agreeing.booked dialler) ?_]
    · refine agreeing_of_both dialler (booked_registered agreeing.booked dialler dialler nowMs) alive living
        ⟨?_, ?_, ?_⟩ ⟨?_, ?_, ?_⟩
      · rw [held_registered]
        simp
      · rw [held_registered]
        simp [untaken]
      · simp
      · rw [held_registered, own']
        simp
      · rw [held_registered, Side.other_other]
        simp [met, early]
      · simp [early]
    · intro connection held
      rcases Side.eq_or connection dialler with rfl | rfl
      · rfl
      · exact absurd held met

theorem Agreeing.delivered (agreeing : s.Agreeing setup) {dialler : Side} (own : s.Held setup dialler dialler)
    {alive : Side → Bool} (living : alive dialler = true) (gone : alive dialler.other = false) (nowMs : Nat) :
    Agreeing setup ⟨s.registered setup dialler.other dialler nowMs, alive, Function.update s.stage dialler .delivered⟩ := by
  refine agreeing_of_one dialler (booked_registered agreeing.booked dialler.other dialler nowMs) gone living
    ((held_registered _ _).mpr (.inr own)) ?_ ?_ ?_
  · simp
  · rw [held_registered]
    simp
  · simp

/-- The handshake arrives while the other connection lives. -/
theorem Agreeing.handshake_both (agreeing : s.Agreeing setup) {dialler : Side} (alive : s.alive dialler = true)
    (sent : s.stage dialler = .sent) (living : s.alive dialler.other = true) {nowMs : Nat}
    (heard : s.Heard setup dialler.other nowMs) :
    (s.judge setup dialler.other dialler (Setup.origin dialler.other dialler) .delivered nowMs).Agreeing setup := by
  have origin : Setup.origin dialler.other dialler = .incoming := if_neg (Side.ne_other _)
  obtain ⟨own, taken, -⟩ := agreeing.both dialler alive living
  obtain ⟨own', taken', late'⟩ := agreeing.both dialler.other living (by rwa [Side.other_other])
  rw [Side.other_other] at taken' late'
  have unmet : s.stage dialler.other ≠ .delivered := by
    intro delivered
    rw [late' delivered] at sent
    cases sent
  have untaken : ¬ s.Held setup dialler.other dialler := by
    rw [taken, sent]
    decide
  by_cases met : s.Held setup dialler.other dialler.other
  · -- both read before either handshake arrived
    have quiet := heard dialler.other living met
    have sent' : s.stage dialler.other = .sent := by
      have past := own'.mp met
      cases stage : s.stage dialler.other with
      | fresh => exact absurd stage past
      | sent => rfl
      | delivered => exact absurd stage unmet
    obtain ⟨oldOrigin, oldMtu⟩ := (agreeing.booked dialler.other).links dialler.other met
    have verdict := PeerRegistry.verdict_incoming quiet (by rw [oldOrigin]; exact if_pos rfl)
      (setup.identity dialler) (setup.mtu dialler)
    rw [oldMtu, (agreeing.booked dialler.other).own] at verdict
    rw [judge_second (agreeing.booked dialler.other) met untaken, Side.other_other]
    split_ifs with keeps
    · refine agreeing.delivered (own.mpr (by rw [sent]; decide)) ?_ (Function.update_self ..) nowMs
      rw [Function.update_of_ne (Side.ne_other _), alive]
    · have loses : ¬ setup.Wins dialler := fun wins => keeps (by rw [origin]; exact verdict.mpr wins)
      refine agreeing_of_one dialler.other agreeing.booked ?_ ?_ met ?_ ?_ ?_
      · show Function.update s.alive dialler false dialler.other.other = false
        rw [Side.other_other, Function.update_self]
      · show Function.update s.alive dialler false dialler.other = true
        rw [Function.update_of_ne (Side.other_ne _), living]
      · show Function.update s.stage dialler .delivered dialler.other ≠ .fresh
        rw [Function.update_of_ne (Side.other_ne _), sent']
        decide
      · show s.Held setup dialler.other.other dialler.other ↔
          Function.update s.stage dialler .delivered dialler.other = .delivered
        rw [Side.other_other, Function.update_of_ne (Side.other_ne _)]
        exact taken'
      · intro _ _
        exact setup.wins_or dialler loses
  · have unread : s.stage dialler.other = .fresh := by
      by_contra past
      exact met (own'.mpr past)
    have untaken' : ¬ s.Held setup dialler dialler.other := by
      rw [taken', unread]
      decide
    rw [judge_alone (agreeing.booked dialler.other) ?_]
    · refine agreeing_of_both dialler (booked_registered agreeing.booked dialler.other dialler nowMs) alive
        living ⟨?_, ?_, ?_⟩ ⟨?_, ?_, ?_⟩
      · rw [held_registered, own, sent]
        simp
      · rw [held_registered]
        simp
      · simp [unread]
      · rw [held_registered]
        simp [met, unread]
      · rw [held_registered, Side.other_other]
        simp [untaken', unread]
      · simp [unread]
    · intro connection held
      rcases Side.eq_or connection dialler with rfl | rfl
      · rfl
      · exact absurd held met

theorem Agreeing.handshake_one (agreeing : s.Agreeing setup) {dialler : Side} (alive : s.alive dialler = true)
    (sent : s.stage dialler = .sent) (dead : s.alive dialler.other = false) (nowMs : Nat) :
    (s.judge setup dialler.other dialler (Setup.origin dialler.other dialler) .delivered nowMs).Agreeing setup := by
  have origin : Setup.origin dialler.other dialler = .incoming := if_neg (Side.ne_other _)
  obtain ⟨-, own, -, taken, wins⟩ := agreeing.one dialler dead
  have untaken : ¬ s.Held setup dialler.other dialler := by
    rw [taken, sent]
    decide
  have result : ∃ gone : Side → Bool, gone dialler = true ∧ gone dialler.other = false ∧
      s.judge setup dialler.other dialler (Setup.origin dialler.other dialler) .delivered nowMs =
        ⟨s.registered setup dialler.other dialler nowMs, gone, Function.update s.stage dialler .delivered⟩ := by
    by_cases met : s.Held setup dialler.other dialler.other
    · have keeps : ((s.board dialler.other).verdict (setup.slot dialler.other dialler.other)
          (setup.identity dialler.other.other) (Setup.origin dialler.other dialler) (setup.mtu dialler)
          nowMs).isKeepNew = true := by
        obtain ⟨oldOrigin, oldMtu⟩ := (agreeing.booked dialler.other).links dialler.other met
        by_cases silent : linkAbandonedMs ≤ nowMs - (s.board dialler.other).lastHeardMs (setup.slot dialler.other dialler.other)
        · exact PeerRegistry.verdict_abandoned silent
        · rw [origin, Side.other_other, PeerRegistry.verdict_incoming (by omega) (by rw [oldOrigin]; exact if_pos rfl), oldMtu,
            (agreeing.booked dialler.other).own]
          exact wins sent met
      refine ⟨Function.update s.alive dialler.other false, ?_, Function.update_self .., ?_⟩
      · rw [Function.update_of_ne (Side.ne_other _), alive]
      · rw [judge_second (agreeing.booked dialler.other) met untaken, if_pos keeps]
    · refine ⟨s.alive, alive, dead, judge_alone (agreeing.booked dialler.other) ?_⟩
      intro connection held
      rcases Side.eq_or connection dialler with rfl | rfl
      · rfl
      · exact absurd held met
  obtain ⟨gone, alive', dead', after⟩ := result
  rw [after]
  exact agreeing.delivered own alive' dead' nowMs

theorem Agreeing.handshake (agreeing : s.Agreeing setup) {dialler : Side} (alive : s.alive dialler = true)
    (sent : s.stage dialler = .sent) {nowMs : Nat} (heard : s.Heard setup dialler.other nowMs) :
    (s.judge setup dialler.other dialler .incoming .delivered nowMs).Agreeing setup := by
  have origin : Setup.origin dialler.other dialler = .incoming := if_neg (Side.ne_other _)
  rw [← origin]
  by_cases living : s.alive dialler.other = true
  · exact agreeing.handshake_both alive sent living heard
  · exact agreeing.handshake_one alive sent (Bool.eq_false_iff.mpr living) nowMs

theorem Agreeing.fewer (agreeing : s.Agreeing setup) {board : Side → PeerRegistry n}
    (booked : ∀ side, setup.Booked side (board side))
    (fewer : ∀ side dialler, Held setup ⟨board, s.alive, s.stage⟩ side dialler → s.Held setup side dialler)
    (kept : ∀ side dialler, s.alive dialler = true → s.Held setup side dialler →
      Held setup ⟨board, s.alive, s.stage⟩ side dialler) :
    Agreeing setup ⟨board, s.alive, s.stage⟩ where
  booked := booked
  both := by
    intro dialler alive living
    obtain ⟨own, taken, first⟩ := agreeing.both dialler alive living
    exact ⟨⟨fun held => own.mp (fewer _ _ held), fun past => kept _ _ alive (own.mpr past)⟩,
      ⟨fun held => taken.mp (fewer _ _ held), fun past => kept _ _ alive (taken.mpr past)⟩, first⟩
  one := by
    intro dialler dead
    obtain ⟨alive, own, past, taken, wins⟩ := agreeing.one dialler dead
    exact ⟨alive, kept _ _ alive own, past,
      ⟨fun held => taken.mp (fewer _ _ held), fun late => kept _ _ alive (taken.mpr late)⟩,
      fun sent held => wins sent (fewer _ _ held)⟩

theorem booked_update (booked : ∀ side, setup.Booked side (s.board side)) {board : Side} {r : PeerRegistry n}
    (own : setup.Booked board r) (side : Side) : setup.Booked side (Function.update s.board board r side) := by
  by_cases here : side = board
  · subst here
    rwa [Function.update_self]
  · rw [Function.update_of_ne here]
    exact booked side

theorem held_linkDown (board dialler side connection : Side) :
    Held setup { s with board := Function.update s.board board ((s.board board).linkDown (setup.slot board dialler)).1 }
        side connection ↔
      s.Held setup side connection ∧ ¬ (side = board ∧ connection = dialler) := by
  unfold Held
  dsimp only
  by_cases here : side = board
  · subst here
    rw [Function.update_self, (Setup.linkDown_fst _ _).2.1]
    by_cases same : connection = dialler
    · simp [same]
    · rw [Function.update_of_ne (fun equal => same (Setup.slot_inj equal))]
      simp [same]
  · rw [Function.update_of_ne here]
    simp [here]

theorem held_aside {board : Side} {r : PeerRegistry n}
    (same : ∀ dialler, r.slots (setup.slot board dialler) = (s.board board).slots (setup.slot board dialler))
    (side connection : Side) :
    Held setup { s with board := Function.update s.board board r } side connection ↔ s.Held setup side connection := by
  unfold Held
  dsimp only
  by_cases here : side = board
  · subst here
    rw [Function.update_self, same]
  · rw [Function.update_of_ne here]

theorem step_cases {e : Event n} {s' : Pair n} (stepped : s.step setup e = some s') :
    (∃ dialler nowMs, e = .read dialler nowMs ∧ s.alive dialler = true ∧ s.stage dialler = .fresh ∧
        s' = s.judge setup dialler dialler .outgoing .sent nowMs) ∨
      (∃ dialler nowMs, e = .handshake dialler nowMs ∧ s.alive dialler = true ∧ s.stage dialler = .sent ∧
        s' = s.judge setup dialler.other dialler .incoming .delivered nowMs) ∨
      (∃ board dialler, e = .down board dialler ∧ s.alive dialler = false ∧ s.Held setup board dialler ∧
        s' = { s with board := Function.update s.board board ((s.board board).linkDown (setup.slot board dialler)).1 }) ∨
      ∃ board call, e = .aside board call ∧ call.apart setup board = true ∧
        s' = { s with board := Function.update s.board board (call.run (s.board board)) } := by
  cases e with
  | read dialler nowMs =>
    rw [Pair.step] at stepped
    split_ifs at stepped with ready
    exact .inl ⟨dialler, nowMs, rfl, ready.1, ready.2, (Option.some.inj stepped).symm⟩
  | handshake dialler nowMs =>
    rw [Pair.step] at stepped
    split_ifs at stepped with ready
    exact .inr (.inl ⟨dialler, nowMs, rfl, ready.1, ready.2, (Option.some.inj stepped).symm⟩)
  | down board dialler =>
    rw [Pair.step] at stepped
    split_ifs at stepped with gone
    exact .inr (.inr (.inl ⟨board, dialler, rfl, gone.1, gone.2, (Option.some.inj stepped).symm⟩))
  | aside board call =>
    rw [Pair.step] at stepped
    split_ifs at stepped with apart
    exact .inr (.inr (.inr ⟨board, call, rfl, apart, (Option.some.inj stepped).symm⟩))

theorem Agreeing.step (agreeing : s.Agreeing setup) {e : Event n} (calm : s.Calm setup e) {s' : Pair n}
    (stepped : s.step setup e = some s') : s'.Agreeing setup := by
  obtain ⟨dialler, nowMs, rfl, alive, fresh, rfl⟩ | ⟨dialler, nowMs, rfl, alive, sent, rfl⟩ |
    ⟨board, dialler, rfl, gone, -, rfl⟩ | ⟨board, call, rfl, apart, rfl⟩ := step_cases stepped
  · exact agreeing.read alive fresh calm
  · exact agreeing.handshake alive sent calm
  · refine agreeing.fewer (booked_update agreeing.booked ((agreeing.booked board).linkDown _)) ?_ ?_
    · intro side connection held
      exact ((held_linkDown board dialler side connection).mp held).1
    · intro side connection alive held
      refine (held_linkDown board dialler side connection).mpr ⟨held, ?_⟩
      rintro ⟨-, rfl⟩
      rw [gone] at alive
      cases alive
  · obtain ⟨booked, same⟩ := (agreeing.booked board).aside apart
    refine agreeing.fewer (booked_update agreeing.booked booked) ?_ ?_
    · intro side connection held
      exact (held_aside same side connection).mp held
    · intro side connection _ held
      exact (held_aside same side connection).mpr held

/-! ### How long it takes -/

def Event.own : Event n → Bool
  | .read _ _ | .handshake _ _ | .down _ _ => true
  | .aside _ _ => false

def Stage.left : Stage → Nat
  | .fresh => 2
  | .sent => 1
  | .delivered => 0

def links : List (Side × Side) := [(.a, .a), (.a, .b), (.b, .a), (.b, .b)]

def heldCount (setup : Setup n) (s : Pair n) : Nat := links.countP (fun link => s.Held setup link.1 link.2)

/-- Every step of the two takes one off this. -/
def work (setup : Setup n) (s : Pair n) : Nat :=
  2 * (Stage.left (s.stage .a) + Stage.left (s.stage .b)) + s.heldCount setup

theorem heldCount_le_succ {s' : Pair n} {board dialler : Side}
    (grown : ∀ side connection, s'.Held setup side connection →
      s.Held setup side connection ∨ (side = board ∧ connection = dialler)) :
    s'.heldCount setup ≤ s.heldCount setup + 1 := by
  have nodup : links.Nodup := by decide
  unfold heldCount
  rw [List.countP_eq_length_filter, List.countP_eq_length_filter]
  have within : links.filter (fun link => s'.Held setup link.1 link.2) ⊆
      (board, dialler) :: links.filter (fun link => s.Held setup link.1 link.2) := by
    intro link member
    rw [List.mem_filter, decide_eq_true_iff] at member
    rcases grown link.1 link.2 member.2 with held | ⟨same, same'⟩
    · exact List.mem_cons_of_mem _ (List.mem_filter.mpr ⟨member.1, by simpa using held⟩)
    · exact List.mem_cons.mpr (.inl (Prod.ext same same'))
  exact (List.subperm_of_subset (nodup.filter _) within).length_le

theorem heldCount_succ_le {s' : Pair n} {board dialler : Side} (held : s.Held setup board dialler)
    (gone : ¬ s'.Held setup board dialler)
    (fewer : ∀ side connection, s'.Held setup side connection → s.Held setup side connection) :
    s'.heldCount setup + 1 ≤ s.heldCount setup := by
  have nodup : links.Nodup := by decide
  have all : ∀ link : Side × Side, link ∈ links := by
    rintro ⟨side, connection⟩
    cases side <;> cases connection <;> decide
  unfold heldCount
  rw [List.countP_eq_length_filter, List.countP_eq_length_filter]
  have within : (board, dialler) :: links.filter (fun link => s'.Held setup link.1 link.2) ⊆
      links.filter (fun link => s.Held setup link.1 link.2) := by
    intro link member
    rw [List.mem_filter, decide_eq_true_iff]
    refine ⟨all link, ?_⟩
    rcases List.mem_cons.mp member with rfl | later
    · exact held
    · rw [List.mem_filter, decide_eq_true_iff] at later
      exact fewer _ _ later.2
  have distinct : ((board, dialler) :: links.filter (fun link => s'.Held setup link.1 link.2)).Nodup := by
    refine List.nodup_cons.mpr ⟨?_, nodup.filter _⟩
    intro member
    rw [List.mem_filter, decide_eq_true_iff] at member
    exact gone member.2
  exact (List.subperm_of_subset distinct within).length_le

theorem held_judge (setup : Setup n) (s : Pair n) (board dialler : Side) (origin : Origin) (stage : Stage) (nowMs : Nat)
    (side connection : Side)
    (held : (s.judge setup board dialler origin stage nowMs).Held setup side connection) :
    s.Held setup side connection ∨ (side = board ∧ connection = dialler) := by
  unfold Held judge at held
  dsimp only at held
  by_cases here : side = board
  · subst here
    rw [Function.update_self] at held
    rcases PeerRegistry.linkUp_fst (s.board side) (setup.slot side dialler) (setup.identity side.other) origin
      (setup.mtu dialler) nowMs with same | same
    · rw [same] at held
      exact .inl held
    · rw [same] at held
      by_cases own : connection = dialler
      · exact .inr ⟨rfl, own⟩
      · simp only [PeerRegistry.register, Function.update_of_ne (fun equal => own (Setup.slot_inj equal))] at held
        exact .inl held
  · rw [Function.update_of_ne here] at held
    exact .inl held

theorem left_update (stage : Side → Stage) (dialler : Side) (next : Stage) :
    Stage.left (Function.update stage dialler next .a) + Stage.left (Function.update stage dialler next .b) +
        Stage.left (stage dialler) =
      Stage.left (stage .a) + Stage.left (stage .b) + Stage.left next := by
  cases dialler
  · rw [Function.update_self, Function.update_of_ne (by decide)]
    omega
  · rw [Function.update_self, Function.update_of_ne (by decide)]
    omega

theorem work_judge {board dialler : Side} {origin : Origin} {stage : Stage} {nowMs : Nat}
    (later : Stage.left stage + 1 = Stage.left (s.stage dialler)) :
    (s.judge setup board dialler origin stage nowMs).work setup + 1 ≤ s.work setup := by
  have count := heldCount_le_succ (held_judge setup s board dialler origin stage nowMs)
  have stages := left_update s.stage dialler stage
  unfold work
  show 2 * (Stage.left (Function.update s.stage dialler stage .a) + Stage.left (Function.update s.stage dialler stage .b)) +
    _ + 1 ≤ _
  omega

theorem work_step {e : Event n} {s' : Pair n} (agreeing : s.Agreeing setup) (stepped : s.step setup e = some s') :
    s'.work setup + (if Event.own e then 1 else 0) ≤ s.work setup := by
  obtain ⟨dialler, nowMs, rfl, -, fresh, rfl⟩ | ⟨dialler, nowMs, rfl, -, sent, rfl⟩ |
    ⟨board, dialler, rfl, -, held, rfl⟩ | ⟨board, call, rfl, apart, rfl⟩ := step_cases stepped
  · exact work_judge (by rw [fresh]; rfl)
  · exact work_judge (by rw [sent]; rfl)
  · have count := heldCount_succ_le held (fun still => ((held_linkDown board dialler board dialler).mp still).2 ⟨rfl, rfl⟩)
      (fun side connection still => ((held_linkDown board dialler side connection).mp still).1)
    unfold work
    simp only [Event.own, if_true]
    omega
  · obtain ⟨-, same⟩ := (agreeing.booked board).aside apart
    have count : heldCount setup { s with board := Function.update s.board board (call.run (s.board board)) } =
        s.heldCount setup := by
      unfold heldCount
      simp only [held_aside same]
    unfold work
    rw [count]
    exact Nat.le_refl _

theorem work_run {events : List (Event n)} {s' : Pair n} (agreeing : s.Agreeing setup)
    (calm : Along (step setup) (Calm setup) s events) (run : exec (step setup) s events = some s') :
    s'.work setup + events.countP Event.own ≤ s.work setup := by
  induction events generalizing s with
  | nil =>
    rw [exec_nil, Option.some.injEq] at run
    exact Nat.le_of_eq (by rw [run]; rfl)
  | cons e events ih =>
    obtain ⟨middle, stepped, rest⟩ := (exec_cons _ s s' e events).mp run
    have later := ih (agreeing.step calm.1 stepped) (calm.2 middle stepped) rest
    have now := work_step agreeing stepped
    rw [List.countP_cons]
    omega

theorem work_start (start : s.Start setup) : s.work setup = 8 := by
  have unheld : ∀ board connection, ¬ s.Held setup board connection := fun board _ => start.unlinked board _
  unfold work heldCount
  simp [unheld, start.fresh, Stage.left]

/-! ### The end -/

theorem Agreeing.quiet (agreeing : s.Agreeing setup) (quiet : s.Quiet setup) :
    ∃ dialler, s.alive dialler = true ∧ s.alive dialler.other = false ∧
      ∀ board slot, (s.board board).slots slot = some (setup.identity board.other) ↔ slot = setup.slot board dialler := by
  obtain ⟨noRead, noHandshake, noDown⟩ := quiet
  have done : ∀ dialler, s.alive dialler = true → s.stage dialler = .delivered := by
    intro dialler alive
    cases stage : s.stage dialler with
    | fresh =>
      have read := noRead dialler 0
      rw [Pair.step, if_pos ⟨alive, stage⟩] at read
      cases read
    | sent =>
      have handshake := noHandshake dialler 0
      rw [Pair.step, if_pos ⟨alive, stage⟩] at handshake
      cases handshake
    | delivered => rfl
  obtain ⟨dialler, dead⟩ : ∃ dialler : Side, s.alive dialler.other = false := by
    by_contra living
    rw [not_exists] at living
    have all : ∀ side : Side, s.alive side = true := by
      intro side
      have there := living side.other
      rwa [Side.other_other, Bool.not_eq_false] at there
    have first := (agreeing.both .a (all _) (all _)).first (done .a (all _))
    rw [done _ (all _)] at first
    cases first
  obtain ⟨alive, own, -, taken, -⟩ := agreeing.one dialler dead
  have cleared : ∀ board, ¬ s.Held setup board dialler.other := by
    intro board held
    have down := noDown board dialler.other
    rw [Pair.step, if_pos ⟨dead, held⟩] at down
    cases down
  refine ⟨dialler, alive, dead, ?_⟩
  intro board slot
  constructor
  · intro held
    obtain ⟨connection, rfl⟩ := (agreeing.booked board).places slot held
    rcases Side.eq_or connection dialler with rfl | rfl
    · rfl
    · exact absurd held (cleared board)
  · rintro rfl
    rcases Side.eq_or board dialler with rfl | rfl
    · exact own
    · exact taken.mpr (done dialler alive)

/-- Two boards that dial each other, in whatever order the identities are read and the handshakes arrive: at no moment
are both connections torn down, after at most eight steps of theirs nothing is left to do, and then both hold the same
connection and no other. -/
theorem boards_keep_same_connection (setup : Setup n) (s s' : Pair n) (events : List (Event n)) (start : s.Start setup)
    (calm : Along (step setup) (Calm setup) s events) (run : exec (step setup) s events = some s') :
    (∃ dialler, s'.alive dialler = true) ∧ events.countP Event.own ≤ 8 ∧
      (s'.Quiet setup → ∃ dialler, s'.alive dialler = true ∧ s'.alive dialler.other = false ∧
        ∀ board slot, (s'.board board).slots slot = some (setup.identity board.other) ↔
          slot = setup.slot board dialler) := by
  have agreeing : s'.Agreeing setup :=
    exec_invariant_along (fun _ _ _ agreeing calm stepped => agreeing.step calm stepped) (agreeing_start start) calm run
  have bound := work_run (agreeing_start start) calm run
  rw [work_start start] at bound
  refine ⟨?_, by omega, agreeing.quiet⟩
  by_cases living : s'.alive .a = true
  · exact ⟨.a, living⟩
  · exact ⟨.b, (agreeing.one .b (Bool.eq_false_iff.mpr living)).1⟩

section Sample

def sampleSetup : Setup 2 where
  identity := fun side => match side with | .a => FixedBytes.replicate 16 1 | .b => FixedBytes.replicate 16 2
  apart := by intro side; cases side <;> decide
  mtu := fun _ => 247
  slot := fun board dialler => if board = dialler then 0 else 1
  slot_ne := by intro board dialler; cases board <;> cases dialler <;> decide

def sampleStart : Pair 2 where
  board := fun side => PeerRegistry.new.setLocalIdentity (sampleSetup.identity side)
  alive := fun _ => true
  stage := fun _ => .fresh

def sampleEvents : List (Event 2) := [.read .a 0, .read .b 0, .handshake .b 0, .down .b .b, .handshake .a 0]

theorem sample_keeps_same_connection :
    ∃ s', exec (step sampleSetup) sampleStart sampleEvents = some s' ∧
      ∃ dialler, s'.alive dialler = true ∧ s'.alive dialler.other = false ∧
        ∀ board slot, (s'.board board).slots slot = some (sampleSetup.identity board.other) ↔
          slot = sampleSetup.slot board dialler := by
  have start : sampleStart.Start sampleSetup := ⟨fun _ => rfl, fun _ _ => nofun, fun _ => rfl, fun _ => rfl⟩
  have heard : ∀ (s : Pair 2) board, s.Heard sampleSetup board 0 := by
    intro s board dialler _ _
    rw [Nat.zero_sub]
    decide
  have calm : Along (step sampleSetup) (Calm sampleSetup) sampleStart sampleEvents :=
    ⟨heard _ _, fun _ _ => ⟨heard _ _, fun _ _ => ⟨heard _ _, fun _ _ => ⟨trivial, fun _ _ => ⟨heard _ _, fun _ _ =>
      trivial⟩⟩⟩⟩⟩
  have runs : (exec (step sampleSetup) sampleStart sampleEvents).isSome := by decide
  have quiet : ((exec (step sampleSetup) sampleStart sampleEvents).get runs).Quiet sampleSetup := by
    refine ⟨?_, ?_, ?_⟩
    · intro dialler nowMs
      cases dialler <;> rfl
    · intro dialler nowMs
      cases dialler <;> rfl
    · intro board dialler
      cases board <;> cases dialler <;> rfl
  refine ⟨_, (Option.some_get runs).symm, ?_⟩
  exact (boards_keep_same_connection sampleSetup sampleStart _ sampleEvents start calm (Option.some_get runs).symm).2.2 quiet

end Sample

end Pair

end Leviculum.Ble
