import Leviculum.Transport.AnnounceSlot
import Leviculum.Transport.Deadline
import Mathlib.Data.List.Induction

/-! Rebroadcasts are few, and they do not go back to an older emission. -/

namespace Leviculum.Transport

def Tagged.emission (t : Tagged) : Nat := rawEmission t.entry.rawPacket

def Tagged.untargeted (t : Tagged) : Prop := t.entry.targetInterface = none

/-- How often an entry of this origin may be sent. -/
def Origin.allowance : Origin → Nat
  | .network | .ownResponse => pathfinderRetries + 1
  | .localClient | .response | .own => 1

namespace Slot

def Pending (slot : Slot) (p : Tagged) : Prop := slot.live = some p ∨ slot.held = some p

/-- An announce with these bytes is as new as what was sent, and no older one waits behind it. -/
structure Fits (slot : Slot) (raw : Bytes) : Prop where
  newest : ∀ x ∈ slot.emitted, x.emission ≤ rawEmission raw
  first : ∀ held, slot.held = some held → held.untargeted → rawEmission raw ≤ held.emission

/-- The event brings no announce that goes back behind one already sent or pending. -/
def Event.Forward (cfg : TimerConfig) (slot : Slot) : Event → Prop
  | .announce r a => { r with announce := slot.live.map Tagged.entry }.takes cfg.announce a = true → slot.Fits a.raw
  | .ownAnnounce _ _ raw => slot.Fits raw
  | .pathRequest _ _ _ _ raw | .ownPathRequest _ _ raw =>
    ∀ p, slot.Pending p → p.untargeted → rawEmission raw ≤ p.emission
  | _ => True

/-! ### What one event does -/

structure Ages (entry entry' : AnnounceEntry) : Prop where
  raw : entry'.rawPacket = entry.rawPacket
  target : entry'.targetInterface = entry.targetInterface
  retries : entry.retries ≤ entry'.retries

/-- What is pending afterwards was pending before, in its place or moved up. -/
structure Moves (slot : Slot) (live' held' : Option Tagged) : Prop where
  held : held' = slot.held ∨ held' = none
  live : live' = none ∨ (live' = slot.held ∧ held' = none) ∨
    ∃ live entry', slot.live = some live ∧ live' = some ⟨live.tag, entry'⟩ ∧ Ages live.entry entry'

/-- Everything an event can do; `forward` is what it must meet for the order. -/
inductive Change (forward : Prop) (slot : Slot) : Slot → Prop
  | moves (live' held' : Option Tagged) (moves : slot.Moves live' held') :
      Change forward slot { slot with live := live', held := held' }
  | inserts (origin : Origin) (entry : AnnounceEntry) (held' : Option Tagged)
      (few : pathfinderRetries + 1 - entry.retries = origin.allowance)
      (held : held' = slot.held ∨ held' = slot.live)
      (untargeted : entry.targetInterface = none → held' = slot.held ∧ (forward → slot.Fits entry.rawPacket))
      (targeted : entry.targetInterface ≠ none → forward → ∀ p, slot.Pending p → p.untargeted →
        rawEmission entry.rawPacket ≤ p.emission) :
      Change forward slot ({ slot with held := held' }.setAnnounce origin entry)
  | emits (live : Tagged) (was : slot.live = some live) (few : live.entry.retries ≤ pathfinderRetries)
      (live' held' : Option Tagged) (moves : slot.Moves live' held')
      (again : ∀ later, live' = some later → later.tag = live.tag → slot.held ≠ some later →
        live.entry.retries < later.entry.retries) :
      Change forward slot { slot with emitted := slot.emitted ++ [live], live := live', held := held' }

theorem Ages.refl (entry : AnnounceEntry) : Ages entry entry := ⟨rfl, rfl, Nat.le_refl _⟩

theorem Moves.staying {slot : Slot} {held' : Option Tagged} (held : held' = slot.held ∨ held' = none) :
    slot.Moves slot.live held' := by
  refine ⟨held, ?_⟩
  cases live : slot.live with
  | none => exact .inl rfl
  | some l => exact .inr (.inr ⟨l, l.entry, rfl, rfl, .refl _⟩)

theorem Change.kept (forward : Prop) (slot : Slot) : Change forward slot slot := .moves slot.live slot.held (.staying (.inl rfl))

theorem removeAnnounce_moves (slot : Slot) :
    ∃ live', slot.removeAnnounce = { slot with live := live', held := none } ∧ slot.Moves live' none ∧
      (live' = none ∨ live' = slot.held) := by
  unfold removeAnnounce restoreHeld
  cases held : slot.held with
  | none => exact ⟨none, by simp [← held], ⟨.inr rfl, .inl rfl⟩, .inl rfl⟩
  | some h => exact ⟨some h, rfl, ⟨.inr rfl, .inr (.inl ⟨held.symm, rfl⟩)⟩, .inr rfl⟩

theorem ages_countRebroadcast (entry : AnnounceEntry) (hops : Nat) : Ages entry (Route.countRebroadcast entry hops) := by
  unfold Route.countRebroadcast
  split_ifs <;> exact ⟨rfl, rfl, Nat.le_refl _⟩

theorem moves_aged {slot : Slot} {row : Option AnnounceEntry}
    (aged : ∀ live, slot.live = some live → ∃ entry', row = some entry' ∧ Ages live.entry entry') :
    slot.Moves (slot.live.bind fun live => row.map fun entry => { live with entry }) slot.held := by
  refine ⟨.inl rfl, ?_⟩
  cases was : slot.live with
  | none => exact .inl rfl
  | some live =>
    obtain ⟨entry', rfl, ages⟩ := aged live was
    exact .inr (.inr ⟨live, entry', rfl, rfl, ages⟩)

theorem change_handleAnnounce (cfg : TimerConfig) (slot : Slot) (r : Route) (a : Announce) :
    Change (Event.Forward cfg slot (.announce r a)) slot (slot.handleAnnounce cfg.announce r a) := by
  have effect := Route.handleAnnounce_row cfg.announce { r with announce := slot.live.map Tagged.entry } a
  unfold handleAnnounce
  dsimp only
  generalize (Route.handleAnnounce cfg.announce { r with announce := slot.live.map Tagged.entry } a).2.announce = row at effect
  cases effect with
  | kept not =>
    rw [if_neg (by simp [not])]
    refine .moves _ slot.held (moves_aged ?_)
    intro live was
    exact ⟨live.entry, by rw [was]; rfl, .refl _⟩
  | counted not entry had =>
    rw [if_neg (by simp [not])]
    refine .moves _ slot.held (moves_aged ?_)
    intro live was
    rw [was] at had
    cases had
    exact ⟨_, rfl, ages_countRebroadcast live.entry a.hops⟩
  | taken takes entry retries raw untargeted =>
    rw [if_pos takes]
    refine .inserts _ entry slot.held ?_ (.inl rfl) (fun _ => ⟨rfl, ?_⟩) (fun targeted => absurd untargeted targeted)
    · rw [retries]
      split_ifs <;> rfl
    · intro forward
      rw [raw]
      exact forward takes

theorem holdDisplacedAnnounce_held (slot : Slot) :
    ∃ held', slot.holdDisplacedAnnounce = { slot with held := held' } ∧ (held' = slot.held ∨ held' = slot.live) := by
  unfold holdDisplacedAnnounce
  split
  · exact ⟨slot.held, rfl, .inl rfl⟩
  next existing was =>
    split_ifs
    · exact ⟨slot.held, rfl, .inl rfl⟩
    · exact ⟨some existing, rfl, .inr was.symm⟩

theorem change_answerPathRequest (cfg : TimerConfig) (slot : Slot) (nowMs grace hops iface : Nat) (cached : Bytes) :
    Change (Event.Forward cfg slot (.pathRequest nowMs grace hops iface cached)) slot
      (slot.answerPathRequest nowMs grace hops iface cached) := by
  unfold answerPathRequest
  split
  · exact .kept _ slot
  · obtain ⟨held', shape, from_⟩ := slot.holdDisplacedAnnounce_held
    rw [shape]
    exact .inserts .response _ held' rfl from_ (fun untargeted => by cases untargeted) (fun _ forward => forward)

theorem change_answerOwnPathRequest (cfg : TimerConfig) (slot : Slot) (nowMs iface : Nat) (raw : Bytes) :
    Change (Event.Forward cfg slot (.ownPathRequest nowMs iface raw)) slot (slot.answerOwnPathRequest nowMs iface raw) := by
  unfold answerOwnPathRequest
  obtain ⟨held', shape, from_⟩ := slot.holdDisplacedAnnounce_held
  rw [shape]
  exact .inserts .ownResponse _ held' rfl from_ (fun untargeted => by cases untargeted) (fun _ forward => forward)

theorem afterFire_moves {slot : Slot} {live : Tagged} (was : slot.live = some live) (nextAtMs : Nat) :
    ∃ live' held', slot.afterFire nextAtMs live = { slot with live := live', held := held' } ∧ slot.Moves live' held' ∧
      ∀ later, live' = some later → later.tag = live.tag → slot.held ≠ some later →
        live.entry.retries < later.entry.retries := by
  unfold afterFire restoreHeld
  cases held : slot.held with
  | none =>
    have again : Ages live.entry { live.entry with
        retransmitAtMs := some nextAtMs
        retries := live.entry.retries + 1 } := ⟨rfl, rfl, Nat.le_succ _⟩
    refine ⟨_, none, rfl, ⟨.inr rfl, .inr (.inr ⟨live, _, was, rfl, again⟩)⟩, ?_⟩
    rintro later ⟨⟩ - -
    exact Nat.lt_succ_self _
  | some h =>
    refine ⟨some h, none, rfl, ⟨.inr rfl, .inr (.inl ⟨held.symm, rfl⟩)⟩, ?_⟩
    rintro later ⟨⟩ - apart
    exact absurd rfl apart

theorem change_fireAnnounce (forward : Prop) (cfg : TimerConfig) {slot : Slot} {live : Tagged}
    (was : slot.live = some live) (few : live.entry.retries ≤ pathfinderRetries) (nextAtMs : Nat) :
    Change forward slot (slot.fireAnnounce cfg nextAtMs live) := by
  unfold fireAnnounce
  split
  · obtain ⟨live', held', shape, moves, -⟩ := afterFire_moves was nextAtMs
    rw [shape]
    exact .moves live' held' moves
  · dsimp only
    split_ifs
    · obtain ⟨live', shape, moves, up⟩ := { slot with emitted := slot.emitted ++ [live] }.removeAnnounce_moves
      rw [shape]
      refine .emits live was few live' none ⟨moves.held, moves.live⟩ ?_
      intro later there _ apart
      rcases up with none' | same
      · rw [none'] at there
        cases there
      · exact absurd (same.symm.trans there) apart
    · have was' : { slot with emitted := slot.emitted ++ [live] }.live = some live := was
      obtain ⟨live', held', shape, moves, again⟩ := afterFire_moves was' nextAtMs
      rw [shape]
      exact .emits live was few live' held' ⟨moves.held, moves.live⟩ again

theorem change_pass (forward : Prop) (cfg : TimerConfig) (slot : Slot) (s : Timers) (nowMs nextAtMs : Nat) :
    Change forward slot (slot.checkAnnounceRebroadcasts cfg s nowMs nextAtMs) := by
  unfold checkAnnounceRebroadcasts
  split
  · exact .kept forward slot
  next live was =>
  split
  · exact .kept forward slot
  · obtain ⟨live', shape, moves, -⟩ := slot.removeAnnounce_moves
    rw [shape]
    exact .moves live' none moves
  · exact .moves _ slot.held ⟨.inl rfl, .inr (.inr ⟨live, _, was, rfl, ⟨rfl, rfl, Nat.le_refl _⟩⟩)⟩
  next fires =>
    have few : live.entry.retries ≤ pathfinderRetries := by
      by_contra past
      rw [Timers.dueOf, if_pos (.inl (Nat.lt_of_not_le past))] at fires
      cases fires
    exact change_fireAnnounce forward cfg was few nextAtMs

theorem change_step (cfg : TimerConfig) (slot : Slot) (event : Event) :
    Change (event.Forward cfg slot) slot (slot.step cfg event) := by
  cases event with
  | announce r a => exact change_handleAnnounce cfg slot r a
  | pathRequest nowMs grace hops iface cached => exact change_answerPathRequest cfg slot nowMs grace hops iface cached
  | ownPathRequest nowMs iface raw => exact change_answerOwnPathRequest cfg slot nowMs iface raw
  | ownAnnounce nowMs waitMs raw =>
    exact .inserts .own _ slot.held rfl (.inl rfl) (fun _ => ⟨rfl, id⟩) (fun targeted => absurd rfl targeted)
  | pass s nowMs nextAtMs => exact change_pass _ cfg slot s nowMs nextAtMs
  | interfaceDown iface =>
    show Change _ slot (slot.removeTargetedAnnounces iface)
    unfold removeTargetedAnnounces
    dsimp only
    have culled : slot.held.filter (fun held => held.entry.targetInterface ≠ some iface) = slot.held ∨
        slot.held.filter (fun held => held.entry.targetInterface ≠ some iface) = none := by
      cases slot.held with
      | none => exact .inr rfl
      | some held =>
        rw [Option.filter_some]
        split_ifs
        · exact .inl rfl
        · exact .inr rfl
    split_ifs
    · obtain ⟨live', shape, moves, up⟩ := { slot with
        held := slot.held.filter fun held => held.entry.targetInterface ≠ some iface }.removeAnnounce_moves
      rw [shape]
      refine .moves live' none ⟨.inr rfl, ?_⟩
      rcases up with none' | same
      · exact .inl none'
      · rcases culled with kept | gone
        · exact .inr (.inl ⟨same.trans kept, rfl⟩)
        · exact .inl (same.trans gone)
    · exact .moves slot.live _ (.staying culled)
  | evicted => exact .moves none slot.held ⟨.inl rfl, .inl rfl⟩
  | heldLost => exact .moves slot.live none (.staying (.inr rfl))

/-! ### How often -/

/-- How often the entry of this number was sent. -/
def sent (slot : Slot) (tag : Nat) : Nat := slot.emitted.countP (fun t => t.tag = tag)

/-- How often it may be. -/
def allowance (slot : Slot) (tag : Nat) : Nat := (slot.inserted[tag]?.map fun e => e.1.allowance).getD 0

/-- What was sent of an entry and what it has left stay within its allowance. -/
structure Bounded (slot : Slot) : Prop where
  pending : ∀ p, slot.Pending p → p.tag < slot.inserted.length ∧
    slot.sent p.tag + (pathfinderRetries + 1 - p.entry.retries) ≤ slot.allowance p.tag
  apart : ∀ live held, slot.live = some live → slot.held = some held → live.tag ≠ held.tag
  all : ∀ tag, slot.sent tag ≤ slot.allowance tag

theorem Moves.pending {slot : Slot} {live' held' : Option Tagged} (moves : slot.Moves live' held') {p : Tagged}
    (pending : live' = some p ∨ held' = some p) :
    ∃ before, slot.Pending before ∧ p.tag = before.tag ∧ Ages before.entry p.entry := by
  rcases pending with live | held
  · rcases moves.live with none' | ⟨up, -⟩ | ⟨before, entry', was, same, ages⟩
    · rw [none'] at live
      cases live
    · exact ⟨p, .inr (up.symm.trans live), rfl, .refl _⟩
    · rw [same] at live
      cases live
      exact ⟨before, .inl was, rfl, ages⟩
  · rcases moves.held with same | none'
    · exact ⟨p, .inr (same.symm.trans held), rfl, .refl _⟩
    · rw [none'] at held
      cases held

theorem Moves.apart {slot : Slot} {live' held' : Option Tagged} (moves : slot.Moves live' held')
    (apart : ∀ live held, slot.live = some live → slot.held = some held → live.tag ≠ held.tag) :
    ∀ live held, live' = some live → held' = some held → live.tag ≠ held.tag := by
  intro live held isLive isHeld
  rcases moves.held with same | none'
  · rcases moves.live with gone | ⟨-, none'⟩ | ⟨before, entry', was, aged, -⟩
    · rw [gone] at isLive
      cases isLive
    · rw [none'] at isHeld
      cases isHeld
    · rw [aged] at isLive
      cases isLive
      exact apart before held was (same.symm.trans isHeld)
  · rw [none'] at isHeld
    cases isHeld

theorem allowance_inserted (slot : Slot) (held' : Option Tagged) (origin : Origin) (entry : AnnounceEntry) (tag : Nat) :
    ({ slot with held := held' }.setAnnounce origin entry).allowance tag =
      if tag = slot.inserted.length then origin.allowance else slot.allowance tag := by
  unfold allowance setAnnounce
  dsimp only
  rw [List.getElem?_append]
  split_ifs with old new new
  · omega
  · rfl
  · subst new
    simp
  · rw [List.getElem?_eq_none (by rw [List.length_singleton]; omega), List.getElem?_eq_none (by omega)]

theorem allowance_unborn {slot : Slot} {tag : Nat} (unborn : slot.inserted.length ≤ tag) : slot.allowance tag = 0 := by
  unfold allowance
  rw [List.getElem?_eq_none unborn]
  rfl

theorem sent_emitted (slot : Slot) (live : Tagged) (live' held' : Option Tagged) (tag : Nat) :
    { slot with emitted := slot.emitted ++ [live], live := live', held := held' }.sent tag =
      slot.sent tag + if live.tag = tag then 1 else 0 := by
  unfold sent
  dsimp only
  rw [List.countP_append, List.countP_singleton]
  simp

theorem bounded_change {forward : Prop} {slot slot' : Slot} (change : Change forward slot slot')
    (bounded : slot.Bounded) : slot'.Bounded := by
  cases change with
  | moves live' held' moves =>
    refine ⟨?_, moves.apart bounded.apart, bounded.all⟩
    intro p pending
    obtain ⟨before, was, tag, ages⟩ := moves.pending pending
    obtain ⟨known, room⟩ := bounded.pending before was
    have left := Nat.sub_le_sub_left ages.retries (pathfinderRetries + 1)
    rw [tag]
    exact ⟨known, Nat.le_trans (Nat.add_le_add_left left _) room⟩
  | inserts origin entry held' few held untargeted targeted =>
    have unsent : slot.sent slot.inserted.length = 0 := by
      have most := bounded.all slot.inserted.length
      rw [allowance_unborn (Nat.le_refl _)] at most
      exact Nat.le_zero.mp most
    have older : ∀ p, held' = some p → slot.Pending p := by
      rintro p isHeld
      rcases held with same | same
      · exact .inr (same.symm.trans isHeld)
      · exact .inl (same.symm.trans isHeld)
    refine ⟨?_, ?_, ?_⟩
    · intro p pending
      rw [allowance_inserted]
      rcases pending with new | old
      · cases new
        refine ⟨by simp [setAnnounce], ?_⟩
        rw [if_pos rfl, ← few]
        show slot.sent slot.inserted.length + (pathfinderRetries + 1 - entry.retries) ≤ _
        exact Nat.le_of_eq (by rw [unsent, Nat.zero_add])
      · obtain ⟨known, room⟩ := bounded.pending p (older p old)
        rw [if_neg (Nat.ne_of_lt known)]
        refine ⟨?_, room⟩
        show p.tag < (slot.inserted ++ [_]).length
        rw [List.length_append]
        exact Nat.lt_add_right _ known
    · rintro live other isLive isHeld
      cases isLive
      exact (Nat.ne_of_lt (bounded.pending other (older other isHeld)).1).symm
    · intro tag
      rw [allowance_inserted]
      show slot.sent tag ≤ _
      split_ifs with new
      · rw [new, unsent]
        exact Nat.zero_le _
      · exact bounded.all tag
  | emits live was few live' held' moves again =>
    obtain ⟨-, liveRoom⟩ := bounded.pending live (.inl was)
    refine ⟨?_, moves.apart bounded.apart, ?_⟩
    · intro p pending
      obtain ⟨before, there, tag, ages⟩ := moves.pending pending
      obtain ⟨known, room⟩ := bounded.pending before there
      rw [sent_emitted]
      refine ⟨tag ▸ known, ?_⟩
      by_cases same : live.tag = p.tag
      · -- the entry that was sent is still pending, one retry further
        have notHeld : slot.held ≠ some p := fun isHeld => bounded.apart live p was isHeld same
        have isLive : live' = some p := by
          rcases pending with up | down
          · exact up
          · rcases moves.held with kept | none'
            · exact absurd (kept.symm.trans down) notHeld
            · rw [none'] at down
              cases down
        have further := again p isLive same.symm notHeld
        rw [if_pos same, ← same]
        show slot.sent live.tag + 1 + _ ≤ slot.allowance live.tag
        omega
      · have left := Nat.sub_le_sub_left ages.retries (pathfinderRetries + 1)
        rw [if_neg same, tag]
        exact Nat.le_trans (Nat.add_le_add_left left _) room
    · intro tag
      rw [sent_emitted]
      show _ ≤ slot.allowance tag
      split_ifs with same
      · subst same
        omega
      · exact bounded.all tag

/-! ### In which order -/

/-- Nothing untargeted that is pending is older than what was sent, or than what is to be sent before it. -/
structure Ordered (slot : Slot) : Prop where
  sent : slot.emitted.Pairwise fun x y => y.untargeted → x.emission ≤ y.emission
  pending : ∀ p, slot.Pending p → p.untargeted → ∀ x ∈ slot.emitted, x.emission ≤ p.emission
  behind : ∀ live held, slot.live = some live → slot.held = some held → held.untargeted → live.emission ≤ held.emission

theorem Ages.emission {entry entry' : AnnounceEntry} (ages : Ages entry entry') (tag tag' : Nat) :
    (Tagged.mk tag' entry').emission = (Tagged.mk tag entry).emission := congrArg rawEmission ages.raw

theorem Moves.behind {slot : Slot} {live' held' : Option Tagged} (moves : slot.Moves live' held')
    (behind : ∀ live held, slot.live = some live → slot.held = some held → held.untargeted →
      live.emission ≤ held.emission) :
    ∀ live held, live' = some live → held' = some held → held.untargeted → live.emission ≤ held.emission := by
  intro live held isLive isHeld untargeted
  rcases moves.held with same | none'
  · rcases moves.live with gone | ⟨-, none'⟩ | ⟨before, entry', was, aged, ages⟩
    · rw [gone] at isLive
      cases isLive
    · rw [none'] at isHeld
      cases isHeld
    · rw [aged] at isLive
      cases isLive
      rw [ages.emission before.tag before.tag]
      exact behind before held was (same.symm.trans isHeld) untargeted
  · rw [none'] at isHeld
    cases isHeld

theorem ordered_change {forward : Prop} {slot slot' : Slot} (change : Change forward slot slot') (meets : forward)
    (ordered : slot.Ordered) : slot'.Ordered := by
  cases change with
  | moves live' held' moves =>
    refine ⟨ordered.sent, ?_, moves.behind ordered.behind⟩
    intro p pending untargeted x member
    obtain ⟨before, was, -, ages⟩ := moves.pending pending
    rw [show p.emission = before.emission from ages.emission before.tag p.tag]
    exact ordered.pending before was (ages.target.symm.trans untargeted) x member
  | inserts origin entry held' few held untargeted targeted =>
    have older : ∀ p, held' = some p → slot.Pending p := by
      rintro p isHeld
      rcases held with same | same
      · exact .inr (same.symm.trans isHeld)
      · exact .inl (same.symm.trans isHeld)
    refine ⟨ordered.sent, ?_, ?_⟩
    · intro p pending free x member
      rcases pending with new | old
      · cases new
        exact ((untargeted free).2 meets).newest x member
      · exact ordered.pending p (older p old) free x member
    · intro live other isLive isHeld free
      cases isLive
      by_cases target : entry.targetInterface = none
      · obtain ⟨same, fits⟩ := untargeted target
        exact (fits meets).first other (same.symm.trans isHeld) free
      · exact targeted target meets other (older other isHeld) free
  | emits live was few live' held' moves again =>
    refine ⟨?_, ?_, moves.behind ordered.behind⟩
    · rw [List.pairwise_append]
      refine ⟨ordered.sent, List.pairwise_singleton _ _, ?_⟩
      intro x member y last untargeted
      rw [List.mem_singleton] at last
      subst last
      exact ordered.pending y (.inl was) untargeted x member
    · intro p pending untargeted x member
      obtain ⟨before, there, -, ages⟩ := moves.pending pending
      have same : p.emission = before.emission := ages.emission before.tag p.tag
      have free : before.untargeted := ages.target.symm.trans untargeted
      rcases List.mem_append.mp member with old | new
      · rw [same]
        exact ordered.pending before there free x old
      · rw [List.mem_singleton] at new
        subst new
        rw [same]
        rcases there with isLive | isHeld
        · cases was.symm.trans isLive
          exact Nat.le_refl _
        · exact ordered.behind x before was isHeld free

/-- Every entry is sent at most as often as its origin allows; and where each event brings only announces that go
forward, what is sent to everyone is never older than anything sent before. -/
theorem rebroadcasts_bounded_and_ordered (cfg : TimerConfig) (events : List Event) :
    (∀ tag origin entry, (run cfg {} events).inserted[tag]? = some (origin, entry) →
      (run cfg {} events).sent tag ≤ origin.allowance) ∧
    ((∀ done event rest, events = done ++ event :: rest → event.Forward cfg (run cfg {} done)) →
      (run cfg {} events).emitted.Pairwise fun x y => y.untargeted → x.emission ≤ y.emission) := by
  have bounded : (run cfg {} events).Bounded := by
    induction events using List.reverseRecOn with
    | nil => exact ⟨nofun, nofun, fun _ => Nat.le_refl _⟩
    | append_singleton events event ih =>
      rw [run, List.foldl_concat]
      exact bounded_change (change_step cfg _ event) ih
  refine ⟨?_, ?_⟩
  · intro tag origin entry found
    have most := bounded.all tag
    rw [allowance, found] at most
    exact most
  · intro forward
    have ordered : (run cfg {} events).Ordered := by
      clear bounded
      induction events using List.reverseRecOn with
      | nil => exact ⟨.nil, nofun, nofun⟩
      | append_singleton events event ih =>
        have before := ih (fun done next rest split => forward done next (rest ++ [event]) (by simp [split]))
        rw [run, List.foldl_concat]
        exact ordered_change (change_step cfg _ event) (forward events event [] rfl) before
    exact ordered.sent

/-! ### Two announces of one destination -/

open Timers (relayTimers booted)
open RelayedLink (wire)
open Pacing (announceOf)

/-- An announce of this emission, heard on interface 5 while no path to its destination is known. -/
def heardAnnounce (emission : UInt8) (nowMs : Nat) : Event :=
  .announce {} {
    randomHash := FixedBytes.of [0, 0, 0, 0, 0, 0, 0, 0, 0, emission]
    hops := 1
    interfaceIndex := 5
    transportId := none
    ingressPeer := none
    isPathResponse := false
    raw := wire (announceOf 3 emission)
    nowMs }

def passAt (nowMs : Nat) : Event := .pass booted nowMs (nowMs + 5000)

theorem newer_announce_follows :
    (run relayTimers {} [heardAnnounce 1 0, passAt 10, heardAnnounce 2 3000, passAt 3010]).emitted.map
        Tagged.emission = [1, 2] ∧
      (run relayTimers {} [heardAnnounce 1 0, passAt 10, heardAnnounce 2 3000, passAt 3010]).emitted.Pairwise
        fun x y => y.untargeted → x.emission ≤ y.emission := by
  refine ⟨by decide +kernel, (rebroadcasts_bounded_and_ordered relayTimers _).2 ?_⟩
  intro done event rest split
  rcases done with _ | ⟨_, _ | ⟨_, _ | ⟨_, _ | ⟨_, done⟩⟩⟩⟩
  · cases split
    exact fun _ => ⟨nofun, nofun⟩
  · cases split
    trivial
  · cases split
    have noneHeld : (run relayTimers {} [heardAnnounce 1 0, passAt 10]).held = none := by decide +kernel
    refine fun _ => ⟨by decide +kernel, ?_⟩
    intro held isHeld
    cases noneHeld.symm.trans isHeld
  · cases split
    trivial
  · simp at split

/-- The path is gone by the time an older announce is heard, which is then taken and sent to everyone. -/
theorem older_announce_follows :
    ((run relayTimers {} [heardAnnounce 2 0, passAt 10, heardAnnounce 1 3000, passAt 3010]).emitted.map
      fun t => (t.emission, t.entry.targetInterface)) = [(2, none), (1, none)] := by
  decide +kernel

end Slot

end Leviculum.Transport
