import Leviculum.Propagation.Offer
import Mathlib.Data.List.Induction

/-! What an offer covers, and what one answer sends of it. -/

namespace Leviculum.Propagation

namespace Peer

/-- Never offered, and never retried: below the peer's minimum, or above its transfer limit. -/
def skips (peer : Peer) (entry : StoredMessage) : Bool :=
  decide (entry.stampValue.toNat < peer.minAcceptedCost) ||
    decide (entry.transferSize > peer.transferLimitBytes)

def above (peer : Peer) (entry : StoredMessage) : Bool := decide (peer.cursor < entry.sequence)

def offers (peer : Peer) (entry : StoredMessage) : Bool := peer.above entry && !peer.skips entry

end Peer

/-- The builder once it has taken the entries of `seen`. -/
structure Built (peer : Peer) (budget : Nat) (seen : List StoredMessage) (builder : OfferBuilder) : Prop where
  ids : builder.plan.ids = (seen.filter peer.offers).map StoredMessage.transientId
  target : builder.plan.cursorTarget = (seen.filter peer.above).getLast?.elim peer.cursor StoredMessage.sequence
  cumulative : builder.cumulative =
    offerBaseSize + ((seen.filter peer.offers).map StoredMessage.transferSize).sum
  cursor : builder.initialCursor = peer.cursor
  minValue : builder.minValue = peer.minAcceptedCost
  transferLimit : builder.transferLimitBytes = peer.transferLimitBytes
  syncLimit : builder.syncLimitBytes = peer.syncLimitBytes
  offerBudget : builder.offerBudget = budget

/-- Why the walk stopped before an entry. -/
def Blocked (peer : Peer) (budget : Nat) (seen : List StoredMessage) (entry : StoredMessage) : Prop :=
  peer.offers entry = true ∧
    (offerBaseSize + ((seen.filter peer.offers).map StoredMessage.transferSize).sum + entry.transferSize ≥
        peer.syncLimitBytes ∨
      offerEncodedLen ((seen.filter peer.offers).length + 1) > budget)

theorem built_new (peer : Peer) (budget : Nat) : Built peer budget [] (OfferBuilder.new peer budget) where
  ids := rfl
  target := rfl
  cumulative := rfl
  cursor := rfl
  minValue := rfl
  transferLimit := rfl
  syncLimit := rfl
  offerBudget := rfl

section Push

variable {peer : Peer} {budget : Nat} {seen : List StoredMessage} {builder : OfferBuilder}

/-- One entry is taken or skipped, or the walk stops before it. -/
theorem Built.push (built : Built peer budget seen builder) (running : builder.stopped = false)
    (entry : StoredMessage) :
    ((builder.push entry).2 = false ∧ (builder.push entry).1.stopped = false ∧
      Built peer budget (seen ++ [entry]) (builder.push entry).1 ∧ ¬ Blocked peer budget seen entry) ∨
    ((builder.push entry).2 = true ∧ Built peer budget seen (builder.push entry).1 ∧
      Blocked peer budget seen entry) := by
  obtain ⟨ids, target, cumulative, cursor, minValue, transferLimit, syncLimit, offerBudget⟩ := built
  have count : builder.plan.ids.length = (seen.filter peer.offers).length := by
    rw [ids, List.length_map]
  unfold OfferBuilder.push
  rw [if_neg (by rw [running]; decide), cursor, minValue, transferLimit, syncLimit, offerBudget,
    cumulative, count]
  by_cases old : entry.sequence ≤ peer.cursor
  · have notAbove : peer.above entry = false := decide_eq_false (Nat.not_lt.mpr old)
    have notOffered : peer.offers entry = false := by rw [Peer.offers, notAbove, Bool.false_and]
    rw [if_pos old]
    refine .inl ⟨rfl, running, ⟨?_, ?_, ?_, cursor, minValue, transferLimit, syncLimit, offerBudget⟩, ?_⟩
    · rw [List.filter_append, List.filter_cons_of_neg (by rw [notOffered]; decide), List.filter_nil,
        List.append_nil]
      exact ids
    · rw [List.filter_append, List.filter_cons_of_neg (by rw [notAbove]; decide), List.filter_nil,
        List.append_nil]
      exact target
    · rw [List.filter_append, List.filter_cons_of_neg (by rw [notOffered]; decide), List.filter_nil,
        List.append_nil]
      exact cumulative
    · intro blocked
      rw [Blocked, notOffered] at blocked
      cases blocked.1
  have isAbove : peer.above entry = true := decide_eq_true (Nat.not_le.mp old)
  have reached : (((seen ++ [entry]).filter peer.above).getLast?).elim peer.cursor StoredMessage.sequence =
      entry.sequence := by
    rw [List.filter_append, List.filter_cons_of_pos isAbove, List.filter_nil, List.getLast?_concat]
    rfl
  rw [if_neg old]
  by_cases skipped : peer.skips entry = true
  · have notOffered : peer.offers entry = false := by rw [Peer.offers, skipped, isAbove]; rfl
    have same : (seen ++ [entry]).filter peer.offers = seen.filter peer.offers := by
      rw [List.filter_append, List.filter_cons_of_neg (by rw [notOffered]; decide), List.filter_nil,
        List.append_nil]
    have unblocked : ¬ Blocked peer budget seen entry := by
      intro blocked
      rw [Blocked, notOffered] at blocked
      cases blocked.1
    unfold Peer.skips at skipped
    rw [Bool.or_eq_true, decide_eq_true_eq, decide_eq_true_eq] at skipped
    by_cases low : entry.stampValue.toNat < peer.minAcceptedCost
    · rw [if_pos low]
      refine .inl ⟨rfl, running, ⟨?_, reached.symm, ?_, rfl, rfl, rfl, rfl, rfl⟩, unblocked⟩
      · rw [same]
        exact ids
      · rw [same]
    · rw [if_neg low, if_pos (skipped.resolve_left low)]
      refine .inl ⟨rfl, running, ⟨?_, reached.symm, ?_, rfl, rfl, rfl, rfl, rfl⟩, unblocked⟩
      · rw [same]
        exact ids
      · rw [same]
  · have offered : peer.offers entry = true := by
      rw [Peer.offers, isAbove, Bool.eq_false_iff.mpr skipped]
      rfl
    have more : (seen ++ [entry]).filter peer.offers = seen.filter peer.offers ++ [entry] := by
      rw [List.filter_append, List.filter_cons_of_pos offered, List.filter_nil]
    unfold Peer.skips at skipped
    rw [Bool.or_eq_true, decide_eq_true_eq, decide_eq_true_eq, not_or] at skipped
    rw [if_neg skipped.1, if_neg skipped.2]
    split
    next full => exact .inr ⟨rfl, ⟨ids, target, rfl, rfl, rfl, rfl, rfl, rfl⟩, offered, full⟩
    next room =>
      refine .inl ⟨rfl, running, ⟨?_, reached.symm, ?_, rfl, rfl, rfl, rfl, rfl⟩,
        fun blocked => room blocked.2⟩
      · rw [more, List.map_append, ← ids]
        rfl
      · rw [more, List.map_append, List.sum_append, ← Nat.add_assoc]
        rfl

theorem Built.pushAll (built : Built peer budget seen builder) (running : builder.stopped = false)
    (entries : List StoredMessage) :
    ∃ taken rest, entries = taken ++ rest ∧ Built peer budget (seen ++ taken) (builder.pushAll entries) ∧
      (∀ entry ∈ rest.head?, Blocked peer budget (seen ++ taken) entry) ∧
      ∀ entry ∈ taken, peer.offers entry = true → offerBaseSize + entry.transferSize < peer.syncLimitBytes := by
  induction entries generalizing seen builder with
  | nil => exact ⟨[], [], rfl, (List.append_nil seen).symm ▸ built, nofun, nofun⟩
  | cons entry rest ih =>
    unfold OfferBuilder.pushAll
    rcases built.push running entry with ⟨goesOn, running', built', unblocked⟩ | ⟨stops, built', blocked⟩
    · dsimp only
      rw [goesOn, if_neg (by decide)]
      obtain ⟨taken, left, same, final, stop, room⟩ := ih built' running'
      refine ⟨entry :: taken, left, by rw [same]; rfl, ?_, ?_, ?_⟩
      · rw [List.append_assoc] at final
        exact final
      · rw [List.append_assoc] at stop
        exact stop
      · intro other member offered
        rcases List.mem_cons.mp member with rfl | later
        · by_contra full
          exact unblocked ⟨offered, .inl (by omega)⟩
        · exact room other later offered
    · dsimp only
      rw [stops, if_pos rfl]
      refine ⟨[], entry :: rest, rfl, (List.append_nil seen).symm ▸ built', ?_, nofun⟩
      intro first here
      obtain rfl := Option.some.inj here
      rw [List.append_nil]
      exact blocked

end Push

theorem buildOffer_eq_some {peer : Peer} {entries : List StoredMessage} {budget : Nat} {plan : OfferPlan}
    (built : buildOffer peer entries budget = some plan) :
    ∃ taken rest, entries = taken ++ rest ∧
      plan.ids = (taken.filter peer.offers).map StoredMessage.transientId ∧
      plan.cursorTarget = (taken.filter peer.above).getLast?.elim peer.cursor StoredMessage.sequence ∧
      ∀ entry ∈ taken, peer.offers entry = true → offerBaseSize + entry.transferSize < peer.syncLimitBytes := by
  unfold buildOffer OfferBuilder.finish at built
  obtain ⟨taken, rest, same, final, -, room⟩ := (built_new peer budget).pushAll rfl entries
  rw [List.nil_append] at final
  split at built
  · cases built
  · obtain rfl := Option.some.inj built
    exact ⟨taken, rest, same, final.ids, final.target, room⟩

/-- An id the answer asks for and the store still holds. -/
def serves (entries : List StoredMessage) (wanted : WantedIds) (id : TransientId) : Bool :=
  wanted.wants id && (metaOf entries id).isSome

/-- A batch that took every id it could of those walked. -/
structure OpenBatch (entries : List StoredMessage) (wanted : WantedIds) (target : Nat)
    (walked : List TransientId) (batch : SyncBatch) : Prop where
  withheld : batch.withheld = 0
  target : batch.cursorTarget = target
  stop : batch.stop ≤ walked.length
  sent : (walked.take batch.stop).filter (serves entries wanted) = walked.filter (serves entries wanted)
  count : batch.count = (walked.filter (serves entries wanted)).length
  empty : batch.count = 0 → batch.payload = 0

/-- A batch that stopped before an id that did not fit. -/
structure ClosedBatch (entries : List StoredMessage) (wanted : WantedIds) (fits : Nat → Nat → Nat → Bool)
    (walked : List TransientId) (batch : SyncBatch) (before : List TransientId) (id : TransientId)
    (found : StoredMessage) : Prop where
  place : ∃ later, walked = before ++ id :: later
  wants : wanted.wants id = true
  held : metaOf entries id = some found
  withheld : batch.withheld > 0
  target : batch.cursorTarget = found.sequence - 1
  stop : batch.stop ≤ before.length
  sent : (before.take batch.stop).filter (serves entries wanted) = before.filter (serves entries wanted)
  count : batch.count = (before.filter (serves entries wanted)).length
  empty : batch.count = 0 → batch.payload = 0
  full : ∃ length, fits (batch.count + 1) length (batch.payload + found.size) = false

section Batch

variable {entries : List StoredMessage} {wanted : WantedIds} {fits : Nat → Nat → Nat → Bool}

/-- One more id leaves the batch open, or closes it, or finds it closed. -/
theorem OpenBatch.step {target : Nat} {walked : List TransientId} {state : BatchPlan}
    (isOpen : OpenBatch entries wanted target walked state.batch) (fits : Nat → Nat → Nat → Bool)
    (id : TransientId) :
    OpenBatch entries wanted target (walked ++ [id])
        (batchStep entries wanted fits state (id, walked.length)).batch ∧
      (∀ i < (batchStep entries wanted fits state (id, walked.length)).batch.count,
        i < state.batch.count ∨ ∃ length payload, fits (i + 1) length payload = true) ∨
    ∃ found, ClosedBatch entries wanted fits (walked ++ [id])
        (batchStep entries wanted fits state (id, walked.length)).batch walked id found ∧
      (batchStep entries wanted fits state (id, walked.length)).batch.count = state.batch.count := by
  obtain ⟨withheld, target', stop, sent, count, empty⟩ := isOpen
  have skipped : serves entries wanted id = false →
      OpenBatch entries wanted target (walked ++ [id]) state.batch := by
    intro unserved
    have same : (walked ++ [id]).filter (serves entries wanted) = walked.filter (serves entries wanted) := by
      rw [List.filter_append, List.filter_cons_of_neg (by rw [unserved]; decide), List.filter_nil,
        List.append_nil]
    refine ⟨withheld, target', ?_, ?_, ?_, empty⟩
    · rw [List.length_append]
      exact Nat.le_trans stop (Nat.le_add_right _ _)
    · rw [same, List.take_append_of_le_length stop]
      exact sent
    · rw [same]
      exact count
  unfold batchStep
  dsimp only
  by_cases wants : wanted.wants id = false
  · rw [if_pos wants]
    refine .inl ⟨skipped ?_, fun i below => .inl below⟩
    rw [serves, wants, Bool.false_and]
  rw [if_neg wants]
  rw [Bool.not_eq_false] at wants
  cases held : metaOf entries id with
  | none =>
    refine .inl ⟨skipped ?_, fun i below => .inl below⟩
    rw [serves, held, wants]
    rfl
  | some found =>
    dsimp only
    rw [if_neg (by rw [withheld]; decide)]
    have served : serves entries wanted id = true := by
      rw [serves, held, wants]
      rfl
    have more : (walked ++ [id]).filter (serves entries wanted) =
        walked.filter (serves entries wanted) ++ [id] := by
      rw [List.filter_append, List.filter_cons_of_pos served, List.filter_nil]
    split
    next full =>
      exact .inr ⟨found, ⟨⟨[], rfl⟩, wants, held, Nat.one_pos, rfl, stop, sent, count, empty, _, full⟩, rfl⟩
    next room =>
      refine .inl ⟨⟨withheld, target', ?_, ?_, ?_, nofun⟩, ?_⟩
      · rw [List.length_append]
        exact Nat.le_refl _
      · dsimp only
        rw [List.take_of_length_le (by rw [List.length_append]; exact Nat.le_refl _)]
      · dsimp only
        rw [more, List.length_append, count]
        rfl
      · intro i below
        rcases Nat.lt_succ_iff_lt_or_eq.mp below with less | rfl
        · exact .inl less
        · exact .inr ⟨_, _, (Bool.not_eq_false _).mp room⟩

theorem ClosedBatch.step {walked before : List TransientId} {stopped : TransientId} {found : StoredMessage}
    {state : BatchPlan} (closed : ClosedBatch entries wanted fits walked state.batch before stopped found)
    (next : TransientId × Nat) :
    ClosedBatch entries wanted fits (walked ++ [next.1]) (batchStep entries wanted fits state next).batch
      before stopped found ∧ (batchStep entries wanted fits state next).batch.count = state.batch.count := by
  obtain ⟨⟨later, place⟩, wants, held, withheld, target, stop, sent, count, empty, full⟩ := closed
  have longer : ∃ later, walked ++ [next.1] = before ++ stopped :: later := by
    refine ⟨later ++ [next.1], ?_⟩
    rw [place, List.append_assoc, List.cons_append]
  unfold batchStep
  split
  · exact ⟨⟨longer, wants, held, withheld, target, stop, sent, count, empty, full⟩, rfl⟩
  · split
    · exact ⟨⟨longer, wants, held, withheld, target, stop, sent, count, empty, full⟩, rfl⟩
    · exact ⟨⟨longer, wants, held, Nat.succ_pos _, target, stop, sent, count, empty, full⟩, rfl⟩

theorem batch_walk (entries : List StoredMessage) (wanted : WantedIds) (fits : Nat → Nat → Nat → Bool)
    (target : Nat) (ids : List TransientId) (start : BatchPlan)
    (fresh : OpenBatch entries wanted target [] start.batch) (zero : start.batch.count = 0) :
    (OpenBatch entries wanted target ids (ids.zipIdx.foldl (batchStep entries wanted fits) start).batch ∨
      ∃ before id found, ClosedBatch entries wanted fits ids
        (ids.zipIdx.foldl (batchStep entries wanted fits) start).batch before id found) ∧
    ∀ i < (ids.zipIdx.foldl (batchStep entries wanted fits) start).batch.count,
      ∃ length payload, fits (i + 1) length payload = true := by
  induction ids using List.reverseRecOn with
  | nil =>
    refine ⟨.inl fresh, ?_⟩
    intro i below
    change i < start.batch.count at below
    omega
  | append_singleton ids id ih =>
    obtain ⟨shape, counted⟩ := ih
    have last : (ids ++ [id]).zipIdx = ids.zipIdx ++ [(id, ids.length)] := by
      rw [List.zipIdx_append, Nat.zero_add]
      rfl
    rw [last, List.foldl_concat]
    rcases shape with isOpen | ⟨before, stopped, found, closed⟩
    · rcases isOpen.step fits id with ⟨isOpen', counted'⟩ | ⟨found, closed, same⟩
      · refine ⟨.inl isOpen', ?_⟩
        intro i below
        exact (counted' i below).elim (counted i) (fun fitted => fitted)
      · refine ⟨.inr ⟨_, _, found, closed⟩, ?_⟩
        rw [same]
        exact counted
    · obtain ⟨closed', same⟩ := closed.step (id, ids.length)
      refine ⟨.inr ⟨before, stopped, found, closed'⟩, ?_⟩
      rw [same]
      exact counted

end Batch

theorem planSyncBatch_ok {entries : List StoredMessage} {plan : OfferPlan} {wanted : WantedIds}
    {fits : Nat → Nat → Nat → Bool} {batch : SyncBatch}
    (planned : planSyncBatch (.ok entries) plan wanted fits = .ok batch) :
    (OpenBatch entries wanted plan.cursorTarget plan.ids batch ∨
      ∃ before id found, ClosedBatch entries wanted fits plan.ids batch before id found) ∧
    ∀ i < batch.count, ∃ length payload, fits (i + 1) length payload = true := by
  unfold planSyncBatch at planned
  obtain rfl := Except.ok.inj planned
  have walk := batch_walk entries wanted fits plan.cursorTarget plan.ids
    ⟨⟨0, 0, 0, syncEnvelopeLen 0 0, 0, plan.cursorTarget⟩, 0⟩ ⟨rfl, rfl, Nat.le_refl _, rfl, rfl, fun _ => rfl⟩ rfl
  obtain ⟨shape, counted⟩ := walk
  refine ⟨?_, counted⟩
  rcases shape with isOpen | ⟨before, id, found, closed⟩
  · exact .inl ⟨isOpen.withheld, isOpen.target, isOpen.stop, isOpen.sent, isOpen.count, isOpen.empty⟩
  · exact .inr ⟨before, id, found, closed.place, closed.wants, closed.held, closed.withheld, closed.target,
      closed.stop, closed.sent, closed.count, closed.empty, closed.full⟩

end Leviculum.Propagation
