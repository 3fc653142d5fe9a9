import Leviculum.Propagation.Get
import Leviculum.Propagation.ServeCap

/-! A fetch plan is shorter than the cap it was made under. The running sum of a plan is a float; what is needed of
floats is that they count whole numbers exactly up to 2^53. -/

namespace Leviculum.Propagation

/-- The operations on floats that planning uses. -/
structure Arithmetic (F : Type) where
  ofNat : Nat → F
  add : F → F → F
  /-- The `>` of the source. -/
  exceeds : F → F → Bool
  /-- The `<=` of the source. -/
  atMost : F → F → Bool
  minimum : F → F → F
  infinity : F
  /-- `RESPONSE_BASE_OVERHEAD`. -/
  baseOverhead : F
  /-- `RESPONSE_PER_MESSAGE_OVERHEAD`. -/
  perMessageOverhead : F

namespace Arithmetic

def float : Arithmetic Float where
  ofNat := Float.ofNat
  add := fun left right => left + right
  exceeds := fun left right => decide (left > right)
  atMost := fun left right => decide (left ≤ right)
  minimum := floatMin
  infinity := floatInfinity
  baseOverhead := 24.0
  perMessageOverhead := 16.0

/-- What binary64 guarantees: whole numbers up to 2^53 are added and compared exactly, and a number above the second
of two is above their minimum. -/
structure Exact {F : Type} (arithmetic : Arithmetic F) : Prop where
  base : arithmetic.baseOverhead = arithmetic.ofNat 24
  perMessage : arithmetic.perMessageOverhead = arithmetic.ofNat 16
  add : ∀ a b, a + b ≤ 2 ^ 53 → arithmetic.add (arithmetic.ofNat a) (arithmetic.ofNat b) = arithmetic.ofNat (a + b)
  exceeds : ∀ a b, a ≤ 2 ^ 53 → b < a → arithmetic.exceeds (arithmetic.ofNat a) (arithmetic.ofNat b) = true
  minimum : ∀ x a b, arithmetic.exceeds x b = true → arithmetic.exceeds x (arithmetic.minimum a b) = true

end Arithmetic

section Planning

variable {F : Type} (arithmetic : Arithmetic F)

/-- The running arithmetic of a plan, and what it has taken in. -/
structure Planning (F : Type) where
  owned : Owned
  cumulativeSize : F
  served : List (TransientId × Nat)
  servedBytes : Nat
  payloadBytes : Nat

/-- The running sum with one more body. -/
def nextSize (cumulativeSize : F) (size : Nat) : F :=
  arithmetic.add (arithmetic.add cumulativeSize (arithmetic.ofNat size)) arithmetic.perMessageOverhead

/-- The walk over the wanted ids. -/
def planServed (limitBytes : F) : Planning F → List TransientId → Planning F
  | planning, [] => planning
  | planning, id :: rest =>
    if arithmetic.atMost (nextSize arithmetic planning.cumulativeSize minBodyLen) limitBytes = false then planning
    else
      match planning.owned.lookup id with
      | none => planServed limitBytes planning rest
      | some size =>
        if size < minBodyLen then planServed limitBytes planning rest
        else if arithmetic.exceeds (nextSize arithmetic planning.cumulativeSize size) limitBytes = true then
          planServed limitBytes planning rest
        else
          planServed limitBytes {
            owned := planning.owned.erase id
            cumulativeSize := nextSize arithmetic planning.cumulativeSize size
            served := planning.served ++ [(id, size - stampSize)]
            servedBytes := planning.servedBytes + (size - stampSize)
            payloadBytes := planning.payloadBytes + binHeaderLen (size - stampSize) + (size - stampSize) } rest

def limitOf (config : PropagationNodeConfig) (client : Option F) : F :=
  ([client, config.serveLimitBytes.map arithmetic.ofNat, config.serveCapBytes.map arithmetic.ofNat].filterMap
    (fun limit => limit)).foldl arithmetic.minimum arithmetic.infinity

/-- The plan for the wanted ids among those the client owns. -/
def fetchPlan (config : PropagationNodeConfig) (client : Option F) (owned : Owned) (wants : List TransientId) : FetchPlan :=
  let planning := planServed arithmetic (limitOf arithmetic config client) ⟨owned, arithmetic.baseOverhead, [], 0, 0⟩ wants
  { served := planning.served
    encodedLen := arrayHeaderLen planning.served.length + planning.payloadBytes
    servedBytes := planning.servedBytes }

end Planning

/-! ### The plans of `prepare_get` -/

/-- A fetch being planned, without its limit. -/
def Serving.planning (serving : Serving) : Planning Float :=
  ⟨serving.owned, serving.budget.cumulativeSize, serving.served, serving.servedBytes, serving.payloadBytes⟩

theorem planning_serve (serving : Serving) (wants : List TransientId) :
    (serve serving wants).planning = planServed .float serving.budget.limitBytes serving.planning wants := by
  induction wants generalizing serving with
  | nil => rfl
  | cons id rest ih =>
    unfold serve planServed
    have room : serving.budget.canAdmitAny =
        Arithmetic.float.atMost (nextSize .float serving.planning.cumulativeSize minBodyLen) serving.budget.limitBytes := rfl
    rw [room]
    split
    · rfl
    · have held : serving.planning.owned.lookup id = serving.owned.lookup id := rfl
      rw [held]
      rcases serving.owned.lookup id with _ | size
      · exact ih serving
      · dsimp only
        by_cases small : size < minBodyLen
        · rw [if_pos small, if_pos small]
          exact ih serving
        · rw [if_neg small, if_neg small]
          by_cases large : nextSize .float serving.planning.cumulativeSize size > serving.budget.limitBytes
          · have refused : serving.budget.admitSize size = (false, serving.budget) := if_pos large
            have exceeds : Arithmetic.float.exceeds (nextSize .float serving.planning.cumulativeSize size)
                serving.budget.limitBytes = true := decide_eq_true large
            rw [refused, if_pos rfl, if_pos exceeds]
            exact ih serving
          · have taken : serving.budget.admitSize size =
                (true, { serving.budget with cumulativeSize := nextSize .float serving.planning.cumulativeSize size }) :=
              if_neg large
            have kept : ¬ Arithmetic.float.exceeds (nextSize .float serving.planning.cumulativeSize size)
                serving.budget.limitBytes = true := fun exceeds => large (of_decide_eq_true exceeds)
            rw [taken, if_neg Bool.true_eq_false.mp, if_neg kept]
            exact ih _

theorem prepareGet_plan {library : Msgpack.Lxmf.Rmp} {Store : Type} [PropagationStore Store]
    {node after : PropagationNode Store} {request : Bytes} {remote : DestinationHash} {nowSecs : Nat}
    {prepared : PreparedFetch} (planned : node.prepareGet library request remote nowSecs = (.ok (.fetch prepared), after)) :
    ∃ client owned wants, prepared.plan = fetchPlan .float node.config client owned wants := by
  unfold PropagationNode.prepareGet at planned
  split at planned
  · cases planned
  · next request _ =>
    split at planned
    · split at planned
      · cases planned
      · split at planned <;> cases planned
    · split at planned
      · cases planned
      · next entries _ =>
        dsimp only at planned
        split at planned
        · cases planned
        · obtain rfl := PreparedGet.fetch.inj (Except.ok.inj (Prod.mk.inj planned).1)
          obtain ⟨owned, held⟩ : ∃ owned, (confirmHaves nowSecs ⟨node, ownedOf (request.wants.getD [] ++ request.haves.getD [])
            (PropagationNode.mailbox entries remote), []⟩ (request.haves.getD [])).2.owned = owned := ⟨_, rfl⟩
          refine ⟨request.transferLimitKb.map TransferLimit.bytes, owned, request.wants.getD [], ?_⟩
          rw [held]
          exact congrArg (fun planning : Planning Float => FetchPlan.mk planning.served
            (arrayHeaderLen planning.served.length + planning.payloadBytes) planning.servedBytes)
            (planning_serve ⟨owned, .new (PropagationNode.transferLimit node.config request.transferLimitKb), [], 0, 0⟩ _)

/-! ### The bound -/

section Bound

variable {F : Type} {arithmetic : Arithmetic F} (exact : arithmetic.Exact)

include exact

theorem nextSize_ofNat {total size : Nat} (small : total + size + 16 ≤ 2 ^ 53) :
    nextSize arithmetic (arithmetic.ofNat total) size = arithmetic.ofNat (total + size + 16) := by
  rw [nextSize, exact.perMessage, exact.add total size (by omega), exact.add (total + size) 16 small]

theorem exceeds_limitOf {config : PropagationNodeConfig} {cap : Nat} (capped : config.serveCapBytes = some cap)
    (client : Option F) {x : F} (exceeds : arithmetic.exceeds x (arithmetic.ofNat cap) = true) :
    arithmetic.exceeds x (limitOf arithmetic config client) = true := by
  have last : limitOf arithmetic config client = arithmetic.minimum
      (([client, config.serveLimitBytes.map arithmetic.ofNat].filterMap (fun limit => limit)).foldl arithmetic.minimum
        arithmetic.infinity) (arithmetic.ofNat cap) := by
    rw [limitOf, capped]
    cases client <;> cases config.serveLimitBytes <;> rfl
  rw [last]
  exact exact.minimum _ _ _ exceeds

/-- The sum so far: 24 bytes, and 16 more than its stamped size for every body. -/
structure Accounted (arithmetic : Arithmetic F) (cap : Nat) (planning : Planning F) (total : Nat) : Prop where
  sum : planning.cumulativeSize = arithmetic.ofNat total
  payload : planning.payloadBytes + 43 * planning.served.length + 24 ≤ total
  base : planning.served = [] → planning.payloadBytes = 0 ∧ total = 24
  within : planning.served ≠ [] → total ≤ cap

theorem accounted_planServed {config : PropagationNodeConfig} {cap : Nat} (capped : config.serveCapBytes = some cap)
    (small : cap ≤ 2 ^ 52) (client : Option F) (wants : List TransientId) {planning : Planning F} {total : Nat}
    (sizes : ∀ id size, planning.owned.lookup id = some size → size < 2 ^ 32) (accounted : Accounted arithmetic cap planning total) :
    ∃ later, Accounted arithmetic cap (planServed arithmetic (limitOf arithmetic config client) planning wants) later := by
  induction wants generalizing planning total with
  | nil => exact ⟨total, accounted⟩
  | cons id rest ih =>
    unfold planServed
    split
    · exact ⟨total, accounted⟩
    · split
      · exact ih sizes accounted
      · next size held =>
        split
        · exact ih sizes accounted
        · split
          · exact ih sizes accounted
          · next body kept =>
            have bounded : total ≤ 2 ^ 52 := by
              by_cases none : planning.served = []
              · rw [(accounted.base none).2]
                decide
              · exact Nat.le_trans (accounted.within none) small
            have word := sizes id size held
            have sum : nextSize arithmetic planning.cumulativeSize size = arithmetic.ofNat (total + size + 16) := by
              rw [accounted.sum]
              exact nextSize_ofNat exact (by omega)
            have inside : total + size + 16 ≤ cap := by
              by_contra above
              refine kept ?_
              rw [sum]
              exact exceeds_limitOf exact capped client (exact.exceeds _ _ (by omega) (by omega))
            have header : binHeaderLen (size - stampSize) ≤ 5 := by
              unfold binHeaderLen
              split_ifs <;> decide
            have long : stampSize ≤ size := by
              unfold minBodyLen at body
              omega
            have before := accounted.payload
            refine ih (fun other size' held' => ?_) ⟨sum, ?_, ?_, fun _ => inside⟩
            · by_cases same : other = id
              · rw [same] at held'
                exact nomatch (AList.lookup_erase id planning.owned).symm.trans held'
              · exact sizes other size' ((AList.lookup_erase_ne same).symm.trans held')
            · dsimp only
              rw [List.length_append, List.length_singleton]
              unfold stampSize at header long ⊢
              omega
            · intro none
              cases List.append_eq_nil_iff.mp none |>.2

theorem encodedLen_lt_cap {config : PropagationNodeConfig} {cap : Nat} (capped : config.serveCapBytes = some cap)
    (small : cap ≤ 2 ^ 52) (client : Option F) {owned : Owned} (sizes : ∀ id size, owned.lookup id = some size → size < 2 ^ 32)
    (wants : List TransientId) :
    (fetchPlan arithmetic config client owned wants).served = [] ∧
      (fetchPlan arithmetic config client owned wants).encodedLen = 1 ∨
    (fetchPlan arithmetic config client owned wants).encodedLen < cap := by
  have start : Accounted arithmetic cap ⟨owned, arithmetic.baseOverhead, [], 0, 0⟩ 24 :=
    ⟨exact.base, Nat.le_refl _, fun _ => ⟨rfl, rfl⟩, fun some => absurd rfl some⟩
  obtain ⟨total, accounted⟩ := accounted_planServed exact capped small client wants sizes start
  unfold fetchPlan
  dsimp only
  by_cases none : (planServed arithmetic (limitOf arithmetic config client) ⟨owned, arithmetic.baseOverhead, [], 0, 0⟩ wants).served
      = []
  · left
    refine ⟨none, ?_⟩
    rw [none, (accounted.base none).1]
    rfl
  · right
    have header : ∀ count, arrayHeaderLen count ≤ 5 := by
      intro count
      unfold arrayHeaderLen
      split_ifs <;> decide
    have within := accounted.within none
    have payload := accounted.payload
    have frame := header (planServed arithmetic (limitOf arithmetic config client)
      ⟨owned, arithmetic.baseOverhead, [], 0, 0⟩ wants).served.length
    omega

end Bound

/-- When the estimate for the whole free heap does not wrap, the cap is the greatest one not above the free bytes for
which both estimates fit, and zero when none does; and when the free bytes are few enough for floats to count, a
plan made under it that serves anything is shorter than it, and one that serves nothing is one byte. -/
theorem serving_cap_largest_safe {bits free largest resourceSdu cap : Nat}
    (found : serveCapForHeap bits free largest resourceSdu = cap) (fits : servePeak free resourceSdu < 2 ^ bits) :
    (cap ≤ free ∧
      (servePeakBytes bits cap resourceSdu ≤ free ∧ serveLargestBlockBytes bits cap resourceSdu ≤ largest ∨
        cap = 0 ∧ ∀ other ≤ free,
          ¬ (servePeakBytes bits other resourceSdu ≤ free ∧ serveLargestBlockBytes bits other resourceSdu ≤ largest)) ∧
      ∀ other ≤ free, servePeakBytes bits other resourceSdu ≤ free → serveLargestBlockBytes bits other resourceSdu ≤ largest →
        other ≤ cap) ∧
    (free ≤ 2 ^ 52 → ∀ (F : Type) (arithmetic : Arithmetic F), arithmetic.Exact →
      ∀ (config : PropagationNodeConfig) (client : Option F) (owned : Owned) (wants : List TransientId),
        config.serveCapBytes = some cap → (∀ id size, owned.lookup id = some size → size < 2 ^ 32) →
        (fetchPlan arithmetic config client owned wants).served = [] ∧
          (fetchPlan arithmetic config client owned wants).encodedLen = 1 ∨
        (fetchPlan arithmetic config client owned wants).encodedLen < cap) := by
  obtain ⟨below, safe, most⟩ := @serveCapForHeap_spec bits free largest resourceSdu fits
  rw [found] at below safe most
  refine ⟨⟨below, ?_, ?_⟩, ?_⟩
  · rcases safe with fits | ⟨none, refused⟩
    · exact .inl (of_decide_eq_true fits)
    · exact .inr ⟨none, fun other inside => of_decide_eq_false (refused other inside)⟩
  · intro other inside peak block
    exact most other inside (decide_eq_true ⟨peak, block⟩)
  · intro small F arithmetic exact config client owned wants capped sizes
    exact encodedLen_lt_cap exact capped (Nat.le_trans below small) client sizes wants

/-- Whole numbers, which count as floats do on what is small. -/
def wholeNumbers : Arithmetic Nat where
  ofNat := id
  add := fun left right => left + right
  exceeds := fun left right => decide (right < left)
  atMost := fun left right => decide (left ≤ right)
  minimum := min
  infinity := 2 ^ 1024
  baseOverhead := 24
  perMessageOverhead := 16

theorem wholeNumbers_exact : wholeNumbers.Exact where
  base := rfl
  perMessage := rfl
  add _ _ _ := rfl
  exceeds _ _ _ less := decide_eq_true less
  minimum := by
    intro x a b exceeds
    have above : b < x := of_decide_eq_true exceeds
    exact decide_eq_true (Nat.lt_of_le_of_lt (Nat.min_le_right a b) above)

def cappedConfig (cap : Nat) : PropagationNodeConfig := ⟨0, 0, false, none, some cap⟩

theorem serveCapForHeap_board : serveCapForHeap 32 30380 30380 464 = 14296 :=
  serveCapForHeap_eq (by decide) (by decide) (by decide) (by decide)

def boardMail (byte : UInt8) : TransientId := FixedBytes.replicate 32 byte

/-- Two messages for the client; together they are past the cap. -/
def boardMails : Owned := (AList.singleton (boardMail 1) 5000).insert (boardMail 2) 12000

/-- Of what a client asks for, one id unknown, the first message is served and the second left for later. -/
theorem serving_cap_largest_safe_on_board :
    let plan := fetchPlan wholeNumbers (cappedConfig (serveCapForHeap 32 30380 30380 464)) none boardMails
      [boardMail 3, boardMail 1, boardMail 2]
    plan.served = [(boardMail 1, 4968)] ∧ plan.encodedLen < serveCapForHeap 32 30380 30380 464 := by
  have room : servePeak 30380 464 < 2 ^ 32 := by decide
  have served : (fetchPlan wholeNumbers (cappedConfig (serveCapForHeap 32 30380 30380 464)) none boardMails
      [boardMail 3, boardMail 1, boardMail 2]).served = [(boardMail 1, 4968)] := by
    rw [serveCapForHeap_board]
    decide +kernel
  refine ⟨served, ?_⟩
  have planned := (serving_cap_largest_safe rfl room).2 (by decide) Nat wholeNumbers wholeNumbers_exact
    (cappedConfig (serveCapForHeap 32 30380 30380 464)) none boardMails [boardMail 3, boardMail 1, boardMail 2] rfl ?_
  · refine planned.resolve_left (fun empty => ?_)
    rw [empty.1] at served
    cases served
  · intro id size held
    have member : ⟨id, size⟩ ∈ boardMails.entries := AList.mem_lookup_iff.mp held
    have small : ∀ entry ∈ boardMails.entries, entry.2 < 2 ^ 32 := by decide
    exact small _ member

/-- With nothing free the cap is zero and an empty plan is longer than it. And with half of the address space free the
search ends below a cap whose estimate has wrapped and fits. -/
theorem serving_cap_not_safe :
    (serveCapForHeap 64 0 0 464 = 0 ∧ (fetchPlan .float (cappedConfig 0) none ∅ []).encodedLen = 1) ∧
    servePeakBytes 64 (2 ^ 63) 464 ≤ 2 ^ 63 ∧ serveLargestBlockBytes 64 (2 ^ 63) 464 ≤ 2 ^ 64 - 1 ∧
    serveCapForHeap 64 (2 ^ 63) (2 ^ 64 - 1) 464 < 2 ^ 63 := by
  refine ⟨⟨Bisect.greatest_done (by decide), rfl⟩, by decide, by decide, ?_⟩
  have first : ¬ capFits 64 (2 ^ 63) (2 ^ 64 - 1) 464 (Bisect.middle 0 (2 ^ 63)) = true := by decide
  rw [serveCapForHeap, Bisect.greatest_lower (by decide) first]
  refine Nat.lt_of_le_of_lt (Bisect.greatest_mem (Nat.zero_le _)).2 (by decide)

end Leviculum.Propagation
